import LtrData.Library.LinkedChain
import LtrData.Library.TransitionSystem
import Mathlib.Data.Option.Basic

namespace Chatsrv

/-- Where the thread of a connection stands. The calls and assignments are those about to be done,
and cm is the variable of the loop over the chain. -/
inductive Point (Client : Type)
  | notConnected
  | constructorEnter
  | setNext
  | setFirst
  | constructorLeave
  | recvName
  | applyEnter (namebuf : String)
  | applyStart (namebuf : String)
  | applyLoop (namebuf : String) (cm : Option Client)
  | applyLeave
  | broadcastEnter (msg : String) (goesOn : Bool)
  | broadcastStart (msg : String) (goesOn : Bool)
  | broadcastLoop (number : Nat) (msg : String) (cm : Option Client) (goesOn : Bool)
  | recvLine
  | listEnter
  | listStart
  | listLoop (cm : Option Client)
  | destructorEnter
  | destructorStart
  | destructorLoop (cm : Option Client)
  | destructorLeave
  | deleteName
  | ended
  | nullPointer
deriving DecidableEq

/-- A message sent to a client by the broadcast of that number. -/
structure Sending (Client : Type) where
  client : Client
  number : Nat
  msg : String

structure State (Client : Type) where
  cs : Option Client
  first : Option Client
  next : Client → Option Client
  name : Client → Option String
  points : Client → Point Client
  broadcasts : Nat
  sent : List (Sending Client)

def MAX_PATH : Nat := 260

/-- What _snprintf leaves in buf once its last byte is set to 0. -/
def snprintf (text : String) : String := String.ofList (text.toList.take (MAX_PATH - 1))

/-- Whether strcmpi returns 0. -/
def strcmpi (a b : String) : Bool := a.toLower = b.toLower

variable {Client : Type} [DecidableEq Client]

/-- What stands behind an Enter of the critical section. -/
def Point.behindEnter : Point Client → Option (Point Client)
  | constructorEnter => some setNext
  | applyEnter namebuf => some (applyStart namebuf)
  | broadcastEnter msg goesOn => some (broadcastStart msg goesOn)
  | listEnter => some listStart
  | destructorEnter => some destructorStart
  | _ => none

/-- ParseCommand on a line that starts with a slash. -/
def parseCommand (cmd name : String) : Point Client :=
  if strcmpi cmd "/list" then .listEnter
  else if strcmpi cmd "/quit" then .broadcastEnter (snprintf (name ++ " left the chat.\n")) false
  else .recvLine

/-- A round of the loop in Server with the line that LineRecv has received. -/
def serverLoop (line name : String) : Point Client :=
  if line.length = 0 then .broadcastEnter (snprintf (name ++ " left the chat.\n")) false
  else if line.front = '/' then parseCommand line name
  else .broadcastEnter (name ++ "> " ++ line ++ "\n") true

namespace State

def move (s : State Client) (c : Client) (point : Point Client) : State Client :=
  { s with points := Function.update s.points c point }

def leave (s : State Client) (c : Client) (point : Point Client) : State Client :=
  { s.move c point with cs := none }

def nameOf (s : State Client) (c : Client) : String := (s.name c).getD ""

/-- A step of the thread that is in the critical section. -/
def inside (s : State Client) (c : Client) : State Client :=
  match s.points c with
  | .setNext => { s with next := Function.update s.next c s.first }.move c .setFirst
  | .setFirst => { s with first := some c }.move c .constructorLeave
  | .constructorLeave => s.leave c .recvName
  | .applyStart namebuf => s.move c (.applyLoop namebuf s.first)
  | .applyLoop namebuf (some cm) =>
    match s.name cm with
    | some name =>
      if strcmpi namebuf name then s.leave c .destructorEnter
      else s.move c (.applyLoop namebuf (s.next cm))
    | none => s.move c (.applyLoop namebuf (s.next cm))
  | .applyLoop namebuf none =>
    { s with name := Function.update s.name c (some namebuf) }.move c .applyLeave
  | .applyLeave =>
    s.leave c (.broadcastEnter (snprintf (s.nameOf c ++ " joined the chat.\n")) true)
  | .broadcastStart msg goesOn =>
    { s with broadcasts := s.broadcasts + 1 }.move c
      (.broadcastLoop s.broadcasts msg s.first goesOn)
  | .broadcastLoop number msg (some cm) goesOn =>
    { s with sent := s.sent ++ [Sending.mk cm number msg] }.move c
      (.broadcastLoop number msg (s.next cm) goesOn)
  | .broadcastLoop _ _ none goesOn => s.leave c (if goesOn then .recvLine else .destructorEnter)
  | .listStart => s.move c (.listLoop s.first)
  | .listLoop (some cm) => s.move c (.listLoop (s.next cm))
  | .listLoop none => s.leave c .recvLine
  | .destructorStart =>
    if s.first = some c then { s with first := s.next c }.move c .destructorLeave
    else s.move c (.destructorLoop s.first)
  | .destructorLoop (some cm) =>
    match s.next cm with
    | some behind =>
      if behind = c then
        { s with next := Function.update s.next cm (s.next c) }.move c .destructorLeave
      else s.move c (.destructorLoop (some behind))
    | none => s.move c .destructorLeave
  | .destructorLoop none => s.move c .nullPointer
  | .destructorLeave => s.leave c .deleteName
  | _ => s

end State

/-- One step of the thread of a connection. -/
inductive Step : State Client → State Client → Prop
  | connect {s : State Client} {c : Client} (point : s.points c = .notConnected) :
    Step s (s.move c .constructorEnter)
  | enter {s : State Client} {c : Client} {behind : Point Client}
    (point : (s.points c).behindEnter = some behind) (free : s.cs = none) :
    Step s { s.move c behind with cs := some c }
  | inside {s : State Client} {c : Client} (owner : s.cs = some c) : Step s (s.inside c)
  | recvName {s : State Client} {c : Client} (line : String) (point : s.points c = .recvName) :
    Step s (s.move c (if line.length = 0 then .destructorEnter else .applyEnter line))
  | recvLine {s : State Client} {c : Client} (line : String) (point : s.points c = .recvLine) :
    Step s (s.move c (serverLoop line (s.nameOf c)))
  | deleteName {s : State Client} {c : Client} (point : s.points c = .deleteName) :
    Step s (s.move c .ended)

def chatServer : TransitionSystem (State Client) where
  start s := s.cs = none ∧ s.first = none ∧ (∀ c, s.name c = none) ∧
    (∀ c, s.points c = .notConnected) ∧ s.broadcasts = 0 ∧ s.sent = []
  step := Step

/-! ### Where the objects of the connections stand -/

namespace Point

/-- The constructor has left the critical section. -/
def Constructed : Point Client → Prop
  | notConnected | constructorEnter | setNext | setFirst | constructorLeave => False
  | _ => True

/-- The destructor has left the critical section. -/
def Destructed : Point Client → Prop
  | deleteName | ended => True
  | _ => False

/-- The name has not been applied for. -/
def Unnamed : Point Client → Prop
  | notConnected | constructorEnter | setNext | setFirst | constructorLeave | recvName => True
  | _ => False

def Inside : Point Client → Prop
  | setNext | setFirst | constructorLeave | applyStart _ | applyLoop .. | applyLeave
  | broadcastStart .. | broadcastLoop .. | listStart | listLoop _ | destructorStart
  | destructorLoop _ | destructorLeave | nullPointer => True
  | _ => False

/-- Between setting first in the constructor and unlinking in the destructor. -/
def Linked : Point Client → Prop
  | notConnected | constructorEnter | setNext | setFirst | destructorLeave | deleteName | ended
  | nullPointer => False
  | _ => True

end Point

end Chatsrv
