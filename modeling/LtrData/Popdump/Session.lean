import LtrData.Library.CrlfLines
import LtrData.Library.TransitionSystem
import Mathlib.Logic.Function.Basic

namespace Popdump

open Octet

def MAX_LINE : Nat := 32768

abbrev Buffer := Nat → Octet

/-! ### iohlp -/

/-- The loop of LineRecv: what it leaves of the stream, the buffer and the number of characters in
    it. The stream is what read still delivers before it fails. -/
def recvLine (limit : Nat) : List Octet → Buffer → Nat → List Octet × Buffer × Nat
  | [], pBuf, dwLen => ([], pBuf, dwLen)
  | c :: stream, pBuf, dwLen =>
    if dwLen < limit then
      let pBuf := Function.update pBuf dwLen c
      if c = CR then recvLine limit stream pBuf dwLen
      else if c = LF then (stream, pBuf, dwLen)
      else recvLine limit stream pBuf (dwLen + 1)
    else (c :: stream, pBuf, dwLen)

structure Received where
  stream : List Octet
  pBuf : Buffer
  dwLen : Nat

def LineRecv (stream : List Octet) (pBuf : Buffer) (dwBufSize : Nat) : Received :=
  let (stream, pBuf, dwLen) := recvLine (dwBufSize - 2) stream pBuf 0
  ⟨stream, Function.update pBuf dwLen NUL, dwLen⟩

/-! ### main -/

/-- The bytes of a string literal or of what printf makes of a number. -/
def text (s : String) : List Octet := s.toList.map fun c => BitVec.ofNat 8 c.toNat

/-- sprintf to the start of a buffer. -/
def sprintf (pBuf : Buffer) (s : List Octet) : Buffer := fun i =>
  if i < s.length then s.getD i 0 else if i = s.length then NUL else pBuf i

/-- The position of the first NUL from `i` on, which comes after `n` more characters at most. -/
def findNul (pBuf : Buffer) (i : Nat) : Nat → Nat
  | 0 => i
  | n + 1 => if pBuf i = NUL then i else findNul pBuf (i + 1) n

def strlen (pBuf : Buffer) (bound : Nat) : Nat := findNul pBuf 0 bound

/-- strcat of a line end. -/
def appendCrLf (pBuf : Buffer) (bound : Nat) : Buffer :=
  let n := strlen pBuf bound
  Function.update (Function.update (Function.update pBuf n CR) (n + 1) LF) (n + 2) NUL

/-- Where main stands in its loop: before sending RETR, before the reply to it, before open, before
    LineRecv or write for the message, before sending DELE, before the reply to it, behind the loop. -/
inductive Point
  | retr
  | retrReply
  | openFile
  | recv
  | write (dwLineLength : Nat)
  | dele
  | deleReply
  | quit
  | returned (code : Nat)
deriving DecidableEq

/-- `file` is the saved file, `received` what has been read since RETR was sent, and `lost` tells
    whether a write for the message has left out some of what it was passed. -/
structure Session where
  point : Point
  dwMailCounter : Nat
  stream : List Octet
  cBuff : Buffer
  file : List Octet
  received : List Octet
  lost : Bool

/-- The arguments, and the number of messages the server has told. -/
structure Config where
  szPOPServer : List Octet
  szPOPUsername : List Octet
  dwNumMail : Nat

namespace Session

/-- LineRecv to cBuff. -/
def lineRecv (s : Session) (dwBufSize : Nat) : Session :=
  let r := LineRecv s.stream s.cBuff dwBufSize
  { s with
    stream := r.stream
    cBuff := r.pBuf
    received := s.received ++ s.stream.take (s.stream.length - r.stream.length) }

/-- The for loop's head, with RETR in the buffer. -/
def sendRetr (c : Config) (s : Session) : Session :=
  if s.dwMailCounter ≤ c.dwNumMail then
    { s with
      point := .retrReply
      cBuff := sprintf s.cBuff (text s!"RETR {s.dwMailCounter}\r\n")
      received := [] }
  else { s with point := .quit }

def retrReply (s : Session) : Session :=
  let s := s.lineRecv MAX_LINE
  { s with point := if s.cBuff 0 = 43 then .openFile else .quit }

/-- The name of the file is made in the buffer, too. -/
def openFile (c : Config) (s : Session) (opens : Bool) : Session :=
  let name := c.szPOPUsername ++ text "@" ++ c.szPOPServer ++ text s!"[{s.dwMailCounter}].eml"
  let s := { s with cBuff := sprintf s.cBuff name }
  if opens then { s with point := .recv, file := [], lost := false } else { s with point := .quit }

/-- A line of the message is received and tested for the single dot. -/
def recv (s : Session) : Session :=
  let dwLineLength := (LineRecv s.stream s.cBuff (MAX_LINE - 3)).dwLen
  let s := s.lineRecv (MAX_LINE - 3)
  if s.cBuff 0 = DOT ∧ s.cBuff 1 = NUL then { s with point := .dele }
  else { s with point := .write dwLineLength, cBuff := appendCrLf s.cBuff dwLineLength }

/-- write, which is taken to have failed when it returns 0. -/
def write (s : Session) (dwLineLength : Nat) (result : Int) : Session :=
  let s := { s with
    file := s.file ++ (List.range result.toNat).map s.cBuff
    lost := s.lost || decide (result ≠ (dwLineLength + 2 : Nat)) }
  { s with point := if result = 0 then .returned 1 else .recv }

def sendDele (s : Session) : Session :=
  { s with point := .deleReply, cBuff := sprintf s.cBuff (text s!"DELE {s.dwMailCounter}\r\n") }

def deleReply (s : Session) : Session :=
  let s := s.lineRecv MAX_LINE
  if s.cBuff 0 = 43 then { s with point := .retr, dwMailCounter := s.dwMailCounter + 1 }
  else { s with point := .quit }

end Session

/-- One step of the loop. Whether open succeeds and what write returns is up to the system. -/
inductive Step (c : Config) : Session → Session → Prop
  | sendRetr {s : Session} (point : s.point = .retr) : Step c s (s.sendRetr c)
  | retrReply {s : Session} (point : s.point = .retrReply) : Step c s s.retrReply
  | openFile {s : Session} (point : s.point = .openFile) (opens : Bool) : Step c s (s.openFile c opens)
  | recv {s : Session} (point : s.point = .recv) : Step c s s.recv
  | write {s : Session} {dwLineLength : Nat} (point : s.point = .write dwLineLength) (result : Int)
    (least : -1 ≤ result) (most : result ≤ (dwLineLength + 2 : Nat)) :
    Step c s (s.write dwLineLength result)
  | sendDele {s : Session} (point : s.point = .dele) : Step c s s.sendDele
  | deleReply {s : Session} (point : s.point = .deleReply) : Step c s s.deleReply

/-- The RETR and DELE loop of main, with all that the server sends from there on. -/
def loop (c : Config) (stream : List Octet) (cBuff : Buffer) : TransitionSystem Session where
  start s := s = ⟨.retr, 1, stream, cBuff, [], [], false⟩
  step := Step c

end Popdump
