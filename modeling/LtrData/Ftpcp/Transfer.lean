import LtrData.Ftpcp.ConnectionInfo
import LtrData.Ftpcp.PortString
import LtrData.Library.TransitionSystem
import Mathlib.Logic.Function.Basic

namespace Ftpcp

open Octet Popdump

/-! ### What the threads do one after another -/

/-- What the threads do to the pipes and to the data connection. The first four come with all that is
    done for them: the answer to PASV is received and taken apart, a listener is set up, the string
    from the pipe goes out as PORT, or to sscanf and connect. -/
inductive Sync
  | putTarget
  | listen
  | givePort
  | relayPort
  | connectPort
  | accept
  | upload
  | download
deriving DecidableEq

inductive Action
  | openFile (szPath : Option (List Octet))
  /-- StrSend for one string after another. A null pointer is none. -/
  | send (strings : List (Option (List Octet)))
  /-- A loop that receives a reply, and the test of its code. -/
  | reply (e : Exchange)
  /-- Whether QUIT can be sent, and what comes for an answer, does not matter. -/
  | quit
  | sync (point : Sync)

def Action.sync? : Action → Option Sync
  | .sync point => some point
  | _ => none

/-- What is the same in both threads: a connection to a server is set up for the transfer. -/
def ConnectionInfo.login (info : ConnectionInfo) (bModeA bModeB : Bool) : List Action :=
  [.reply ⟨cBufferSize, [text "220"]⟩, .send [some (text "USER "), info.szUsername, some [LF]],
    .reply ⟨cBufferSize, [text "331"]⟩, .send [some (text "PASS "), info.szPassword, some [LF]],
    .reply ⟨cBufferSize, [text "230"]⟩] ++
  (if bModeA then [.send [some (text "TYPE A" ++ [LF])], .reply ⟨cBufferSize, []⟩] else []) ++
  (if bModeB then [.send [some (text "TYPE I" ++ [LF])], .reply ⟨cBufferSize, []⟩] else [])

/-- What is the same in both threads behind the command for the transfer. -/
def transferred : List Action :=
  [.reply ⟨cBufferSize, [text "125", text "150"]⟩, .reply ⟨cBufferSize, [text "226"]⟩, .quit]

def ConnectionInfo.PasvThread (info : ConnectionInfo) (bModeA bModeB : Bool) : List Action :=
  match info.szServer with
  | some _ =>
    info.login bModeA bModeB ++
      [.send [some (text "PASV" ++ [LF])], .sync .givePort,
        .send [some (text "RETR "), info.szPath, some [LF]]] ++ transferred
  | none => [.openFile info.szPath, .sync .listen, .sync .accept, .sync .upload]

def ConnectionInfo.PortThread (info : ConnectionInfo) (bModeA bModeB : Bool) : List Action :=
  match info.szServer with
  | some _ =>
    .sync .putTarget :: info.login bModeA bModeB ++
      [.sync .relayPort, .reply ⟨cBufferSize - 128, [text "200"]⟩,
        .send [some (text "STOR "), info.szPath, some [LF]]] ++ transferred
  | none => [.openFile info.szPath, .sync .putTarget, .sync .connectPort, .sync .download]

/-! ### The program -/

/-- A command line, the servers' parts of the control connections, what is in the threads' buffers
    before anything else, the address the target sees, and the source file. -/
structure Config where
  source : List Octet
  target : Option (List Octet)
  bModeA : Bool
  bModeB : Bool
  stream : Thread → List Octet
  cBuffer : Thread → Buffer
  sin_addr : InAddr
  input : List Octet

namespace Config

variable (c : Config)

def info : Thread → ConnectionInfo
  | .PasvThread => ConnectionInfo.FillOut ⟨none, none, none, none, none⟩ c.source
  | .PortThread => ConnectionInfo.FillOut ⟨none, none, none, none, none⟩ (c.target.getD (text "-"))

def isServer (thread : Thread) : Bool := (c.info thread).szServer.isSome

def actions : Thread → List Action
  | .PasvThread => (c.info .PasvThread).PasvThread c.bModeA c.bModeB
  | .PortThread => (c.info .PortThread).PortThread c.bModeA c.bModeB

/-- What the target thread tells the source thread: a local receiver is at 127.0.0.1. -/
def targetAddr : InAddr :=
  match (c.info .PortThread).szServer with
  | some _ => c.sin_addr
  | none => ⟨127, 0, 0, 1⟩

end Config

/-- A thread with what it has still to do. The commands it has sent and the final lines of the
    replies it has accepted are kept for what is said about runs. -/
structure Party where
  left : List Action
  cBuffer : Buffer
  stream : List Octet
  said : List (List Octet)
  heard : List (List Octet)

namespace Party

def say (p : Party) (command : List Octet) : Party := { p with said := p.said ++ [command] }

def receive (p : Party) (e : Exchange) : Party :=
  let after := replyLoop e.dwBufSize p.stream p.cBuffer
  { p with stream := after.1, cBuffer := after.2 }

def string (p : Party) : List Octet := cString cBufferSize p.cBuffer

def hear (p : Party) (e : Exchange) : Party :=
  { p.receive e with heard := p.heard ++ [(p.receive e).string] }

/-- The string from the pipe. -/
def line (p : Party) (hSourcePort : List Octet) : Received :=
  LineRecv hSourcePort p.cBuffer cBufferSize

def takeLine (p : Party) (hSourcePort : List Octet) : Party :=
  { p with cBuffer := (p.line hSourcePort).pBuf }

end Party

/-- The pipes, the listener and the data connection, of which the sending end has put in `uploaded`
    and the receiving end has taken out `output`. The port string that has been given is kept, too. -/
structure Shared where
  hSourcePort : List Octet
  hTargetAddr : List Octet
  port : Option (List Octet)
  listener : Option SockAddr
  connected : Bool
  unread : List Octet
  uploaded : List Octet
  data : List Octet
  closed : Bool
  output : List Octet

/-- How the process ends: main returns, exit(1) is called, or a null pointer is used. -/
inductive Exit
  | returned
  | exited
  | crashed
deriving DecidableEq

structure State where
  parties : Thread → Party
  shared : Shared
  exit : Option Exit

namespace State

def set (s : State) (thread : Thread) (p : Party) (left : List Action) : State :=
  { s with parties := Function.update s.parties thread { p with left := left } }

def end_ (s : State) (exit : Exit) : State := { s with exit := some exit }

/-- Where a thread of the running process stands. -/
structure At (s : State) (thread : Thread) (action : Action) (rest : List Action) : Prop where
  running : s.exit = none
  left : (s.parties thread).left = action :: rest

end State

def PASV : Exchange := ⟨cBufferSize - 128, [text "227"]⟩

def portCommand (port : List Octet) : List Octet := text "PORT " ++ port ++ [LF]

/-- What a thread does to itself, the pipes and the data connection, as far as nothing fails. -/
inductive Does (c : Config) : Sync → Party × Shared → Party × Shared → Prop
  | putTarget {p : Party} {sh : Shared} :
    Does c .putTarget (p, sh) (p, { sh with hTargetAddr := sh.hTargetAddr ++ c.targetAddr.bytes })
  | listen {p : Party} {sh : Shared} {a : SockAddr} {behind : List Octet}
    (told : sh.hTargetAddr = a.sin_addr.bytes ++ behind) :
    Does c .listen (p, sh) ({ p with cBuffer := sprintf p.cBuffer (a.render ++ [LF]) },
      { sh with
        hTargetAddr := behind
        hSourcePort := sh.hSourcePort ++ (a.render ++ [LF])
        port := some a.render
        listener := some a })
  /-- The buffer is left as strtok and strcat leave it. -/
  | givePort {p : Party} {sh : Shared} {port : List Octet} (marked : Buffer)
    (accepted : PASV.accepts (p.receive PASV).cBuffer = true)
    (found : szPortStr (p.receive PASV).string = some port) :
    Does c .givePort (p, sh) ({ p.hear PASV with cBuffer := marked },
      { sh with hSourcePort := sh.hSourcePort ++ (port ++ [LF]), port := some port })
  | relayPort {p : Party} {sh : Shared} (whole : LF ∈ sh.hSourcePort)
    (some_ : (p.line sh.hSourcePort).dwLen ≠ 0) :
    Does c .relayPort (p, sh)
      ((p.takeLine sh.hSourcePort).say (portCommand (p.takeLine sh.hSourcePort).string),
        { sh with hSourcePort := (p.line sh.hSourcePort).stream })
  /-- A connection to a local sender is one to its listener. -/
  | connectPort {p : Party} {sh : Shared} (whole : LF ∈ sh.hSourcePort)
    (some_ : (p.line sh.hSourcePort).dwLen ≠ 0)
    (reaches : c.isServer .PasvThread = false →
      ∃ a, sh.listener = some a ∧ sscanf (p.takeLine sh.hSourcePort).string = some a) :
    Does c .connectPort (p, sh) (p.takeLine sh.hSourcePort,
      { sh with hSourcePort := (p.line sh.hSourcePort).stream, connected := true })
  | accept {p : Party} {sh : Shared} (connected : sh.connected = true) :
    Does c .accept (p, sh) (p, sh)
  | upload {p : Party} {sh : Shared} (all : sh.unread = []) :
    Does c .upload (p, sh) (p, { sh with closed := true })
  | download {p : Party} {sh : Shared} (all : sh.data = []) (closed : sh.closed = true) :
    Does c .download (p, sh) (p, sh)

/-- What moves on the data connection: a piece that a loop of the program has read, or a server's
    part. -/
inductive Moves (c : Config) (s : State) : Shared → Prop
  | uploads {rest : List Action} {piece behind : List Octet}
    (at_ : s.At .PasvThread (.sync .upload) rest) (read : s.shared.unread = piece ++ behind)
    (some_ : piece ≠ []) (fits : piece.length ≤ cBufferSize) :
    Moves c s { s.shared with
      unread := behind
      uploaded := s.shared.uploaded ++ piece
      data := s.shared.data ++ piece }
  | downloads {rest : List Action} {piece behind : List Octet}
    (at_ : s.At .PortThread (.sync .download) rest) (read : s.shared.data = piece ++ behind)
    (some_ : piece ≠ []) (fits : piece.length ≤ cBufferSize) :
    Moves c s { s.shared with data := behind, output := s.shared.output ++ piece }
  | serverConnects (server : c.isServer .PortThread = true) (listening : s.shared.listener ≠ none) :
    Moves c s { s.shared with connected := true }
  | serverStores {piece behind : List Octet} (server : c.isServer .PortThread = true)
    (read : s.shared.data = piece ++ behind) (some_ : piece ≠ []) :
    Moves c s { s.shared with data := behind, output := s.shared.output ++ piece }
  | serverSends {piece : List Octet} (server : c.isServer .PasvThread = true)
    (receiver : c.isServer .PortThread = false) (connected : s.shared.connected = true)
    (open_ : s.shared.closed = false) (some_ : piece ≠ []) :
    Moves c s { s.shared with
      uploaded := s.shared.uploaded ++ piece
      data := s.shared.data ++ piece }
  | serverCloses (server : c.isServer .PasvThread = true) (receiver : c.isServer .PortThread = false)
    (connected : s.shared.connected = true) (open_ : s.shared.closed = false) :
    Moves c s { s.shared with closed := true }

/-- What exit(1) follows on. -/
inductive Fails (s : State) : Prop
  | call {thread : Thread} {szPath : Option (List Octet)} {rest : List Action}
    (at_ : s.At thread (.openFile szPath) rest)
  | send {thread : Thread} {strings : List (Option (List Octet))} {rest : List Action}
    (at_ : s.At thread (.send strings) rest)
  | reply {thread : Thread} {e : Exchange} {rest : List Action} (at_ : s.At thread (.reply e) rest)
    (rejected : e.accepts ((s.parties thread).receive e).cBuffer = false)
  | sync {thread : Thread} {point : Sync} {rest : List Action} (at_ : s.At thread (.sync point) rest)

inductive Step (c : Config) : State → State → Prop
  | openFile {s : State} {thread : Thread} {szPath : List Octet} {rest : List Action}
    (at_ : s.At thread (.openFile (some szPath)) rest) :
    Step c s (s.set thread (s.parties thread) rest)
  | openNull {s : State} {thread : Thread} {rest : List Action}
    (at_ : s.At thread (.openFile none) rest) : Step c s (s.end_ .crashed)
  | send {s : State} {thread : Thread} {strings : List (Option (List Octet))} {rest : List Action}
    (at_ : s.At thread (.send strings) rest) (whole : none ∉ strings) :
    Step c s (s.set thread ((s.parties thread).say (strings.reduceOption.flatten)) rest)
  | sendNull {s : State} {thread : Thread} {strings : List (Option (List Octet))} {rest : List Action}
    (at_ : s.At thread (.send strings) rest) (null : none ∈ strings) : Step c s (s.end_ .crashed)
  | reply {s : State} {thread : Thread} {e : Exchange} {rest : List Action}
    (at_ : s.At thread (.reply e) rest)
    (accepted : e.accepts ((s.parties thread).receive e).cBuffer = true) :
    Step c s (s.set thread ((s.parties thread).hear e) rest)
  | quit {s : State} {thread : Thread} {rest : List Action} (at_ : s.At thread .quit rest) :
    Step c s (s.set thread
      (((s.parties thread).say (text "QUIT" ++ [LF])).receive ⟨cBufferSize, []⟩) rest)
  | quitFails {s : State} {thread : Thread} {rest : List Action} (at_ : s.At thread .quit rest) :
    Step c s (s.set thread ((s.parties thread).say (text "QUIT" ++ [LF])) rest)
  | sync {s : State} {thread : Thread} {point : Sync} {rest : List Action} {p : Party} {sh : Shared}
    (at_ : s.At thread (.sync point) rest) (does : Does c point (s.parties thread, s.shared) (p, sh)) :
    Step c s { s.set thread p rest with shared := sh }
  | moves {s : State} {sh : Shared} (running : s.exit = none) (moves : Moves c s sh) :
    Step c s { s with shared := sh }
  | fails {s : State} (fails : Fails s) : Step c s (s.end_ .exited)
  /-- Behind PortThread main waits for the other thread. -/
  | returns {s : State} (running : s.exit = none) (all : ∀ thread, (s.parties thread).left = []) :
    Step c s (s.end_ .returned)

def Config.start (c : Config) : State where
  parties thread := ⟨c.actions thread, c.cBuffer thread, c.stream thread, [], []⟩
  shared := ⟨[], [], none, none, false, c.input, [], [], false, []⟩
  exit := none

def program (c : Config) : TransitionSystem State where
  start s := s = c.start
  step := Step c

end Ftpcp
