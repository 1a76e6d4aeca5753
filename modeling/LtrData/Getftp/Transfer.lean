import LtrData.Library.CrlfLines
import Mathlib.Data.Nat.Find

namespace Getftp

open Octet

def RECV_READY : BitVec 32 := 1
def SEND_READY : BitVec 32 := 2
def ERR_SOCKET : BitVec 32 := 4

/-- What select says of a socket. -/
structure Select where
  recv : Bool
  send : Bool
  error : Bool

def waituntilready (s : Select) (events : BitVec 32) : BitVec 32 :=
  let events := if s.recv then events else events &&& ~~~RECV_READY
  let events := if s.send then events else events &&& ~~~SEND_READY
  if s.error then events else events &&& ~~~ERR_SOCKET

/-- What one recv takes of a connection that is ready. -/
structure Segment where
  bytes : List Octet
  nonempty : bytes ≠ []
  fits : bytes.length ≤ 1023

def recv : Option Segment → List Octet
  | none => []
  | some segment => segment.bytes

/-- What comes on the data connection without a pause of a second, whether the end of the connection
    has come by then, and what has come on the control connection when it is asked next. -/
structure Round where
  segments : List Segment
  closed : Bool
  control : Option Segment

/-- What main meets from the reply to RETR on: what has come of it within 30 seconds, the rounds of
    its loop, how much each write writes at most unless it fails, and whether close succeeds. -/
structure Surroundings where
  first : Option Segment
  rounds : Nat → Round
  writes : Nat → Option Nat
  closes : Bool

/-- The local file, and how often it has been written to. -/
structure OutputFile where
  bytes : List Octet
  writes : Nat

def write (e : Surroundings) (fileno : OutputFile) (buf : List Octet) : OutputFile where
  bytes := fileno.bytes ++ buf.take ((e.writes fileno.writes).getD 0)
  writes := fileno.writes + 1

def ready (came : Bool) : Select := ⟨came, true, false⟩

/-- The loop behind moretoget, and what it leaves in readyflag. -/
def receiveLoop (e : Surroundings) (closed : Bool) :
    List Segment → OutputFile → OutputFile × BitVec 32
  | [], fileno =>
    let readyflag := waituntilready (ready closed) (RECV_READY ||| ERR_SOCKET)
    -- At the end of the connection recv gives no bytes.
    if readyflag &&& RECV_READY ≠ 0 then (fileno, readyflag &&& ~~~RECV_READY)
    else (fileno, readyflag)
  | segment :: segments, fileno =>
    let readyflag := waituntilready (ready true) (RECV_READY ||| ERR_SOCKET)
    if readyflag &&& RECV_READY ≠ 0 then
      receiveLoop e closed segments (write e fileno segment.bytes)
    else (fileno, readyflag)

/-- What main returns, and the local file unless it has been deleted. -/
structure Exit where
  retval : Int
  file : Option (List Octet)

def getout (e : Surroundings) (retval : Int) (fileno : OutputFile) : Exit :=
  let retval := if e.closes then retval else -1
  ⟨retval, if retval ≠ 0 then none else some fileno.bytes⟩

def code125 : List Octet := [0x31, 0x32, 0x35]
def code150 : List Octet := [0x31, 0x35, 0x30]
def code226 : List Octet := [0x32, 0x32, 0x36]

/-- The value of retval behind the last recv. -/
def transferResult (buf : List Octet) : Int :=
  if buf.length < 4 then -1 else if buf.take 3 ≠ code226 then -1 else 0

def moretoget (e : Surroundings) : Nat → Nat → OutputFile → Option Exit
  | 0, _, _ => none
  | fuel + 1, n, fileno =>
    let round := e.rounds n
    let (fileno, readyflag) := receiveLoop e round.closed round.segments fileno
    if readyflag ≠ 0 then some (getout e (-1) fileno)
    else if waituntilready (ready round.control.isSome) (RECV_READY ||| ERR_SOCKET) = 0 then
      moretoget e fuel (n + 1) fileno
    else some (getout e (transferResult (recv round.control)) fileno)

/-- The part of main behind RETR. -/
def retr (e : Surroundings) (fuel : Nat) : Option Exit :=
  let fileno : OutputFile := ⟨[], 0⟩
  if ~~~waituntilready (ready e.first.isSome) RECV_READY &&& RECV_READY ≠ 0 then
    some (getout e (-1) fileno)
  else
    let buf := recv e.first
    if buf.length < 4 then some (getout e (-1) fileno)
    else if buf.take 3 ≠ code125 ∧ buf.take 3 ≠ code150 then some (getout e (-1) fileno)
    else moretoget e fuel 0 fileno

/-- What the server sends: the reply to RETR, the file and the final reply. -/
structure Server where
  reply : List Octet
  data : List Octet
  final : List Octet
  starts : 4 ≤ reply.length ∧ (reply.take 3 = code125 ∨ reply.take 3 = code150)

/-- Every one of these writes, the first of which is the `i`-th one, writes all it is given. -/
def WritesWhole (writes : Nat → Option Nat) (i : Nat) (bufs : List (List Octet)) : Prop :=
  ∀ j buf, bufs[j]? = some buf → buf.length ≤ (writes (i + j)).getD 0

namespace Surroundings

variable (e : Surroundings)

def segments (n : Nat) : List Segment := (List.range n).flatMap fun i => (e.rounds i).segments

def received (n : Nat) : List Octet := ((e.segments n).map Segment.bytes).flatten

def replies (n : Nat) : List Octet :=
  (List.range n).flatMap fun i => recv (e.rounds i).control

/-- Both connections bring what the server sends, in any pieces and at any times, but all of it some
    time, and the end of the data connection behind the file. -/
structure Brings (server : Server) : Prop where
  data : ∀ n, e.received n <+: server.data
  closes : ∃ n, ∀ m, (e.rounds m).closed = true ↔ n ≤ m
  closed : ∀ n, (e.rounds n).closed = true → e.received (n + 1) = server.data
  control : ∀ n, recv e.first ++ e.replies n <+: server.reply ++ server.final
  answers : ∃ n, recv e.first ++ e.replies n = server.reply ++ server.final

/-- The round behind which something more is found on the control connection. -/
def Answered (n : Nat) (segment : Segment) : Prop :=
  (e.rounds n).control = some segment ∧ ∀ m < n, (e.rounds m).control = none

end Surroundings

/-- What main returns is right for this file. -/
def Exit.Right (exit : Exit) (data : List Octet) : Prop :=
  (exit.retval = 0 → exit.file = some data) ∧ (exit.retval ≠ 0 → exit.file = none)

theorem receiveLoop_run (e : Surroundings) (closed : Bool) (segments : List Segment)
    (fileno : OutputFile) :
    receiveLoop e closed segments fileno =
      ((segments.map Segment.bytes).foldl (write e) fileno, 0) := by
  induction segments generalizing fileno with
  | nil => cases closed <;> rfl
  | cons segment segments ih =>
    unfold receiveLoop
    rw [if_pos (by decide), ih]
    rfl

def written (writes : Nat → Option Nat) : Nat → List (List Octet) → List Octet
  | _, [] => []
  | i, buf :: bufs => buf.take ((writes i).getD 0) ++ written writes (i + 1) bufs

theorem foldl_write (e : Surroundings) (bufs : List (List Octet)) (fileno : OutputFile) :
    bufs.foldl (write e) fileno =
      ⟨fileno.bytes ++ written e.writes fileno.writes bufs, fileno.writes + bufs.length⟩ := by
  induction bufs generalizing fileno with
  | nil => simp [written]
  | cons buf bufs ih =>
    rw [List.foldl_cons, ih, written, List.length_cons, Nat.add_comm bufs.length]
    simp [write, Nat.add_assoc]

section written

variable {writes : Nat → Option Nat} {i : Nat} {buf : List Octet} {bufs : List (List Octet)}

theorem length_written : (written writes i bufs).length ≤ bufs.flatten.length := by
  induction bufs generalizing i with
  | nil => exact Nat.le_refl _
  | cons buf bufs ih =>
    have rest := ih (i := i + 1)
    simp only [written, List.length_append, List.length_take, List.flatten_cons]
    omega

theorem writesWhole_cons : WritesWhole writes i (buf :: bufs) ↔
    buf.length ≤ (writes i).getD 0 ∧ WritesWhole writes (i + 1) bufs := by
  constructor
  · intro whole
    refine ⟨whole 0 buf rfl, fun j other at_ => ?_⟩
    have later := whole (j + 1) other at_
    rwa [← Nat.add_assoc, Nat.add_right_comm] at later
  · rintro ⟨first, whole⟩ j other at_
    cases j with
    | zero =>
      obtain rfl : buf = other := Option.some.inj at_
      exact first
    | succ j =>
      have later := whole j other at_
      rwa [Nat.add_right_comm, Nat.add_assoc] at later

theorem written_of_whole (whole : WritesWhole writes i bufs) :
    written writes i bufs = bufs.flatten := by
  induction bufs generalizing i with
  | nil => rfl
  | cons buf bufs ih =>
    obtain ⟨first, rest⟩ := writesWhole_cons.mp whole
    rw [written, List.take_of_length_le first, ih rest, List.flatten_cons]

theorem writesWhole_of_length (same : (written writes i bufs).length = bufs.flatten.length) :
    WritesWhole writes i bufs := by
  induction bufs generalizing i with
  | nil => exact fun j buf at_ => by cases at_
  | cons buf bufs ih =>
    have rest : (written writes (i + 1) bufs).length ≤ bufs.flatten.length := length_written
    simp only [written, List.length_append, List.length_take, List.flatten_cons] at same
    exact writesWhole_cons.mpr ⟨by omega, ih (by omega)⟩

/-- A file is complete exactly if all of it has been received and written. -/
theorem written_eq_iff {data : List Octet} (within : bufs.flatten <+: data) :
    written writes i bufs = data ↔ bufs.flatten = data ∧ WritesWhole writes i bufs := by
  constructor
  · rintro rfl
    have fewer : (written writes i bufs).length ≤ bufs.flatten.length := length_written
    have same := within.length_le
    exact ⟨within.eq_of_length (by omega), writesWhole_of_length (by omega)⟩
  · intro facts
    rcases facts with ⟨rfl, whole⟩
    exact written_of_whole whole

end written

namespace Surroundings

variable (e : Surroundings)

def fileAfter (n : Nat) : OutputFile := ((e.segments n).map Segment.bytes).foldl (write e) ⟨[], 0⟩

theorem fileAfter_bytes (n : Nat) :
    (e.fileAfter n).bytes = written e.writes 0 ((e.segments n).map Segment.bytes) := by
  rw [fileAfter, foldl_write, List.nil_append]

theorem receiveLoop_round (n : Nat) :
    receiveLoop e (e.rounds n).closed (e.rounds n).segments (e.fileAfter n) =
      (e.fileAfter (n + 1), 0) := by
  rw [receiveLoop_run, fileAfter, fileAfter, segments, segments, List.range_succ,
    List.flatMap_append, List.map_append, List.foldl_append, List.flatMap_singleton]

variable {e}

theorem moretoget_unanswered {n : Nat} (none_ : (e.rounds n).control = none) (fuel : Nat) :
    moretoget e (fuel + 1) n (e.fileAfter n) = moretoget e fuel (n + 1) (e.fileAfter (n + 1)) := by
  rw [moretoget, receiveLoop_round, none_]
  rfl

theorem moretoget_answered {n : Nat} {segment : Segment} (some_ : (e.rounds n).control = some segment)
    (fuel : Nat) : moretoget e (fuel + 1) n (e.fileAfter n) =
      some (getout e (transferResult segment.bytes) (e.fileAfter (n + 1))) := by
  rw [moretoget, receiveLoop_round, some_]
  dsimp only
  rw [if_neg (by decide), Option.isSome_some, if_neg (by decide)]
  rfl

theorem Answered.moretoget {n : Nat} {segment : Segment} (answered : e.Answered n segment)
    (fuel : Nat) {k : Nat} (before : k ≤ n) : moretoget e fuel k (e.fileAfter k) =
      if n < k + fuel then some (getout e (transferResult segment.bytes) (e.fileAfter (n + 1)))
      else none := by
  induction fuel generalizing k with
  | zero =>
    rw [if_neg (by omega)]
    rfl
  | succ fuel ih =>
    by_cases here : k = n
    · subst here
      rw [moretoget_answered answered.1, if_pos (by omega)]
    · rw [moretoget_unanswered (answered.2 k (by omega)), ih (by omega), Nat.add_right_comm,
        Nat.add_assoc]

theorem moretoget_never (never : ∀ n, (e.rounds n).control = none) (fuel k : Nat) :
    moretoget e fuel k (e.fileAfter k) = none := by
  induction fuel generalizing k with
  | zero => rfl
  | succ fuel ih => rw [moretoget_unanswered (never k), ih]

/-- The first recv gives the code of the reply. -/
def Accepted (e : Surroundings) : Prop := 4 ≤ (recv e.first).length

theorem Brings.retr_accepted {server : Server} (brings : e.Brings server) (accepted : e.Accepted)
    (fuel : Nat) : retr e fuel = moretoget e fuel 0 (e.fileAfter 0) := by
  have within : recv e.first <+: server.reply ++ server.final := by
    simpa [replies] using brings.control 0
  have code : (recv e.first).take 3 = server.reply.take 3 := by
    obtain ⟨rest, whole⟩ := within
    unfold Accepted at accepted
    have same := congrArg (List.take 3) whole
    have long := server.starts.1
    rwa [List.take_append_of_le_length (by omega), List.take_append_of_le_length (by omega)] at same
  have came : e.first.isSome = true := by
    unfold Accepted at accepted
    cases first : e.first with
    | none => simp [first, recv] at accepted
    | some segment => rfl
  unfold retr
  rw [came, if_neg (by decide)]
  dsimp only
  rw [code, if_neg (Nat.not_lt.mpr accepted), if_neg]
  · rfl
  · rcases server.starts.2 with start | start <;> simp [start]

theorem retr_rejected (rejected : ¬ e.Accepted) (fuel : Nat) :
    retr e fuel = some (getout e (-1) ⟨[], 0⟩) := by
  unfold Accepted at rejected
  unfold retr
  dsimp only
  split
  · rfl
  · rw [if_pos (by omega)]

end Surroundings

theorem getout_right {e : Surroundings} {retval : Int} {fileno : OutputFile} {data : List Octet} :
    (getout e retval fileno).Right data ↔
      (retval = 0 → e.closes = true → fileno.bytes = data) := by
  unfold Exit.Right getout
  cases e.closes with
  | false => simp
  | true =>
    by_cases zero : retval = 0 <;> simp [zero]

theorem transferResult_eq (buf : List Octet) :
    transferResult buf = 0 ↔ 4 ≤ buf.length ∧ buf.take 3 = code226 := by
  unfold transferResult
  split
  · simp
    omega
  · split
    · next other => simp [other]
    · next same => simp [not_not.mp same]; omega

/-- What is found first on the control connection behind the reply reports the end of the transfer. -/
def Segment.Reports (segment : Segment) : Prop := 4 ≤ segment.bytes.length ∧ segment.bytes.take 3 = code226

variable {e : Surroundings} {server : Server}

namespace Surroundings

theorem replies_eq_nil {n : Nat} : e.replies n = [] ↔ ∀ m < n, (e.rounds m).control = none := by
  have empty (control : Option Segment) : recv control = [] ↔ control = none := by
    cases control with
    | none => simp [recv]
    | some segment => simp [recv, segment.nonempty]
  simp [replies, empty]

theorem Brings.answered (brings : e.Brings server) (more : recv e.first ≠ server.reply ++ server.final) :
    ∃ n segment, e.Answered n segment := by
  classical
  obtain ⟨last, all⟩ := brings.answers
  have some_ : ∃ n, (e.rounds n).control ≠ none := by
    by_contra never
    rw [replies_eq_nil.mpr fun m _ => not_not.mp (not_exists.mp never m), List.append_nil] at all
    exact more all
  have found := Nat.find_spec some_
  obtain ⟨segment, answer⟩ := Option.ne_none_iff_exists'.mp found
  exact ⟨Nat.find some_, segment, answer, fun m before => not_not.mp (Nat.find_min some_ before)⟩

theorem Answered.unique {n m : Nat} {segment other : Segment} (answered : e.Answered n segment)
    (again : e.Answered m other) : m = n ∧ other = segment := by
  obtain ⟨answer, before⟩ := answered
  obtain ⟨answer', before'⟩ := again
  have same : m = n := by
    rcases Nat.lt_trichotomy m n with earlier | same | later
    · rw [before m earlier] at answer'
      cases answer'
    · exact same
    · rw [before' n later] at answer
      cases answer
  subst same
  exact ⟨rfl, Option.some.inj (answer'.symm.trans answer)⟩

theorem Brings.never (brings : e.Brings server) (all : recv e.first = server.reply ++ server.final)
    (n : Nat) : (e.rounds n).control = none := by
  have within := brings.control (n + 1)
  rw [all] at within
  have nothing : e.replies (n + 1) = [] := by
    have length := within.length_le
    rw [List.length_append] at length
    exact List.length_eq_zero_iff.mp (by omega)
  exact replies_eq_nil.mp nothing n (Nat.lt_succ_self n)

def sampleSegment (byte : Octet) : Segment := ⟨[byte], List.cons_ne_nil _ _, by simp⟩

/-- A file of two bytes that come in one round or in two, with the final reply behind the first. -/
def sample (oneRound : Bool) : Surroundings where
  first := some ⟨[0x31, 0x35, 0x30, 0x20], by decide, by decide⟩
  rounds
    | 0 => ⟨if oneRound then [sampleSegment 1, sampleSegment 2] else [sampleSegment 1], oneRound,
        some ⟨[0x32, 0x32, 0x36, 0x20], by decide, by decide⟩⟩
    | 1 => ⟨if oneRound then [] else [sampleSegment 2], true, none⟩
    | _ => ⟨[], true, none⟩
  writes _ := some 1023
  closes := true

def sampleServer : Server where
  reply := [0x31, 0x35, 0x30, 0x20]
  data := [1, 2]
  final := [0x32, 0x32, 0x36, 0x20]
  starts := by decide

theorem sample_segments (oneRound : Bool) (n : Nat) :
    (sample oneRound).segments (n + 2) = [sampleSegment 1, sampleSegment 2] := by
  induction n with
  | zero => cases oneRound <;> rfl
  | succ n ih =>
    rw [segments, List.range_succ, List.flatMap_append, ← segments, ih]
    rfl

theorem sample_replies (oneRound : Bool) (n : Nat) :
    (sample oneRound).replies (n + 1) = [0x32, 0x32, 0x36, 0x20] := by
  induction n with
  | zero => rfl
  | succ n ih =>
    rw [replies, List.range_succ, List.flatMap_append, ← replies, ih]
    cases n <;> rfl

theorem sample_brings (oneRound : Bool) : (sample oneRound).Brings sampleServer where
  data
    | 0 => List.nil_prefix
    | 1 => by cases oneRound <;> decide
    | n + 2 => by rw [received, sample_segments]; exact List.prefix_refl _
  closes := by
    cases oneRound with
    | false => exact ⟨1, fun
        | 0 => by decide
        | 1 => by decide
        | n + 2 => by simp [sample]⟩
    | true => exact ⟨0, fun
        | 0 => by decide
        | 1 => by decide
        | n + 2 => by simp [sample]⟩
  closed
    | 0 => by cases oneRound <;> decide
    | n + 1 => fun _ => by rw [received, sample_segments]; rfl
  control
    | 0 => List.prefix_append _ _
    | n + 1 => by rw [sample_replies]; exact List.prefix_refl _
  answers := ⟨1, rfl⟩

end Surroundings

end Getftp
