import LtrData.Popdump.Lines

namespace Popdump

open Octet

/-- The last complete line that has been received is a single dot, and is not the first one. -/
def EndsWithDot (received : List Octet) : Prop :=
  ∃ front, front.getLast? = some LF ∧
    (received = front ++ [DOT, CR, LF] ∨ received = front ++ [DOT, LF])

/-- All of the message has been received, and all that was passed to write has been written. -/
def SavedWhole (s : Session) : Prop := EndsWithDot s.received ∧ s.lost = false

/-- What is taken for the end of the message is a line of its own, and write writes all it is passed
    or returns 0. -/
def Sound (s s' : Session) : Prop :=
  (s.point = .recv → (LineRecv s.stream s.cBuff (MAX_LINE - 3)).pBuf 0 = DOT →
    (LineRecv s.stream s.cBuff (MAX_LINE - 3)).pBuf 1 = NUL →
    s.received.getLast? = some LF ∧
      ∃ later, s.stream = DOT :: CR :: LF :: later ∨ s.stream = DOT :: LF :: later) ∧
  ∀ dwLineLength, s.point = .write dwLineLength →
    s' = s.write dwLineLength (dwLineLength + 2 : Nat) ∨ s' = s.write dwLineLength 0

/-- While a message is received, all of it is in the file; when it is to be deleted, it is whole. -/
def Safe (s : Session) : Prop :=
  match s.point with
  | .recv | .write _ => s.lost = false
  | .dele => SavedWhole s
  | _ => True

section steps

variable {c : Config} {s s' : Session}

theorem lineRecv_dotLf (later : List Octet) (pBuf : Buffer) :
    (LineRecv (DOT :: LF :: later) pBuf (MAX_LINE - 3)).stream = later := by
  have notCr : DOT ≠ CR := by decide
  have notLf : DOT ≠ LF := by decide
  have apart : LF ≠ CR := by decide
  have room : 0 < MAX_LINE - 3 - 2 := by decide
  have more : 0 + 1 < MAX_LINE - 3 - 2 := by decide
  simp only [LineRecv, recvLine, if_pos room, if_neg notCr, if_neg notLf, if_pos more, if_neg apart,
    if_true]

theorem lineRecv_dotCrLf (later : List Octet) (pBuf : Buffer) :
    (LineRecv (DOT :: CR :: LF :: later) pBuf (MAX_LINE - 3)).stream = later := by
  have noCr : CR ∉ [DOT] := by decide
  have noLf : LF ∉ [DOT] := by decide
  have line := lineRecv_line later pBuf noCr noLf (by decide)
  exact congrArg Received.stream line

theorem recv_received : s.recv.received = s.received ++
    s.stream.take (s.stream.length -
      (LineRecv s.stream s.cBuff (MAX_LINE - 3)).stream.length) := by
  unfold Session.recv
  dsimp only
  split <;> rfl

theorem recv_lost : s.recv.lost = s.lost := by
  unfold Session.recv
  dsimp only
  split <;> rfl

theorem retrReply_point (s : Session) :
    s.retrReply.point = .openFile ∨ s.retrReply.point = .quit := by
  unfold Session.retrReply
  dsimp only
  split
  · exact .inl rfl
  · exact .inr rfl

theorem safe_recv (kept : s.lost = false) (point : s.point = .recv) (sound : Sound s s.recv) :
    Safe s.recv := by
  by_cases taken : (LineRecv s.stream s.cBuff (MAX_LINE - 3)).pBuf 0 = DOT ∧
      (LineRecv s.stream s.cBuff (MAX_LINE - 3)).pBuf 1 = NUL
  · have dele : s.recv.point = .dele := congrArg Session.point (if_pos taken)
    obtain ⟨line, later, stream⟩ := sound.1 point taken.1 taken.2
    rw [Safe, dele]
    refine ⟨⟨s.received, line, ?_⟩, recv_lost.trans kept⟩
    rw [recv_received]
    rcases stream with stream | stream
    · left
      rw [stream, lineRecv_dotCrLf]
      simp only [List.length_cons, Nat.add_sub_cancel_left, Nat.add_assoc]
      rfl
    · right
      rw [stream, lineRecv_dotLf]
      simp only [List.length_cons, Nat.add_sub_cancel_left, Nat.add_assoc]
      rfl
  · have write : s.recv.point = .write (LineRecv s.stream s.cBuff (MAX_LINE - 3)).dwLen :=
      congrArg Session.point (if_neg taken)
    rw [Safe, write]
    exact recv_lost.trans kept

theorem safe_step (safe : Safe s) (step : Step c s s') (sound : Sound s s') : Safe s' := by
  cases step with
  | sendRetr _ =>
    unfold Session.sendRetr
    split <;> trivial
  | retrReply _ =>
    rcases retrReply_point s with point | point
    · rw [Safe, point]
      trivial
    · rw [Safe, point]
      trivial
  | openFile _ opens => cases opens <;> trivial
  | recv point =>
    rw [Safe, point] at safe
    exact safe_recv safe point sound
  | @write dwLineLength point result _ _ =>
    rw [Safe, point] at safe
    rcases sound.2 _ point with all | none
    · have full := write_full s dwLineLength
      rw [all, Safe, full.1]
      exact full.2.trans safe
    · rw [none]
      trivial
  | sendDele _ => trivial
  | deleReply _ =>
    unfold Session.deleReply
    dsimp only
    split <;> trivial

end steps

def oneLine : List Octet := [43, CR, LF, 97, CR, LF, DOT, CR, LF]

def arguments : Config := ⟨[], [], 1⟩

def ReceivesNothing : Point → Prop
  | .recv | .write _ => False
  | _ => True

theorem sound_elsewhere {s s' : Session} (point : Point) (here : s.point = point)
    (elsewhere : ReceivesNothing point) : Sound s s' := by
  subst here
  constructor
  · intro recv
    rw [recv] at elsewhere
    exact elsewhere.elim
  · intro dwLineLength write
    rw [write] at elsewhere
    exact elsewhere.elim

theorem sound_recv {s s' : Session} (here : s.point = .recv)
    (line : (LineRecv s.stream s.cBuff (MAX_LINE - 3)).pBuf 0 = DOT →
      s.received.getLast? = some LF ∧ s.stream = [DOT, CR, LF]) : Sound s s' := by
  constructor
  · intro _ first _
    exact ⟨(line first).1, [], .inl (line first).2⟩
  · intro dwLineLength write
    rw [here] at write
    cases write

theorem sound_write {s : Session} {dwLineLength : Nat} (here : s.point = .write dwLineLength) :
    Sound s (s.write dwLineLength (dwLineLength + 2 : Nat)) := by
  constructor
  · intro recv
    rw [here] at recv
    cases recv
  · intro length write
    rw [here] at write
    cases write
    exact .inl rfl

end Popdump
