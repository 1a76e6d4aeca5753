import LtrData.Popdump.Deletion
import LtrData.Popdump.Pieces
import LtrData.Popdump.SavedMail

namespace Popdump

open Octet

def Point.receives : Point → Bool
  | .recv | .write _ => true
  | _ => false

/-- A step of the loop that receives one message. -/
def ReceiveStep (c : Config) (s s' : Session) : Prop := s.point.receives = true ∧ Step c s s'

/-- The loop is left after finitely many steps, whatever write returns. -/
def Ends (c : Config) (s : Session) : Prop := Acc (fun after before => ReceiveStep c before after) s

/-- A dot with nothing or a NUL behind it stands where LineRecv starts, which it does at the start of
    a line and each time it has taken as many characters as it can. -/
def TakenLine (line : List Octet) : Prop := ∃ k, beforeNul (line.drop (k * lineLimit)) = [DOT]

/-- Some line of the text is taken for the end of the message, also the one behind the last LF. -/
def TakenText (text : List Octet) : Prop := ∃ line ∈ text.splitOn LF, TakenLine line

def HasEnd (stream : List Octet) : Prop := TakenText (stream.filter (· ≠ CR))

section lines

variable {line piece rest text : List Octet}

theorem beforeNul_dot {c d : Octet} : beforeNul (c :: d :: rest) = [DOT] ↔ c = DOT ∧ d = NUL := by
  unfold beforeNul
  constructor
  · intro dot
    by_cases first : c = NUL
    · rw [List.takeWhile_cons_of_neg (by simpa using first)] at dot
      cases dot
    rw [List.takeWhile_cons_of_pos (by simpa using first)] at dot
    refine ⟨(List.cons.inj dot).1, ?_⟩
    by_contra second
    rw [List.takeWhile_cons_of_pos (by simpa using second)] at dot
    cases (List.cons.inj dot).2
  · intro both
    obtain ⟨rfl, rfl⟩ := both
    rw [List.takeWhile_cons_of_pos (by decide), List.takeWhile_cons_of_neg (by decide)]

theorem takenForEnd_sprintf (stream : List Octet) (cBuff : Buffer) (piece : List Octet) (n : Nat) :
    TakenForEnd ⟨stream, sprintf cBuff piece, n⟩ ↔ beforeNul piece = [DOT] := by
  match piece with
  | [] =>
    constructor
    · intro taken
      exact absurd (show NUL = DOT from taken.1) (by decide)
    · intro dot
      cases dot
  | [c] =>
    constructor
    · intro taken
      rw [show c = DOT from taken.1]
      rfl
    · intro dot
      have first : c = DOT := by
        by_cases nul : c = NUL
        · rw [nul] at dot
          cases dot
        · rw [beforeNul, List.takeWhile_cons_of_pos (by simpa using nul)] at dot
          exact (List.cons.inj dot).1
      exact ⟨first, rfl⟩
  | c :: d :: rest => exact beforeNul_dot.symm

theorem beforeNul_append_dot (two : 2 ≤ piece.length) :
    beforeNul (piece ++ rest) = [DOT] ↔ beforeNul piece = [DOT] := by
  match piece with
  | [] => simp at two
  | [_] => simp at two
  | c :: d :: piece =>
    rw [List.cons_append, List.cons_append, beforeNul_dot, beforeNul_dot]

theorem takenLine_short (short : line.length < lineLimit) :
    TakenLine line ↔ beforeNul line = [DOT] := by
  constructor
  · intro taken
    obtain ⟨k, dot⟩ := taken
    cases k with
    | zero =>
      rw [Nat.zero_mul, List.drop_zero] at dot
      exact dot
    | succ k =>
      have behind : line.length ≤ (k + 1) * lineLimit := by
        rw [Nat.succ_mul]
        omega
      rw [List.drop_of_length_le behind] at dot
      cases dot
  · intro dot
    exact ⟨0, by rw [Nat.zero_mul, List.drop_zero]; exact dot⟩

theorem takenLine_append (whole : piece.length = lineLimit) (rest : List Octet) :
    TakenLine (piece ++ rest) ↔ beforeNul piece = [DOT] ∨ TakenLine rest := by
  have two : 2 ≤ piece.length := by
    rw [whole]
    decide
  have next (k : Nat) : (piece ++ rest).drop ((k + 1) * lineLimit) = rest.drop (k * lineLimit) := by
    rw [Nat.succ_mul, Nat.add_comm, ← List.drop_drop, ← whole, List.drop_left]
  constructor
  · intro taken
    obtain ⟨k, dot⟩ := taken
    cases k with
    | zero =>
      rw [Nat.zero_mul, List.drop_zero, beforeNul_append_dot two] at dot
      exact .inl dot
    | succ k =>
      rw [next] at dot
      exact .inr ⟨k, dot⟩
  · intro taken
    rcases taken with dot | ⟨k, dot⟩
    · refine ⟨0, ?_⟩
      rw [Nat.zero_mul, List.drop_zero, beforeNul_append_dot two]
      exact dot
    · exact ⟨k + 1, by rw [next]; exact dot⟩

theorem splitOn_append (noLf : LF ∉ piece) (rest : List Octet) :
    (piece ++ rest).splitOn LF = (rest.splitOn LF).modifyHead (piece ++ ·) := by
  induction piece with
  | nil =>
    rw [List.nil_append]
    cases rest.splitOn LF <;> rfl
  | cons c piece ih =>
    rw [List.mem_cons, not_or] at noLf
    have other : (c == LF) = false := beq_eq_false_iff_ne.mpr fun same => noLf.1 same.symm
    rw [List.cons_append, List.splitOn_cons_eq_if_modifyHead, other, ih noLf.2]
    cases rest.splitOn LF <;> rfl

/-- The text is taken apart by LineRecv, piece after piece. -/
theorem takenText_cut (noLf : LF ∉ piece) (cut : LineCut lineLimit text piece rest) :
    TakenText text ↔ beforeNul piece = [DOT] ∨ TakenText rest := by
  unfold TakenText
  cases cut with
  | line short split =>
    rw [split, List.splitOn_append_cons_self_of_not_mem noLf, List.exists_mem_cons_iff,
      takenLine_short short]
  | closed short split last =>
    rw [split, last, List.splitOn_eq_singleton noLf, List.splitOn_nil, List.exists_mem_cons_iff,
      List.exists_mem_cons_iff, takenLine_short short,
      takenLine_short (show ([] : List Octet).length < lineLimit by decide)]
    have nothing : beforeNul [] ≠ [DOT] := by decide
    simp [nothing]
  | full whole split =>
    rw [split, splitOn_append noLf]
    cases first : rest.splitOn LF with
    | nil => exact absurd first (List.splitOn_ne_nil LF rest)
    | cons line lines =>
      rw [List.modifyHead_cons, List.exists_mem_cons_iff, List.exists_mem_cons_iff,
        takenLine_append whole, or_assoc]

theorem hasEnd_takeLine (stream : List Octet) : HasEnd stream ↔
    beforeNul (takeLine lineLimit stream).1 = [DOT] ∨ HasEnd (takeLine lineLimit stream).2 := by
  obtain ⟨noLf, cut⟩ := takeLine_cut lineLimit stream
  exact takenText_cut noLf cut

theorem not_hasEnd_nil : ¬ HasEnd [] := by
  intro hasEnd
  obtain ⟨line, mem, taken⟩ := hasEnd
  rw [List.filter_nil, List.splitOn_nil, List.mem_singleton] at mem
  rw [mem, takenLine_short (by decide)] at taken
  cases taken

end lines

section receives

variable {c : Config} {s s' : Session}

/-- The stream is left as LineRecv leaves it, and the piece decides where the loop goes. -/
theorem recv_piece (s : Session) : s.recv.stream = (takeLine lineLimit s.stream).2 ∧
    s.recv.point = if beforeNul (takeLine lineLimit s.stream).1 = [DOT] then .dele
      else .write (takeLine lineLimit s.stream).1.length := by
  have received : LineRecv s.stream s.cBuff (MAX_LINE - 3) =
      ⟨(takeLine lineLimit s.stream).2, sprintf s.cBuff (takeLine lineLimit s.stream).1,
        (takeLine lineLimit s.stream).1.length⟩ := lineRecv_takeLine s.stream s.cBuff (MAX_LINE - 3)
  have taken : sprintf s.cBuff (takeLine lineLimit s.stream).1 0 = DOT ∧
      sprintf s.cBuff (takeLine lineLimit s.stream).1 1 = NUL ↔
      beforeNul (takeLine lineLimit s.stream).1 = [DOT] :=
    takenForEnd_sprintf (takeLine lineLimit s.stream).2 s.cBuff _ 0
  unfold Session.recv Session.lineRecv
  rw [received]
  dsimp only
  by_cases dot : beforeNul (takeLine lineLimit s.stream).1 = [DOT]
  · rw [if_pos dot, if_pos (taken.mpr dot)]
    exact ⟨rfl, rfl⟩
  · rw [if_neg dot, if_neg fun end_ => dot (taken.mp end_)]
    exact ⟨rfl, rfl⟩

theorem ends_elsewhere (elsewhere : s.point.receives = false) : Ends c s := by
  constructor
  intro s' step
  rw [step.1] at elsewhere
  cases elsewhere

theorem write_stream (s : Session) (dwLineLength : Nat) (result : Int) :
    (s.write dwLineLength result).stream = s.stream ∧
      ((s.write dwLineLength result).point = .recv ∨
        (s.write dwLineLength result).point = .returned 1) := by
  unfold Session.write
  dsimp only
  refine ⟨rfl, ?_⟩
  split
  · exact .inr rfl
  · exact .inl rfl

theorem receiveStep_recv (point : s.point = .recv) (step : ReceiveStep c s s') : s' = s.recv := by
  obtain ⟨_, step⟩ := step
  cases step <;> simp_all

theorem receiveStep_write {dwLineLength : Nat} (point : s.point = .write dwLineLength)
    (step : ReceiveStep c s s') : ∃ result, s' = s.write dwLineLength result := by
  obtain ⟨_, step⟩ := step
  cases step with
  | write here result _ _ =>
    rw [point] at here
    cases here
    exact ⟨result, rfl⟩
  | _ => simp_all

/-- Every piece but the one taken for the end makes the stream shorter. -/
theorem ends_of_hasEnd (point : s.point = .recv) (hasEnd : HasEnd s.stream) : Ends c s := by
  generalize length : s.stream.length = n
  induction n using Nat.strongRecOn generalizing s with
  | ind n ih =>
    obtain ⟨rest, goes⟩ := recv_piece s
    constructor
    intro s' step
    obtain rfl := receiveStep_recv point step
    by_cases dot : beforeNul (takeLine lineLimit s.stream).1 = [DOT]
    · rw [if_pos dot] at goes
      exact ends_elsewhere (by rw [goes]; rfl)
    rw [if_neg dot] at goes
    have later : HasEnd (takeLine lineLimit s.stream).2 :=
      ((hasEnd_takeLine s.stream).mp hasEnd).resolve_left dot
    have some_ : s.stream ≠ [] := fun empty => not_hasEnd_nil (empty ▸ hasEnd)
    constructor
    intro s' step
    obtain ⟨result, rfl⟩ := receiveStep_write goes step
    obtain ⟨same, next⟩ := write_stream s.recv (takeLine lineLimit s.stream).1.length result
    rcases next with again | failed
    · have shorter := takeLine_shorter some_ (show 0 < lineLimit by decide)
      rw [rest] at same
      refine ih _ ?_ again (by rw [same]; exact later) rfl
      rw [same, ← length]
      exact shorter
    · exact ends_elsewhere (by rw [failed]; rfl)

/-- What still comes of the stream has no end, and the loop receives or writes. -/
def NoEnd (s : Session) : Prop := s.point.receives = true ∧ ¬ HasEnd s.stream

theorem noEnd_step (noEnd : NoEnd s) : ∃ s', ReceiveStep c s s' ∧ NoEnd s' := by
  obtain ⟨receives, noEnd⟩ := noEnd
  cases point : s.point with
  | recv =>
    obtain ⟨rest, goes⟩ := recv_piece s
    rw [hasEnd_takeLine, not_or] at noEnd
    rw [if_neg noEnd.1] at goes
    exact ⟨s.recv, ⟨receives, .recv point⟩, by rw [goes]; rfl, by rw [rest]; exact noEnd.2⟩
  | write dwLineLength =>
    have full := write_full s dwLineLength
    exact ⟨_, ⟨receives, .write point (dwLineLength + 2 : Nat) (by omega) (Int.le_refl _)⟩,
      by rw [full.1]; rfl, noEnd⟩
  | _ =>
    rw [point] at receives
    cases receives

theorem not_ends_of_noEnd (noEnd : NoEnd s) : ¬ Ends c s := by
  intro ends
  induction ends with
  | intro s _ ih =>
    obtain ⟨s', step, noEnd'⟩ := noEnd_step (c := c) noEnd
    exact ih s' step noEnd'

/-- The loop that receives a message ends if and only if what it takes for the end of a message is
    somewhere in the stream. -/
theorem ends_iff (c : Config) (dwMailCounter : Nat) (stream : List Octet) (cBuff : Buffer)
    (file received : List Octet) (lost : Bool) :
    Ends c ⟨.recv, dwMailCounter, stream, cBuff, file, received, lost⟩ ↔ HasEnd stream := by
  constructor
  · intro ends
    by_contra noEnd
    exact not_ends_of_noEnd (c := c) ⟨rfl, noEnd⟩ ends
  · intro hasEnd
    exact ends_of_hasEnd rfl hasEnd

end receives

/-- The connection is closed before anything comes. -/
theorem closed_forever : ¬ Ends arguments ⟨.recv, 1, [], fun _ => 0, [], [], false⟩ :=
  not_ends_of_noEnd ⟨rfl, not_hasEnd_nil⟩

end Popdump
