import LtrData.Popdump.Session
import Mathlib.Data.List.GetD
import Mathlib.Data.List.TakeWhile

namespace Popdump

open Octet

/-- The longest line, with its line end left out, that LineRecv takes in one piece. -/
def lineLimit : Nat := MAX_LINE - 3 - 2

section lineRecv

variable {limit len : Nat} {line rest : List Octet} {pBuf : Buffer}

def fill (pBuf : Buffer) (len : Nat) (line : List Octet) : Buffer := fun i =>
  if i < len then pBuf i
  else if i < len + line.length then line.getD (i - len) 0
  else if i = len + line.length then NUL else pBuf i

theorem fill_zero (pBuf : Buffer) (line : List Octet) : fill pBuf 0 line = sprintf pBuf line := by
  funext i
  simp [fill, sprintf]

theorem fill_nil : Function.update pBuf len NUL = fill pBuf len [] := by
  funext i
  unfold fill
  by_cases here : i = len
  · subst here
    rw [Function.update_self, if_neg (Nat.lt_irrefl i), List.length_nil, Nat.add_zero,
      if_neg (Nat.lt_irrefl i), if_pos rfl]
  · rw [Function.update_of_ne here, List.length_nil, Nat.add_zero, if_neg here]
    split
    · rfl
    · rfl

theorem fill_cons (c : Octet) :
    fill (Function.update pBuf len c) (len + 1) line = fill pBuf len (c :: line) := by
  funext i
  unfold fill
  rw [List.length_cons]
  by_cases before : i < len
  · rw [if_pos (by omega), if_pos before, Function.update_of_ne (by omega)]
  · by_cases here : i = len
    · subst here
      rw [if_pos (by omega), if_neg before, if_pos (by omega), Function.update_self, Nat.sub_self]
      rfl
    · rw [if_neg (by omega), if_neg before, Function.update_of_ne here]
      have position : i - len = (i - (len + 1)) + 1 := by omega
      rw [position, List.getD_cons_succ]
      have shift : len + 1 + line.length = len + (line.length + 1) := by omega
      rw [shift]

theorem recvLine_line (len : Nat) (rest : List Octet) (pBuf : Buffer) (noCr : CR ∉ line)
    (noLf : LF ∉ line) (fits : len + line.length < limit) :
    (recvLine limit (line ++ CR :: LF :: rest) pBuf len).1 = rest ∧
      (recvLine limit (line ++ CR :: LF :: rest) pBuf len).2.2 = len + line.length ∧
      Function.update (recvLine limit (line ++ CR :: LF :: rest) pBuf len).2.1
        (len + line.length) NUL = fill pBuf len line := by
  induction line generalizing pBuf len with
  | nil =>
    rw [List.length_nil, Nat.add_zero] at *
    rw [List.nil_append, recvLine, if_pos fits]
    simp only [if_true]
    rw [recvLine, if_pos fits]
    have apart : LF ≠ CR := by decide
    simp only [if_neg apart, if_true]
    refine ⟨trivial, trivial, ?_⟩
    rw [Function.update_idem, Function.update_idem, fill_nil]
  | cons c line ih =>
    rw [List.length_cons] at *
    have notCr : c ≠ CR := fun same => noCr (same ▸ List.mem_cons_self)
    have notLf : c ≠ LF := fun same => noLf (same ▸ List.mem_cons_self)
    have tail := ih (len + 1) (Function.update pBuf len c)
      (fun mem => noCr (List.mem_cons_of_mem _ mem)) (fun mem => noLf (List.mem_cons_of_mem _ mem))
      (by omega)
    have position : len + 1 + line.length = len + (line.length + 1) := by omega
    rw [position, fill_cons] at tail
    rw [List.cons_append, recvLine, if_pos (by omega)]
    simp only [if_neg notCr, if_neg notLf]
    exact tail

theorem recvLine_full (full : limit ≤ len) (stream : List Octet) :
    recvLine limit stream pBuf len = (stream, pBuf, len) := by
  cases stream with
  | nil => rfl
  | cons c stream => rw [recvLine, if_neg (by omega)]

theorem recvLine_cut (rest : List Octet) (pBuf : Buffer) (noCr : CR ∉ line) (noLf : LF ∉ line)
    (less : len ≤ limit) (long : limit ≤ len + line.length) :
    (recvLine limit (line ++ rest) pBuf len).1 = line.drop (limit - len) ++ rest ∧
      (recvLine limit (line ++ rest) pBuf len).2.2 = limit ∧
      Function.update (recvLine limit (line ++ rest) pBuf len).2.1 limit NUL =
        fill pBuf len (line.take (limit - len)) := by
  induction line generalizing pBuf len with
  | nil =>
    rw [List.length_nil] at long
    have full : len = limit := by omega
    rw [recvLine_full (by omega), full, List.drop_nil, List.take_nil, fill_nil]
    exact ⟨rfl, rfl, rfl⟩
  | cons c line ih =>
    by_cases full : len = limit
    · rw [recvLine_full (by omega), full, Nat.sub_self, List.drop_zero, List.take_zero, fill_nil]
      exact ⟨rfl, rfl, rfl⟩
    · rw [List.length_cons] at long
      have notCr : c ≠ CR := fun same => noCr (same ▸ List.mem_cons_self)
      have notLf : c ≠ LF := fun same => noLf (same ▸ List.mem_cons_self)
      have less' : len + 1 ≤ limit := by omega
      have tail := ih (Function.update pBuf len c) (fun mem => noCr (List.mem_cons_of_mem _ mem))
        (fun mem => noLf (List.mem_cons_of_mem _ mem)) less' (by omega)
      have position : limit - len = (limit - (len + 1)) + 1 := by omega
      rw [fill_cons] at tail
      rw [position, List.drop_succ_cons, List.take_succ_cons, List.cons_append, recvLine,
        if_pos (by omega)]
      simp only [if_neg notCr, if_neg notLf]
      exact tail

theorem lineRecv_eq (stream : List Octet) (pBuf : Buffer) :
    LineRecv stream pBuf (MAX_LINE - 3) = Received.mk (recvLine lineLimit stream pBuf 0).1
      (Function.update (recvLine lineLimit stream pBuf 0).2.1 (recvLine lineLimit stream pBuf 0).2.2 NUL)
      (recvLine lineLimit stream pBuf 0).2.2 := rfl

theorem lineRecv_line (rest : List Octet) (pBuf : Buffer) (noCr : CR ∉ line) (noLf : LF ∉ line)
    (fits : line.length < lineLimit) :
    LineRecv (line ++ CR :: LF :: rest) pBuf (MAX_LINE - 3) =
      ⟨rest, sprintf pBuf line, line.length⟩ := by
  have room : 0 + line.length < lineLimit := by omega
  obtain ⟨stream, dwLen, buffer⟩ := recvLine_line 0 rest pBuf noCr noLf room
  rw [Nat.zero_add] at dwLen buffer
  rw [lineRecv_eq, stream, dwLen, ← fill_zero, ← buffer]

theorem lineRecv_cut (rest : List Octet) (pBuf : Buffer) (noCr : CR ∉ line) (noLf : LF ∉ line)
    (long : lineLimit ≤ line.length) :
    LineRecv (line ++ rest) pBuf (MAX_LINE - 3) =
      ⟨line.drop lineLimit ++ rest, sprintf pBuf (line.take lineLimit), lineLimit⟩ := by
  have cut : lineLimit ≤ 0 + line.length := by omega
  obtain ⟨stream, dwLen, buffer⟩ := recvLine_cut rest pBuf noCr noLf (Nat.zero_le _) cut
  rw [Nat.sub_zero] at stream buffer
  rw [lineRecv_eq, stream, dwLen, ← fill_zero, ← buffer]

end lineRecv

/-! ### What is written for a line -/

section written

variable {pBuf : Buffer} {piece front back : List Octet}

/-- What write is passed for a line in the buffer. -/
def written (pBuf : Buffer) (piece : List Octet) : List Octet :=
  (List.range (piece.length + 2)).map (appendCrLf (sprintf pBuf piece) piece.length)

def beforeNul (piece : List Octet) : List Octet := piece.takeWhile (· ≠ NUL)

theorem findNul_piece {i : Nat} (inBuffer : ∀ j, j < piece.length → pBuf (i + j) = piece.getD j 0) :
    findNul pBuf i piece.length = i + (beforeNul piece).length := by
  induction piece generalizing i with
  | nil => rfl
  | cons c piece ih =>
    have head : pBuf i = c := inBuffer 0 (by rw [List.length_cons]; omega)
    rw [List.length_cons, findNul, head, beforeNul]
    by_cases nul : c = NUL
    · rw [if_pos nul, List.takeWhile_cons_of_neg (by simpa using nul)]
      rfl
    · rw [if_neg nul, List.takeWhile_cons_of_pos (by simpa using nul), List.length_cons,
        ih fun j less => ?_, beforeNul]
      · omega
      · have shifted := inBuffer (j + 1) (by rw [List.length_cons]; omega)
        rw [List.getD_cons_succ] at shifted
        rw [← shifted]
        congr 1
        omega

theorem strlen_sprintf (pBuf : Buffer) (piece : List Octet) :
    strlen (sprintf pBuf piece) piece.length = (beforeNul piece).length := by
  rw [strlen, findNul_piece, Nat.zero_add]
  intro j less
  rw [Nat.zero_add, sprintf, if_pos less]

theorem beforeNul_le (piece : List Octet) : (beforeNul piece).length ≤ piece.length :=
  (List.takeWhile_prefix _).length_le

theorem length_written (pBuf : Buffer) (piece : List Octet) :
    (written pBuf piece).length = piece.length + 2 := by
  rw [written, List.length_map, List.length_range]

theorem getElem_written {i : Nat} (inside : i < (written pBuf piece).length) :
    (written pBuf piece)[i] = appendCrLf (sprintf pBuf piece) piece.length i := by
  simp only [written, List.getElem_map, List.getElem_range]

theorem appendCrLf_before {i : Nat} (before : i < (beforeNul piece).length) :
    appendCrLf (sprintf pBuf piece) piece.length i = (beforeNul piece)[i] := by
  have bound := beforeNul_le piece
  have front : beforeNul piece = piece.take (beforeNul piece).length :=
    List.prefix_iff_eq_take.mp (List.takeWhile_prefix _)
  rw [appendCrLf, strlen_sprintf, Function.update_of_ne (by omega),
    Function.update_of_ne (by omega), Function.update_of_ne (by omega), sprintf, if_pos (by omega),
    List.getElem_of_eq front before, List.getElem_take, List.getD_eq_getElem _ _ (by omega)]

theorem appendCrLf_at (pBuf : Buffer) (piece : List Octet) :
    appendCrLf (sprintf pBuf piece) piece.length (beforeNul piece).length = CR ∧
      appendCrLf (sprintf pBuf piece) piece.length ((beforeNul piece).length + 1) = LF := by
  rw [appendCrLf, strlen_sprintf]
  constructor
  · rw [Function.update_of_ne (by omega), Function.update_of_ne (by omega), Function.update_self]
  · rw [Function.update_of_ne (by omega), Function.update_self]

theorem written_nul (pBuf : Buffer) (piece : List Octet) :
    ∃ more, written pBuf piece = beforeNul piece ++ CR :: more := by
  have bound := beforeNul_le piece
  have length := length_written pBuf piece
  refine ⟨(written pBuf piece).drop ((beforeNul piece).length + 1), ?_⟩
  apply List.ext_getElem
  · rw [List.length_append, List.length_cons, List.length_drop]
    omega
  · intro i inside _
    rw [getElem_written]
    by_cases front : i < (beforeNul piece).length
    · rw [List.getElem_append_left front, appendCrLf_before front]
    · rw [List.getElem_append_right (by omega)]
      by_cases here : i = (beforeNul piece).length
      · rw [List.getElem_cons, dif_pos (by omega), here]
        exact (appendCrLf_at _ _).1
      · rw [List.getElem_cons, dif_neg (by omega), List.getElem_drop, getElem_written]
        congr 1
        omega

theorem beforeNul_clean (clean : NUL ∉ piece) : beforeNul piece = piece :=
  List.takeWhile_eq_self_iff.mpr fun _ mem => decide_eq_true fun nul => clean (nul ▸ mem)

theorem written_clean (pBuf : Buffer) (clean : NUL ∉ piece) :
    written pBuf piece = piece ++ [CR, LF] := by
  have same := beforeNul_clean clean
  have ends := appendCrLf_at pBuf piece
  have length := length_written pBuf piece
  rw [same] at ends
  apply List.ext_getElem
  · rw [length, List.length_append]
    rfl
  · intro i inside _
    rw [getElem_written]
    by_cases front : i < piece.length
    · rw [List.getElem_append_left front, appendCrLf_before (by rw [same]; exact front)]
      exact List.getElem_of_eq same _
    · rw [List.getElem_append_right (by omega)]
      have position : i = piece.length ∨ i = piece.length + 1 := by omega
      rcases position with rfl | rfl
      · rw [ends.1, List.getElem_cons, dif_pos (by omega)]
      · rw [ends.2, List.getElem_cons, dif_neg (by omega), List.getElem_singleton]

theorem written_front (back : List Octet) (pBuf : Buffer) (clean : NUL ∉ front) :
    ∃ more, written pBuf (front ++ back) = front ++ more := by
  obtain ⟨more, line⟩ := written_nul pBuf (front ++ back)
  have split : beforeNul (front ++ back) = front ++ beforeNul back := by
    unfold beforeNul
    apply List.takeWhile_append_of_pos
    intro c mem
    rw [decide_eq_true_eq]
    exact fun nul => clean (nul ▸ mem)
  exact ⟨beforeNul back ++ CR :: more, by rw [line, split, List.append_assoc]⟩

theorem written_with_nul (back : List Octet) (pBuf : Buffer) (clean : NUL ∉ front) :
    ∃ more, written pBuf (front ++ NUL :: back) = front ++ CR :: more := by
  obtain ⟨more, line⟩ := written_nul pBuf (front ++ NUL :: back)
  have split : beforeNul (front ++ NUL :: back) = front := by
    unfold beforeNul
    rw [List.takeWhile_append_of_pos, List.takeWhile_cons_of_neg (by decide), List.append_nil]
    intro c mem
    rw [decide_eq_true_eq]
    exact fun nul => clean (nul ▸ mem)
  exact ⟨more, by rw [line, split]⟩

theorem write_full (s : Session) (dwLineLength : Nat) :
    (s.write dwLineLength (dwLineLength + 2 : Nat)).point = .recv ∧
      (s.write dwLineLength (dwLineLength + 2 : Nat)).lost = s.lost := by
  constructor
  · show (if ((dwLineLength + 2 : Nat) : Int) = 0 then Point.returned 1 else .recv) = .recv
    rw [if_neg (by omega)]
  · show (s.lost || decide (((dwLineLength + 2 : Nat) : Int) ≠ (dwLineLength + 2 : Nat))) = s.lost
    rw [decide_eq_false (not_not.mpr rfl), Bool.or_false]

end written

end Popdump
