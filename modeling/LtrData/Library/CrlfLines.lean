import Mathlib.Data.List.Basic

abbrev Octet := BitVec 8

namespace Octet

def NUL : Octet := 0
def LF : Octet := 10
def CR : Octet := 13
def DOT : Octet := 46

end Octet

open Octet

def crlfText (lines : List (List Octet)) : List Octet := lines.flatMap (· ++ [CR, LF])

def crlfLines : List Octet → List (List Octet) × List Octet
  | [] => ([], [])
  | [c] => ([], [c])
  | c :: d :: rest =>
    if c = CR ∧ d = LF then ([] :: (crlfLines rest).1, (crlfLines rest).2)
    else
      match crlfLines (d :: rest) with
      | ([], open_) => ([], c :: open_)
      | (line :: lines, open_) => ((c :: line) :: lines, open_)

/-- The line has no line end inside. -/
def NoCrlf : List Octet → Prop
  | c :: d :: rest => ¬(c = CR ∧ d = LF) ∧ NoCrlf (d :: rest)
  | _ => True

/-- Dot transparency: a line that starts with a dot is sent with one more. -/
def stuff : List Octet → List Octet
  | [] => []
  | c :: rest => if c = DOT then DOT :: c :: rest else c :: rest

def unstuff : List Octet → List Octet
  | [] => []
  | c :: rest => if c = DOT then rest else c :: rest

/-- The text up to a line with a single dot, with the dots of dot transparency removed, and the lines
    behind it. Without such a line, the receiver goes on waiting for it. -/
def dottedText : List (List Octet) → Option (List Octet × List (List Octet))
  | [] => none
  | line :: lines =>
    if line = [DOT] then some ([], lines)
    else (dottedText lines).map fun more => (unstuff line ++ [CR, LF] ++ more.1, more.2)

section lines

variable {line : List Octet} {lines : List (List Octet)} {c : Octet}

@[simp] theorem crlfText_nil : crlfText [] = [] := rfl

@[simp] theorem crlfText_cons (line : List Octet) (lines : List (List Octet)) :
    crlfText (line :: lines) = line ++ CR :: LF :: crlfText lines := by
  simp [crlfText]

theorem crlfText_append (front back : List (List Octet)) :
    crlfText (front ++ back) = crlfText front ++ crlfText back := List.flatMap_append

theorem stuff_dot (rest : List Octet) : stuff (DOT :: rest) = DOT :: DOT :: rest := by
  rw [stuff, if_pos rfl]

theorem stuff_other (other : c ≠ DOT) (rest : List Octet) : stuff (c :: rest) = c :: rest :=
  if_neg other

theorem unstuff_dot (rest : List Octet) : unstuff (DOT :: rest) = rest := by
  rw [unstuff, if_pos rfl]

theorem unstuff_other (other : c ≠ DOT) (rest : List Octet) : unstuff (c :: rest) = c :: rest :=
  if_neg other

theorem noCrlf_cons (h : NoCrlf (c :: line)) : NoCrlf line := by
  cases line with
  | nil => exact trivial
  | cons d rest => exact h.2

theorem crlfLines_line (noCrlf : NoCrlf line) (rest : List Octet) :
    crlfLines (line ++ CR :: LF :: rest) = (line :: (crlfLines rest).1, (crlfLines rest).2) := by
  induction line with
  | nil => rw [List.nil_append, crlfLines, if_pos ⟨rfl, rfl⟩]
  | cons c line ih =>
    have tail := ih (noCrlf_cons noCrlf)
    cases line with
    | nil =>
      rw [List.nil_append] at tail
      rw [List.cons_append, List.nil_append, crlfLines,
        if_neg fun ends => absurd ends.2 (by decide), tail]
    | cons d line =>
      rw [List.cons_append] at tail
      rw [List.cons_append, List.cons_append, crlfLines, if_neg noCrlf.1, tail]

theorem crlfLines_text (bytes : List Octet) :
    crlfText (crlfLines bytes).1 ++ (crlfLines bytes).2 = bytes := by
  fun_induction crlfLines bytes with
  | case1 => rfl
  | case2 => rfl
  | case3 c d rest ends ih =>
    rw [ends.1, ends.2, crlfText_cons, List.nil_append, List.cons_append, List.cons_append, ih]
  | case4 c d rest ends open_ same ih =>
    rw [same] at ih
    exact congrArg (c :: ·) ih
  | case5 c d rest ends line lines open_ same ih =>
    rw [same] at ih
    exact congrArg (c :: ·) ih

theorem crlfLines_noCrlf (bytes : List Octet) :
    (∀ line ∈ (crlfLines bytes).1, NoCrlf line) ∧ NoCrlf (crlfLines bytes).2 := by
  fun_induction crlfLines bytes with
  | case1 => exact ⟨fun _ none => absurd none List.not_mem_nil, trivial⟩
  | case2 => exact ⟨fun _ none => absurd none List.not_mem_nil, trivial⟩
  | case3 c d rest ends ih =>
    refine ⟨fun line mem => ?_, ih.2⟩
    rcases List.mem_cons.mp mem with rfl | mem
    · trivial
    · exact ih.1 line mem
  | case4 c d rest ends open_ same ih =>
    have text := crlfLines_text (d :: rest)
    rw [same] at ih text
    have whole : open_ = d :: rest := text
    rw [whole] at ih ⊢
    exact ⟨fun _ none => absurd none List.not_mem_nil, ends, ih.2⟩
  | case5 c d rest ends line lines open_ same ih =>
    have text := crlfLines_text (d :: rest)
    rw [same] at ih text
    refine ⟨fun other mem => ?_, ih.2⟩
    rcases List.mem_cons.mp mem with rfl | mem
    · have first := ih.1 line List.mem_cons_self
      cases line with
      | nil => trivial
      | cons e line =>
        rw [crlfText_cons] at text
        have head : e = d := (List.cons.inj text).1
        rw [head] at first ⊢
        exact ⟨ends, first⟩
    · exact ih.1 other (List.mem_cons_of_mem _ mem)

theorem noCrlf_snoc {d : Octet} (noCrlf : NoCrlf line) (other : d ≠ LF) : NoCrlf (line ++ [d]) := by
  induction line with
  | nil => exact trivial
  | cons c line ih =>
    have tail := ih (noCrlf_cons noCrlf)
    cases line with
    | nil => exact ⟨fun ends => other ends.2, trivial⟩
    | cons e line => exact ⟨noCrlf.1, tail⟩

theorem crlfLines_lines (noCrlf : ∀ line ∈ lines, NoCrlf line) (rest : List Octet) :
    crlfLines (crlfText lines ++ rest) = (lines ++ (crlfLines rest).1, (crlfLines rest).2) := by
  induction lines with
  | nil => rfl
  | cons line lines ih =>
    have tail := ih fun other mem => noCrlf other (List.mem_cons_of_mem _ mem)
    rw [crlfText_cons, List.append_assoc, List.cons_append, List.cons_append,
      crlfLines_line (noCrlf line List.mem_cons_self), tail, List.cons_append]

theorem dottedText_some {data : List Octet} {rest : List (List Octet)} :
    dottedText lines = some (data, rest) ↔
      ∃ front, lines = front ++ [DOT] :: rest ∧ [DOT] ∉ front ∧ data = crlfText (front.map unstuff) := by
  induction lines generalizing data with
  | nil =>
    apply iff_of_false
    · intro none
      cases none
    · intro split
      rcases split with ⟨front, same, _⟩
      cases front with
      | nil => cases same
      | cons line front => cases same
  | cons line lines ih =>
    by_cases dot : line = [DOT]
    · rw [dottedText, if_pos dot, dot]
      constructor
      · intro found
        cases found
        exact ⟨[], rfl, List.not_mem_nil, rfl⟩
      · intro split
        rcases split with ⟨front, same, absent, text⟩
        cases front with
        | nil =>
          cases same
          rw [text]
          rfl
        | cons other front =>
          have first : [DOT] = other := (List.cons.inj same).1
          exact absurd (first ▸ List.mem_cons_self) absent
    · rw [dottedText, if_neg dot, Option.map_eq_some_iff]
      constructor
      · intro found
        rcases found with ⟨⟨more, others⟩, tail, same⟩
        cases same
        obtain ⟨front, split, absent, text⟩ := ih.mp tail
        refine ⟨line :: front, by rw [split]; rfl, fun mem => ?_, ?_⟩
        · rcases List.mem_cons.mp mem with first | mem
          · exact dot first.symm
          · exact absent mem
        · rw [List.map_cons, crlfText_cons, ← text, List.append_assoc]
          rfl
      · intro split
        rcases split with ⟨front, same, absent, text⟩
        cases front with
        | nil => exact absurd (List.cons.inj same).1 dot
        | cons other front =>
          obtain ⟨first, tail⟩ := List.cons.inj same
          have found := ih.mpr ⟨front, tail, fun mem => absent (List.mem_cons_of_mem _ mem), rfl⟩
          refine ⟨_, found, ?_⟩
          rw [text, List.map_cons, crlfText_cons, ← first, List.append_assoc]
          rfl

theorem length_unstuff_le (line : List Octet) : (unstuff line).length ≤ line.length := by
  cases line with
  | nil => exact Nat.le_refl 0
  | cons c rest =>
    by_cases dot : c = DOT
    · rw [dot, unstuff_dot]
      exact Nat.le_succ _
    · exact Nat.le_of_eq (congrArg List.length (unstuff_other dot rest))

theorem length_text_unstuff_le (lines : List (List Octet)) :
    (crlfText (lines.map unstuff)).length ≤ (crlfText lines).length := by
  induction lines with
  | nil => exact Nat.le_refl 0
  | cons line lines ih =>
    have first := length_unstuff_le line
    rw [List.map_cons, crlfText_cons, crlfText_cons, List.length_append, List.length_append,
      List.length_cons, List.length_cons, List.length_cons, List.length_cons]
    omega

/-- Removing the dots of dot transparency changes every text with a line that starts with one. -/
theorem text_unstuff_eq :
    crlfText (lines.map unstuff) = crlfText lines ↔ ∀ line ∈ lines, line.head? ≠ some DOT := by
  induction lines with
  | nil => exact iff_of_true rfl fun _ none => absurd none List.not_mem_nil
  | cons line lines ih =>
    rw [List.map_cons, crlfText_cons, crlfText_cons, List.forall_mem_cons, ← ih]
    have tail := length_text_unstuff_le lines
    cases line with
    | nil =>
      constructor
      · intro same
        exact ⟨by decide, (List.cons.inj (List.cons.inj same).2).2⟩
      · intro same
        rw [same.2]
        rfl
    | cons c rest =>
      by_cases dot : c = DOT
      · rw [dot, unstuff_dot]
        apply iff_of_false
        · intro same
          have lengths := congrArg List.length same
          simp only [List.length_append, List.length_cons] at lengths
          omega
        · intro both
          exact both.1 rfl
      · rw [unstuff_other dot, List.append_cancel_left_eq]
        constructor
        · intro same
          exact ⟨fun head => dot (Option.some.inj head), (List.cons.inj (List.cons.inj same).2).2⟩
        · intro both
          rw [both.2]

end lines
