import Mathlib.Data.List.Basic

namespace PercentDecoding

abbrev Byte := BitVec 8

def PERCENT : Byte := 37

/-- The hexadecimal digits of ASCII, whatever the locale. -/
def isxdigit (c : Byte) : Bool :=
  (48 ≤ c.toNat && c.toNat ≤ 57) || (65 ≤ c.toNat && c.toNat ≤ 70) || (97 ≤ c.toNat && c.toNat ≤ 102)

def digitValue (c : Byte) : Nat :=
  if c.toNat ≤ 57 then c.toNat - 48 else if c.toNat ≤ 70 then c.toNat - 55 else c.toNat - 87

def hexValue (high low : Byte) : Byte := BitVec.ofNat 8 (16 * digitValue high + digitValue low)

/-- Escapes replaced from left to right. -/
def percentDecode : List Byte → List Byte
  | c :: high :: low :: rest =>
    if c = PERCENT ∧ isxdigit high ∧ isxdigit low then hexValue high low :: percentDecode rest
    else c :: percentDecode (high :: low :: rest)
  | few => few

/-- The text ends where an escape may go on. -/
def OpenEnd (s : List Byte) : Prop :=
  ∃ front, s = front ++ [PERCENT] ∨ ∃ high, isxdigit high ∧ s = front ++ [PERCENT, high]

variable {c high low : Byte} {s front : List Byte}

theorem isxdigit_percent : isxdigit PERCENT = false := by decide

theorem OpenEnd.append (front : List Byte) (opens : OpenEnd s) : OpenEnd (front ++ s) := by
  obtain ⟨before, ends⟩ := opens
  refine ⟨front ++ before, ?_⟩
  rcases ends with rfl | ⟨high, digit, rfl⟩
  · exact .inl (List.append_assoc _ _ _).symm
  · exact .inr ⟨high, digit, (List.append_assoc _ _ _).symm⟩

theorem OpenEnd.cons (c : Byte) (opens : OpenEnd s) : OpenEnd (c :: s) := opens.append [c]

theorem openEnd_percent : OpenEnd [PERCENT] := ⟨[], .inl rfl⟩

theorem openEnd_digit (digit : isxdigit high) : OpenEnd [PERCENT, high] :=
  ⟨[], .inr ⟨high, digit, rfl⟩⟩

theorem not_openEnd_nil : ¬ OpenEnd [] := by
  intro opens
  obtain ⟨front, ends⟩ := opens
  rcases ends with ends | ⟨high, _, ends⟩
  · simp at ends
  · simp at ends

/-- An escape that is left open does not start before the last byte that cannot belong to it. -/
theorem OpenEnd.of_cons (opens : OpenEnd (c :: s)) (other : c ≠ PERCENT) : OpenEnd s := by
  obtain ⟨front, ends⟩ := opens
  cases front with
  | nil =>
    rcases ends with ends | ⟨high, _, ends⟩
    · exact absurd (List.cons.inj ends).1 other
    · exact absurd (List.cons.inj ends).1 other
  | cons x front =>
    rcases ends with ends | ⟨high, digit, ends⟩
    · exact ⟨front, .inl (List.cons.inj ends).2⟩
    · exact ⟨front, .inr ⟨high, digit, (List.cons.inj ends).2⟩⟩

theorem OpenEnd.of_percent (opens : OpenEnd (PERCENT :: high :: s))
    (digits : isxdigit high = true → s ≠ []) : OpenEnd (high :: s) := by
  obtain ⟨front, ends⟩ := opens
  cases front with
  | nil =>
    rcases ends with ends | ⟨x, digit, ends⟩
    · simp at ends
    · simp only [List.nil_append, List.cons.injEq, true_and] at ends
      obtain ⟨rfl, empty⟩ := ends
      exact absurd empty (digits digit)
  | cons x front =>
    rcases ends with ends | ⟨y, digit, ends⟩
    · exact ⟨front, .inl (List.cons.inj ends).2⟩
    · exact ⟨front, .inr ⟨y, digit, (List.cons.inj ends).2⟩⟩

theorem ne_percent (digit : isxdigit c = true) : c ≠ PERCENT := by
  intro same
  rw [same, isxdigit_percent] at digit
  cases digit

@[simp] theorem percentDecode_nil : percentDecode [] = [] := rfl

theorem percentDecode_escape (digits : isxdigit high = true ∧ isxdigit low = true) (s : List Byte) :
    percentDecode (PERCENT :: high :: low :: s) = hexValue high low :: percentDecode s := by
  rw [percentDecode, if_pos ⟨rfl, digits⟩]

theorem percentDecode_other (other : c ≠ PERCENT) (s : List Byte) :
    percentDecode (c :: s) = c :: percentDecode s := by
  match s with
  | [] => rfl
  | [_] => rfl
  | _ :: _ :: _ => rw [percentDecode, if_neg fun escape => other escape.1]

theorem percentDecode_noFirst (noDigit : isxdigit high = false) (s : List Byte) :
    percentDecode (c :: high :: s) = c :: percentDecode (high :: s) := by
  cases s with
  | nil => rfl
  | cons low s => rw [percentDecode, if_neg (by simp [noDigit])]

theorem percentDecode_noSecond (noDigit : isxdigit low = false) (s : List Byte) :
    percentDecode (c :: high :: low :: s) = c :: percentDecode (high :: low :: s) := by
  rw [percentDecode, if_neg (by simp [noDigit])]

/-- Where no escape is left open, the parts can be decoded on their own. -/
theorem percentDecode_append (closed : ¬ OpenEnd s) (t : List Byte) :
    percentDecode (s ++ t) = percentDecode s ++ percentDecode t := by
  fun_induction percentDecode s with
  | case1 c high low rest escape ih =>
    obtain ⟨rfl, digits⟩ := escape
    rw [List.cons_append, List.cons_append, List.cons_append, percentDecode_escape digits,
      ih fun opens => closed (opens.append [PERCENT, high, low]), List.cons_append]
  | case2 c high low rest noEscape ih =>
    rw [List.cons_append, List.cons_append, List.cons_append, percentDecode, if_neg noEscape]
    exact congrArg (c :: ·) (ih fun opens => closed (opens.cons c))
  | case3 few short =>
    match few, short with
    | [], _ => rfl
    | [c], _ =>
      have other : c ≠ PERCENT := fun same => closed (same ▸ openEnd_percent)
      exact percentDecode_other other t
    | [c, high], _ =>
      have second : high ≠ PERCENT := fun same => closed (same ▸ openEnd_percent.cons c)
      have rest : percentDecode (high :: t) = high :: percentDecode t := percentDecode_other second t
      by_cases first : c = PERCENT
      · have noDigit : isxdigit high = false := by
          rw [Bool.eq_false_iff]
          intro digit
          exact closed (first ▸ openEnd_digit digit)
        rw [List.cons_append, List.cons_append, List.nil_append, percentDecode_noFirst noDigit, rest]
        rfl
      · rw [List.cons_append, List.cons_append, List.nil_append, percentDecode_other first, rest]
        rfl
    | c :: high :: low :: rest, short => exact (short c high low rest rfl).elim

theorem percentDecode_eq_nil : percentDecode s = [] ↔ s = [] := by
  constructor
  · intro empty
    match s with
    | [] => rfl
    | [_] => cases empty
    | [_, _] => cases empty
    | c :: high :: low :: rest =>
      rw [percentDecode] at empty
      split at empty
      · cases empty
      · cases empty
  · intro empty
    rw [empty, percentDecode_nil]

/-- One byte, or one escape. -/
def SingleByte (s : List Byte) : Prop :=
  (∃ c, s = [c]) ∨ ∃ high low, isxdigit high ∧ isxdigit low ∧ s = [PERCENT, high, low]

theorem singleByte_iff : SingleByte s ↔ (percentDecode s).length = 1 := by
  constructor
  · intro single
    rcases single with ⟨c, rfl⟩ | ⟨high, low, first, second, rfl⟩
    · rfl
    · rw [percentDecode_escape ⟨first, second⟩]
      rfl
  · intro one
    match s with
    | [] => cases one
    | [c] => exact .inl ⟨c, rfl⟩
    | [_, _] => cases one
    | c :: high :: low :: rest =>
      rw [percentDecode] at one
      split at one
      · next escape =>
        rw [List.length_cons, Nat.succ_inj, List.length_eq_zero_iff, percentDecode_eq_nil] at one
        exact .inr ⟨high, low, escape.2.1, escape.2.2, by rw [one, escape.1]⟩
      · rw [List.length_cons, Nat.succ_inj, List.length_eq_zero_iff, percentDecode_eq_nil] at one
        cases one

end PercentDecoding
