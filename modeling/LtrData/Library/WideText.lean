import LtrData.Library.Cells

/-! Texts of 16-bit units in bytes, the low byte of each unit first. -/

namespace WideText

/-- The units of some bytes, where an odd byte is left out. -/
def units : List (BitVec 8) → List (BitVec 16)
  | low :: high :: rest => (high ++ low) :: units rest
  | _ => []

def bytes (text : List (BitVec 16)) : List (BitVec 8) :=
  text.flatMap fun unit => [unit.extractLsb' 0 8, unit.extractLsb' 8 8]

variable {s : List (BitVec 8)} {text : List (BitVec 16)}

@[simp] theorem bytes_nil : bytes [] = [] := rfl

@[simp] theorem bytes_cons (unit : BitVec 16) (text : List (BitVec 16)) :
    bytes (unit :: text) = unit.extractLsb' 0 8 :: unit.extractLsb' 8 8 :: bytes text := rfl

theorem bytes_append (front back : List (BitVec 16)) :
    bytes (front ++ back) = bytes front ++ bytes back := List.flatMap_append

theorem length_bytes (text : List (BitVec 16)) : (bytes text).length = text.length * 2 := by
  induction text with
  | nil => rfl
  | cons unit text ih =>
    rw [bytes_cons, List.length_cons, List.length_cons, ih, List.length_cons, Nat.succ_mul]

theorem append_extract (unit : BitVec 16) :
    unit.extractLsb' 8 8 ++ unit.extractLsb' 0 8 = unit := by
  apply BitVec.eq_of_getLsbD_eq
  intro i inside
  rw [BitVec.getLsbD_append, BitVec.getLsbD_extractLsb', BitVec.getLsbD_extractLsb']
  by_cases low : i < 8
  · simp [low]
  · have high : i - 8 < 8 := by omega
    have position : 8 + (i - 8) = i := by omega
    simp [low, high, position]

theorem extract_append (high low : BitVec 8) :
    (high ++ low : BitVec 16).extractLsb' 0 8 = low ∧
      (high ++ low : BitVec 16).extractLsb' 8 8 = high := by
  constructor
  · apply BitVec.eq_of_getLsbD_eq
    intro i inside
    rw [BitVec.getLsbD_extractLsb', BitVec.getLsbD_append]
    simp [inside]
  · apply BitVec.eq_of_getLsbD_eq
    intro i inside
    rw [BitVec.getLsbD_extractLsb', BitVec.getLsbD_append]
    have above : ¬ 8 + i < 8 := by omega
    simp [inside]

theorem units_bytes (text : List (BitVec 16)) : units (bytes text) = text := by
  induction text with
  | nil => rfl
  | cons unit text ih => rw [bytes_cons, units, append_extract, ih]

theorem bytes_units (s : List (BitVec 8)) : bytes (units s) = s.take (2 * (s.length / 2)) := by
  fun_induction units s with
  | case1 low high rest ih =>
    have length : 2 * ((low :: high :: rest).length / 2) = 2 * (rest.length / 2) + 2 := by
      rw [List.length_cons, List.length_cons]
      omega
    have both := extract_append high low
    rw [bytes_cons, both.1, both.2, ih, length]
    rfl
  | case2 s short =>
    match s, short with
    | [], _ => rfl
    | [c], _ => simp [bytes]
    | low :: high :: rest, short => exact (short low high rest rfl).elim

theorem length_units (s : List (BitVec 8)) : (units s).length = s.length / 2 := by
  fun_induction units s with
  | case1 low high rest ih =>
    rw [List.length_cons, List.length_cons, List.length_cons, ih]
    omega
  | case2 s short =>
    match s, short with
    | [], _ => rfl
    | [c], _ => simp
    | low :: high :: rest, short => exact (short low high rest rfl).elim

theorem units_drop (s : List (BitVec 8)) (i : Nat) : units (s.drop (2 * i)) = (units s).drop i := by
  induction i generalizing s with
  | zero => rfl
  | succ i ih =>
    match s with
    | [] => simp [units]
    | [c] =>
      have behind : [c].length ≤ 2 * (i + 1) := by
        rw [List.length_singleton]
        omega
      rw [List.drop_of_length_le behind]
      simp [units]
    | low :: high :: rest =>
      rw [units, List.drop_succ_cons, ← ih]
      rfl

theorem read_units (m : Cells (BitVec 8)) (place n : Nat) :
    Cells.read (fun i => (m (place + 2 * i + 1) ++ m (place + 2 * i) : BitVec 16)) 0 (n / 2) =
      units (m.read place n) := by
  induction n using Nat.strongRecOn generalizing place with
  | ind n ih =>
    match n with
    | 0 => rfl
    | 1 => rfl
    | n + 2 =>
      have half : (n + 2) / 2 = n / 2 + 1 := by omega
      have behind := ih n (by omega) (place + 2)
      have shift : (fun i => (m (place + 2 * (1 + i) + 1) ++ m (place + 2 * (1 + i)) : BitVec 16)) =
          fun i => m (place + 2 + 2 * i + 1) ++ m (place + 2 + 2 * i) := by
        funext i
        rw [Nat.mul_add, ← Nat.add_assoc]
      rw [half, Cells.read, Cells.read_shift _ 1 0, shift, behind]
      rfl

end WideText
