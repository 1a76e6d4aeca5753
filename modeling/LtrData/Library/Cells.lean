import Mathlib.Data.List.Basic

/-- Memory with one value per offset. A buffer of the program is such a memory together
    with the length the program allocated, which the accesses are checked against. -/
abbrev Cells (α : Type) := Nat → α

namespace Cells

variable {α : Type}

def read (m : Cells α) : Nat → Nat → List α
  | _, 0 => []
  | offset, n + 1 => m offset :: read m (offset + 1) n

def write (m : Cells α) (offset : Nat) (values : List α) : Cells α := fun i =>
  if i < offset then m i else values.getD (i - offset) (m i)

@[simp] theorem read_zero (m : Cells α) (offset : Nat) : m.read offset 0 = [] := rfl

@[simp] theorem length_read (m : Cells α) (offset n : Nat) : (m.read offset n).length = n := by
  induction n generalizing offset with
  | zero => rfl
  | succ n ih => simp [read, ih]

theorem read_add (m : Cells α) (offset a b : Nat) :
    m.read offset (a + b) = m.read offset a ++ m.read (offset + a) b := by
  induction a generalizing offset with
  | zero => simp
  | succ a ih =>
    rw [Nat.add_right_comm a 1 b]
    simp only [read, List.cons_append, ih]
    rw [Nat.add_right_comm offset 1 a, Nat.add_assoc offset a 1]

theorem take_read (m : Cells α) (offset : Nat) {a n : Nat} (le : a ≤ n) :
    (m.read offset n).take a = m.read offset a := by
  obtain ⟨b, rfl⟩ := Nat.exists_eq_add_of_le le
  rw [read_add, List.take_left' (length_read m offset a)]

theorem drop_read (m : Cells α) (offset : Nat) {a n : Nat} (le : a ≤ n) :
    (m.read offset n).drop a = m.read (offset + a) (n - a) := by
  obtain ⟨b, rfl⟩ := Nat.exists_eq_add_of_le le
  rw [read_add, List.drop_left' (length_read m offset a), Nat.add_sub_cancel_left]

theorem read_append {m : Cells α} {offset : Nat} {xs ys : List α}
    (same : m.read offset (xs ++ ys).length = xs ++ ys) :
    m.read offset xs.length = xs ∧ m.read (offset + xs.length) ys.length = ys := by
  rw [List.length_append, read_add] at same
  exact List.append_inj same (length_read m offset xs.length)

theorem read_congr {m k : Cells α} {offset n : Nat}
    (same : ∀ i, offset ≤ i → i < offset + n → m i = k i) : m.read offset n = k.read offset n := by
  induction n generalizing offset with
  | zero => rfl
  | succ n ih =>
    simp only [read]
    rw [same offset (Nat.le_refl _) (by omega),
      ih fun i lower upper => same i (by omega) (by omega)]

theorem read_shift (m : Cells α) (a offset n : Nat) :
    m.read (a + offset) n = Cells.read (fun i => m (a + i)) offset n := by
  induction n generalizing offset with
  | zero => rfl
  | succ n ih =>
    simp only [read]
    rw [Nat.add_assoc, ih]

theorem mem_read {m : Cells α} {offset n : Nat} {x : α} :
    x ∈ m.read offset n ↔ ∃ i < n, m (offset + i) = x := by
  induction n generalizing offset with
  | zero => simp
  | succ n ih =>
    rw [read, List.mem_cons, ih]
    constructor
    · rintro (rfl | ⟨i, below, rfl⟩)
      · exact ⟨0, Nat.zero_lt_succ n, rfl⟩
      · exact ⟨i + 1, Nat.succ_lt_succ below, by rw [Nat.add_right_comm, Nat.add_assoc]⟩
    · intro facts
      rcases facts with ⟨i, below, rfl⟩
      rcases i with - | i
      · exact Or.inl rfl
      · exact Or.inr ⟨i, Nat.lt_of_succ_lt_succ below, by rw [Nat.add_right_comm, Nat.add_assoc]⟩

theorem write_after (m : Cells α) (values : List α) {offset i : Nat} (after : offset + values.length ≤ i) :
    m.write offset values i = m i := by
  have above : ¬ i < offset := by omega
  have outside : values.length ≤ i - offset := by omega
  simp [write, above, List.getElem?_eq_none outside]

theorem write_one (m : Cells α) (offset : Nat) (x : α) (i : Nat) :
    m.write offset [x] i = if i = offset then x else m i := by
  by_cases same : i = offset
  · simp [write, same]
  · by_cases below : i < offset
    · simp [write, same, below]
    · have outside : 1 ≤ i - offset := by omega
      simp [write, same, below, List.getElem?_eq_none (show [x].length ≤ i - offset from outside)]

@[simp] theorem write_nil (m : Cells α) (offset : Nat) : m.write offset [] = m := by
  funext i
  simp [write]

theorem write_cons (m : Cells α) (offset : Nat) (x : α) (values : List α) :
    (m.write offset [x]).write (offset + 1) values = m.write offset (x :: values) := by
  funext i
  rcases Nat.lt_trichotomy i offset with below | rfl | above
  · simp [write, below, Nat.lt_succ_of_lt below]
  · simp [write]
  · have index : i - offset = (i - (offset + 1)) + 1 := by omega
    have left : ¬ i < offset := by omega
    have right : ¬ i < offset + 1 := by omega
    have cell : m.write offset [x] i = m i := write_after m [x] above
    rw [write, if_neg right, cell, write, if_neg left, index, List.getD_cons_succ]

theorem read_write_before (m : Cells α) (values : List α) {offset start n : Nat}
    (before : start + n ≤ offset) : (m.write offset values).read start n = m.read start n := by
  apply read_congr
  intro i _ upper
  have below : i < offset := by omega
  simp [write, below]

theorem read_write_after (m : Cells α) (values : List α) {offset start n : Nat}
    (after : offset + values.length ≤ start) :
    (m.write offset values).read start n = m.read start n := by
  apply read_congr
  intro i lower _
  exact write_after m values (by omega)

@[simp] theorem read_write_same (m : Cells α) (offset : Nat) (values : List α) :
    (m.write offset values).read offset values.length = values := by
  induction values generalizing m offset with
  | nil => rfl
  | cons head tail ih =>
    simp only [List.length_cons, read]
    congr 1
    · simp [write]
    · have rest : (m.write offset (head :: tail)).read (offset + 1) tail.length =
          (m.write (offset + 1) tail).read (offset + 1) tail.length := by
        apply read_congr
        intro i lower _
        have index : i - offset = (i - (offset + 1)) + 1 := by omega
        have left : ¬ i < offset := by omega
        have right : ¬ i < offset + 1 := by omega
        simp [write, left, right, index]
      rw [rest, ih]

theorem read_write_front (m : Cells α) (offset : Nat) (values : List α) {n : Nat}
    (le : n ≤ values.length) : (m.write offset values).read offset n = values.take n := by
  rw [← take_read _ offset le, read_write_same]

theorem read_write_append (m : Cells α) (values : List α) (start n : Nat) :
    (m.write (start + n) values).read start (n + values.length) = m.read start n ++ values := by
  rw [read_add, read_write_before m values (Nat.le_refl _), read_write_same]

end Cells
