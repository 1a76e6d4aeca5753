import LtrData.Library.Cells

/-! Texts in memory that end before the first zero. -/

namespace Cells

variable {α : Type} [Zero α] [DecidableEq α]

def textAt (m : Cells α) (size offset : Nat) : List α :=
  (m.read offset (size - offset)).takeWhile (· ≠ 0)

structure Holds (m : Cells α) (size offset : Nat) (text : List α) : Prop where
  cells : m.read offset (text.length + 1) = text ++ [0]
  clean : ∀ c ∈ text, c ≠ 0
  inside : offset + text.length < size

variable {m : Cells α} {size offset : Nat} {text : List α}

theorem takeWhile_text (clean : ∀ c ∈ text, c ≠ 0) (behind : List α) :
    (text ++ 0 :: behind).takeWhile (· ≠ 0) = text := by
  rw [List.takeWhile_append_of_pos (by simpa using clean), List.takeWhile_cons_of_neg (by simp),
    List.append_nil]

theorem Holds.textAt (holds : Holds m size offset text) : m.textAt size offset = text := by
  have inside := holds.inside
  rw [Cells.textAt, show size - offset = text.length + 1 + (size - offset - (text.length + 1)) by omega,
    read_add, holds.cells, List.append_assoc]
  exact takeWhile_text holds.clean _

omit [DecidableEq α] in
theorem Holds.terminated (holds : Holds m size offset text) : 0 ∈ m.read offset (size - offset) := by
  have inside := holds.inside
  have zero : 0 ∈ m.read offset (text.length + 1) := by
    rw [holds.cells]
    exact List.mem_append_right _ (List.mem_singleton_self _)
  obtain ⟨i, below, cell⟩ := mem_read.mp zero
  exact mem_read.mpr ⟨i, by omega, cell⟩

theorem takeWhile_append_zero (text behind : List α) :
    (text ++ 0 :: behind).takeWhile (· ≠ 0) = text.takeWhile (· ≠ 0) := by
  rw [List.takeWhile_append]
  split
  · next whole =>
    rw [List.takeWhile_cons_of_neg (by simp), List.append_nil]
    exact ((List.takeWhile_sublist _).eq_of_length whole).symm
  · rfl

/-- The text of cells that are followed by a zero and may have one themselves. -/
theorem textAt_cells (cells : m.read offset (text.length + 1) = text ++ [0])
    (inside : offset + text.length < size) :
    m.textAt size offset = text.takeWhile (· ≠ 0) := by
  rw [Cells.textAt, show size - offset = text.length + 1 + (size - offset - (text.length + 1)) by omega,
    read_add, cells, List.append_assoc]
  exact takeWhile_append_zero text _

theorem holds_textAt (terminated : 0 ∈ m.read offset (size - offset)) :
    Holds m size offset (m.textAt size offset) := by
  obtain ⟨text, behind, split, absent⟩ := List.eq_append_cons_of_mem terminated
  have clean : ∀ c ∈ text, c ≠ 0 := fun c mem zero => absent (zero ▸ mem)
  have length := congrArg List.length split
  rw [length_read, List.length_append, List.length_cons] at length
  rw [Cells.textAt, split, takeWhile_text clean]
  refine ⟨?_, clean, by omega⟩
  rw [← take_read m offset (show text.length + 1 ≤ size - offset by omega), split,
    List.take_length_add_append]
  rfl

omit [DecidableEq α] in
theorem Holds.cut (holds : Holds m size offset text) {i : Nat} (le : i ≤ text.length) :
    Holds (m.write (offset + i) [0]) size offset (text.take i) := by
  have inside := holds.inside
  have length : (text.take i).length = i := List.length_take_of_le le
  refine ⟨?_, fun c mem => holds.clean c (List.mem_of_mem_take mem), by omega⟩
  have front : m.read offset i = text.take i := by
    rw [← take_read m offset (show i ≤ text.length + 1 by omega), holds.cells,
      List.take_append_of_le_length le]
  rw [length, ← front]
  exact read_write_append m [0] offset i

omit [DecidableEq α] in
theorem Holds.rest (holds : Holds m size offset text) {k at_ : Nat} (le : k ≤ text.length)
    (before : at_ < offset + k) : Holds (m.write at_ [0]) size (offset + k) (text.drop k) := by
  have inside := holds.inside
  have length : (text.drop k).length = text.length - k := List.length_drop
  refine ⟨?_, fun c mem => holds.clean c (List.mem_of_mem_drop mem), by omega⟩
  rw [read_write_after m [0] (by simp only [List.length_singleton]; omega), length,
    show text.length - k + 1 = text.length + 1 - k by omega, ← drop_read m offset (by omega),
    holds.cells, List.drop_append_of_le_length le]

theorem holds_write (m : Cells α) {data : List α} (terminated : 0 ∈ data)
    (fits : offset + data.length ≤ size) :
    Holds (m.write offset data) size offset (data.takeWhile (· ≠ 0)) := by
  obtain ⟨text, behind, rfl, absent⟩ := List.eq_append_cons_of_mem terminated
  have clean : ∀ c ∈ text, c ≠ 0 := fun c mem zero => absent (zero ▸ mem)
  rw [List.length_append, List.length_cons] at fits
  rw [takeWhile_text clean]
  refine ⟨?_, clean, by omega⟩
  rw [read_write_front m offset _ (by simp only [List.length_append, List.length_cons]; omega),
    List.take_length_add_append]
  rfl

end Cells
