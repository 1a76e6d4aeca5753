import Mathlib.Algebra.Ring.Nat
import Mathlib.Data.Finset.Card
import Mathlib.Data.List.Basic
import Mathlib.Logic.Relation

/-! Things that are kept in lists, each in one of them, and that may contain lists of others. -/

namespace Containers

section lists

variable {α : Type} [DecidableEq α] {lists lists' : List (List α)} {list : List α} {a : α} {i : Nat}

/-- How often something is in the lists. -/
def held (lists : List (List α)) (a : α) : Nat := (lists.map (List.count a)).sum

@[simp] theorem held_nil (a : α) : held [] a = 0 := rfl

@[simp] theorem held_cons (list : List α) (lists : List (List α)) (a : α) :
    held (list :: lists) a = list.count a + held lists a := List.sum_cons

theorem held_eq_count (lists : List (List α)) (a : α) : held lists a = lists.flatten.count a :=
  List.count_flatten.symm

theorem held_set (found : lists[i]? = some list) (list' : List α) (a : α) :
    held (lists.set i list') a + list.count a = held lists a + list'.count a := by
  induction lists generalizing i with
  | nil => cases found
  | cons first lists ih =>
    rcases i with - | i
    · obtain rfl := Option.some.inj found
      rw [List.set_cons_zero, held_cons, held_cons]
      omega
    · have rest := ih (i := i) (by simpa using found)
      rw [List.set_cons_succ, held_cons, held_cons]
      omega

/-- One occurrence is taken out of one list. -/
def Taken (lists : List (List α)) (a : α) (lists' : List (List α)) : Prop :=
  ∃ i front back, lists[i]? = some (front ++ a :: back) ∧ lists' = lists.set i (front ++ back)

/-- It is put at the end of one list. -/
def Put (lists : List (List α)) (a : α) (lists' : List (List α)) : Prop :=
  ∃ i list, lists[i]? = some list ∧ lists' = lists.set i (list ++ [a])

theorem Taken.held_eq (taken : Taken lists a lists') (b : α) :
    held lists b = held lists' b + if a = b then 1 else 0 := by
  obtain ⟨i, front, back, found, rfl⟩ := taken
  have counts := held_set found (front ++ back) b
  rw [List.count_append, List.count_append, List.count_cons] at counts
  simp only [beq_iff_eq] at counts
  omega

theorem Put.held_eq (put : Put lists a lists') (b : α) :
    held lists' b = held lists b + if a = b then 1 else 0 := by
  obtain ⟨i, list, found, rfl⟩ := put
  have counts := held_set found (list ++ [a]) b
  rw [List.count_append, List.count_singleton] at counts
  simp only [beq_iff_eq] at counts
  omega

theorem held_eq_zero_iff : held lists a = 0 ↔ ∀ list ∈ lists, a ∉ list := by
  induction lists with
  | nil => simp
  | cons first lists ih =>
    rw [held_cons, Nat.add_eq_zero_iff, ih, List.count_eq_zero, List.forall_mem_cons]

theorem held_pos (member : list ∈ lists) (mem : a ∈ list) : 0 < held lists a :=
  Nat.pos_of_ne_zero fun zero => held_eq_zero_iff.mp zero list member mem

/-- What is held once is in exactly one of the lists. -/
theorem countP_of_held_eq_one (once : held lists a = 1) : lists.countP (a ∈ ·) = 1 := by
  induction lists with
  | nil => cases once
  | cons first lists ih =>
    rw [held_cons] at once
    by_cases here : a ∈ first
    · have positive : 0 < first.count a := List.count_pos_iff.mpr here
      have elsewhere : held lists a = 0 := by omega
      rw [List.countP_cons_of_pos (by simpa using here), List.countP_eq_zero.mpr]
      intro list member
      simpa using held_eq_zero_iff.mp elsewhere list member
    · rw [List.countP_cons_of_neg (by simpa using here)]
      apply ih
      rw [List.count_eq_zero.mpr here] at once
      omega

end lists

section ranks

variable {α : Type} {Contains : α → α → Prop}

/-- Where nothing contains itself there is a depth that gets smaller on the way inside. -/
theorem exists_rank (things : Finset α) (inside : ∀ a b, Contains a b → b ∈ things)
    (acyclic : ∀ a, ¬ Relation.TransGen Contains a a) :
    ∃ rank : α → Nat, (∀ a, rank a ≤ things.card) ∧ ∀ a b, Contains a b → rank b < rank a := by
  classical
  refine ⟨fun a => (things.filter (Relation.TransGen Contains a)).card,
    fun a => Finset.card_le_card (Finset.filter_subset _ _), fun a b contains => ?_⟩
  apply Finset.card_lt_card
  constructor
  · intro c mem
    obtain ⟨thing, path⟩ := Finset.mem_filter.mp mem
    exact Finset.mem_filter.mpr ⟨thing, Relation.TransGen.head contains path⟩
  · intro subset
    have mem := subset (Finset.mem_filter.mpr ⟨inside a b contains, Relation.TransGen.single contains⟩)
    exact acyclic b (Finset.mem_filter.mp mem).2

end ranks

end Containers
