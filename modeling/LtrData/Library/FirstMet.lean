import Mathlib.Algebra.BigOperators.Group.Finset.Basic

/-! Items that come one after the other, of which the first with a key counts for all of them. -/

namespace FirstMet

variable {α κ : Type} [DecidableEq κ] (key : α → κ) (weight : α → Nat)

def keys (items : List α) : Finset κ := (items.map key).toFinset

/-- The weight of the first item with a key. -/
def first (items : List α) (k : κ) : Nat := ((items.find? fun a => key a = k).map weight).getD 0

/-- The sum over the keys of the items that are not seen yet. -/
def total (seen : Finset κ) (items : List α) : Nat :=
  ∑ k ∈ keys key items \ seen, first key weight items k

variable {seen : Finset κ} {a : α} {items : List α}

@[simp] theorem keys_nil : keys key [] = ∅ := rfl

theorem keys_cons (a : α) (items : List α) : keys key (a :: items) = insert (key a) (keys key items) := by
  rw [keys, List.map_cons, List.toFinset_cons, keys]

theorem keys_append (items more : List α) :
    keys key (items ++ more) = keys key items ∪ keys key more := by
  rw [keys, List.map_append, List.toFinset_append, keys, keys]

theorem first_self (a : α) (items : List α) : first key weight (a :: items) (key a) = weight a := by
  simp [first]

theorem first_other {k : κ} (other : key a ≠ k) :
    first key weight (a :: items) k = first key weight items k := by
  simp [first, other]

@[simp] theorem total_nil (seen : Finset κ) : total key weight seen [] = 0 := by
  rw [total, keys_nil, Finset.empty_sdiff, Finset.sum_empty]

theorem total_cons_seen (already : key a ∈ seen) :
    total key weight seen (a :: items) = total key weight seen items := by
  rw [total, total, keys_cons, Finset.insert_sdiff_of_mem _ already]
  apply Finset.sum_congr rfl
  intro k mem
  have new := (Finset.mem_sdiff.mp mem).2
  exact first_other key weight fun same => new (same ▸ already)

theorem total_cons_new (new : key a ∉ seen) :
    total key weight seen (a :: items) =
      weight a + total key weight (insert (key a) seen) items := by
  have split : keys key (a :: items) \ seen =
      insert (key a) (keys key items \ insert (key a) seen) := by
    ext k
    rw [keys_cons, Finset.mem_sdiff, Finset.mem_insert, Finset.mem_insert, Finset.mem_sdiff,
      Finset.mem_insert]
    by_cases same : k = key a
    · rw [same]
      exact iff_of_true ⟨.inl rfl, new⟩ (.inl rfl)
    · simp [same]
  have absent : key a ∉ keys key items \ insert (key a) seen := by
    intro mem
    exact (Finset.mem_sdiff.mp mem).2 (Finset.mem_insert_self _ _)
  rw [total, split, Finset.sum_insert absent, total]
  congr 1
  · exact first_self key weight a items
  · apply Finset.sum_congr rfl
    intro k mem
    apply first_other
    intro same
    rw [← same] at mem
    exact absent mem

/-- What is met in the second part counts only if it is not in the first. -/
theorem total_append (seen : Finset κ) (items more : List α) :
    total key weight seen (items ++ more) =
      total key weight seen items + total key weight (seen ∪ keys key items) more := by
  induction items generalizing seen with
  | nil => simp
  | cons a items ih =>
    rw [List.cons_append, keys_cons]
    by_cases already : key a ∈ seen
    · rw [total_cons_seen key weight already, total_cons_seen key weight already, ih,
        Finset.union_insert, Finset.insert_eq_of_mem (Finset.mem_union_left _ already)]
    · rw [total_cons_new key weight already, total_cons_new key weight already, ih, Nat.add_assoc,
        Finset.union_insert, Finset.insert_union]

end FirstMet
