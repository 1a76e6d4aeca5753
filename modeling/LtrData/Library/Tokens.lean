import Mathlib.Algebra.Order.BigOperators.Group.Finset
import Mathlib.Data.Fintype.Basic

/-! ### Sums over the parties -/

variable {P L : Type} [Fintype P]

/-- What one party's change does to a sum over all of them. -/
theorem sum_change (p : P) {f g : P → Nat} (others : ∀ q, q ≠ p → g q = f q) :
    (∑ q, g q) + f p = (∑ q, f q) + g p := by
  classical
  rw [← Finset.add_sum_erase Finset.univ g (Finset.mem_univ p),
    ← Finset.add_sum_erase Finset.univ f (Finset.mem_univ p)]
  have same : ∑ q ∈ Finset.univ.erase p, g q = ∑ q ∈ Finset.univ.erase p, f q :=
    Finset.sum_congr rfl fun q member => others q (Finset.ne_of_mem_erase member)
  omega

/-! ### Tokens that lie free or are in somebody's hands -/

def Conserved (total free : L → Nat) (hand : P → L → Nat) : Prop :=
  ∀ l, free l + ∑ p, hand p l = total l

namespace Conserved

variable {total total' free free' : L → Nat} {hand hand' : P → L → Nat}

theorem change (conserved : Conserved total free hand) (p : P)
    (others : ∀ q, q ≠ p → hand' q = hand q)
    (own : ∀ l, free' l + hand' p l + total l = free l + hand p l + total' l) :
    Conserved total' free' hand' := by
  intro l
  have before := conserved l
  have here := own l
  have sums := sum_change p (f := fun q => hand q l) (g := fun q => hand' q l) fun q other =>
    congrFun (others q other) l
  omega

/-- Tokens that come into being lie free. -/
theorem lay (conserved : Conserved total free hand)
    (own : ∀ l, free' l + total l = free l + total' l) : Conserved total' free' hand := by
  intro l
  have before := conserved l
  have here := own l
  omega

theorem free_le (conserved : Conserved total free hand) (l : L) : free l ≤ total l := by
  have whole := conserved l
  omega

/-- Two parties do not hold the only token of a kind. -/
theorem exclusive (conserved : Conserved total free hand) {p q : P} (other : q ≠ p) {l : L}
    (single : total l ≤ 1) : hand p l = 0 ∨ hand q l = 0 := by
  classical
  have whole := conserved l
  have pair : hand p l + hand q l ≤ ∑ r, hand r l := by
    rw [← Finset.add_sum_erase Finset.univ (fun r => hand r l) (Finset.mem_univ p)]
    have second : hand q l ≤ ∑ r ∈ Finset.univ.erase p, hand r l :=
      Finset.single_le_sum (f := fun r => hand r l) (fun _ _ => Nat.zero_le _)
        (Finset.mem_erase.mpr ⟨other, Finset.mem_univ q⟩)
    exact Nat.add_le_add_left second _
  omega

/-- A token that does not lie free is in somebody's hands. -/
theorem exists_holder (conserved : Conserved total free hand) {l : L} (there : total l ≠ 0)
    (taken : free l = 0) : ∃ p, hand p l ≠ 0 := by
  by_contra nobody
  push Not at nobody
  have whole := conserved l
  rw [taken, Finset.sum_eq_zero fun p _ => nobody p] at whole
  exact there whole.symm

end Conserved

/-! ### Waiting in an order -/

omit [Fintype P] in
/-- Nobody waits where each awaited token is held by somebody who waits in turn, for a token of a
    higher rank than those he holds. -/
theorem not_waits_in_order {waits holds : P → L → Prop} (rank : L → Nat)
    (ordered : ∀ p l m, holds p l → waits p m → rank l < rank m)
    (held : ∀ p l, waits p l → ∃ q, holds q l) (busy : ∀ p l, holds p l → ∃ m, waits p m)
    (bound : Nat) (bounded : ∀ l, rank l ≤ bound) (p : P) (l : L) : ¬waits p l := by
  -- the rank of what is waited for grows from holder to holder
  generalize left : bound - rank l = n
  induction n using Nat.strongRecOn generalizing p l with
  | _ n ih =>
    intro waiting
    obtain ⟨q, holding⟩ := held p l waiting
    obtain ⟨m, next⟩ := busy q l holding
    have higher := ordered q l m holding next
    have atMost := bounded m
    exact ih (bound - rank m) (by omega) q m rfl next
