import Mathlib.Data.List.Nodup
import Mathlib.Logic.Function.Basic

/-- The cells from a pointer on along the links, up to the null pointer. -/
def Chain {α : Type} (next : α → Option α) : Option α → List α → Prop
  | p, [] => p = none
  | p, a :: cells => p = some a ∧ Chain next (next a) cells

namespace Chain

variable {α : Type} {next : α → Option α} {p : Option α} {a b : α} {cells front back : List α}

theorem push (chain : Chain next (next a) cells) : Chain next (some a) (a :: cells) := ⟨rfl, chain⟩

theorem of_none (chain : Chain next none cells) : cells = [] := by
  cases cells with
  | nil => rfl
  | cons a cells => cases chain.1

theorem of_some (chain : Chain next (some a) cells) :
    ∃ rest, cells = a :: rest ∧ Chain next (next a) rest := by
  cases cells with
  | nil => cases chain
  | cons b rest =>
    obtain ⟨same, rest⟩ := chain
    cases same
    exact ⟨_, rfl, rest⟩

theorem unique {cells' : List α} (chain : Chain next p cells) (chain' : Chain next p cells') :
    cells = cells' := by
  induction cells generalizing p cells' with
  | nil =>
    rw [show p = none from chain] at chain'
    exact chain'.of_none.symm
  | cons a rest ih =>
    rw [chain.1] at chain'
    obtain ⟨rest', whole, chain'⟩ := chain'.of_some
    rw [whole, ih chain.2 chain']

theorem drop (chain : Chain next p (front ++ a :: back)) : Chain next (next a) back := by
  induction front generalizing p with
  | nil => exact chain.2
  | cons b front ih => exact ih chain.2

variable [DecidableEq α]

theorem update (chain : Chain next p cells) (outside : a ∉ cells) (q : Option α) :
    Chain (Function.update next a q) p cells := by
  induction cells generalizing p with
  | nil => exact chain
  | cons b rest ih =>
    obtain ⟨notHead, notRest⟩ := not_or.mp (mt List.mem_cons.mpr outside)
    refine ⟨chain.1, ?_⟩
    rw [Function.update_of_ne (Ne.symm notHead)]
    exact ih chain.2 notRest

theorem unlink (chain : Chain next p (front ++ a :: b :: back))
    (nodup : (front ++ a :: b :: back).Nodup) :
    Chain (Function.update next a (next b)) p (front ++ a :: back) := by
  induction front generalizing p with
  | nil =>
    have notBack : a ∉ back := fun there =>
      (List.nodup_cons.mp nodup).1 (List.mem_cons_of_mem b there)
    refine ⟨chain.1, ?_⟩
    rw [Function.update_self]
    exact (chain.2.2).update notBack _
  | cons c front ih =>
    obtain ⟨notRest, rest⟩ := List.nodup_cons.mp nodup
    have apart : c ≠ a := by
      intro same
      apply notRest
      rw [same]
      simp
    refine ⟨chain.1, ?_⟩
    rw [Function.update_of_ne apart]
    exact ih chain.2 rest

end Chain
