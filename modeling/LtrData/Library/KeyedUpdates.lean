import Mathlib.Logic.Function.Basic
import Mathlib.Order.WithBot

namespace KeyedUpdates

variable {A K V : Type}

/-! ### A map of which every update changes the value of one key -/

section Fold

variable [DecidableEq K] (key : A → K) (g : A → V → V)

def updated (m : K → V) (a : A) : K → V := Function.update m (key a) (g a (m (key a)))

/-- The value of a key is what the updates of that key make of it, in their order. -/
theorem foldl_updated (list : List A) (m : K → V) (k : K) :
    list.foldl (updated key g) m k =
      (list.filter fun a => key a = k).foldl (fun v a => g a v) (m k) := by
  induction list generalizing m with
  | nil => rfl
  | cons a rest ih =>
    rw [List.foldl_cons, ih]
    unfold updated
    by_cases own : key a = k
    · rw [List.filter_cons_of_pos (by simpa using own), List.foldl_cons, ← own, Function.update_self]
    · rw [List.filter_cons_of_neg (by simpa using own), Function.update_of_ne (Ne.symm own)]

end Fold

/-! ### Updates that only go forward -/

section Newest

variable {T : Type} [LinearOrder T] {g : A → V → V} {stamp : A → T} {rank : V → WithBot T}
  {kept : A → Prop} {ok : V → Prop}

/-- An update with a stamp that is not above the rank of the value does nothing, any other gives
    the value its stamp. -/
structure Forward (g : A → V → V) (stamp : A → T) (rank : V → WithBot T) (kept : A → Prop)
    (ok : V → Prop) : Prop where
  keeps : ∀ a v, kept a → ok v → ok (g a v)
  skips : ∀ a v, kept a → ok v → (stamp a : WithBot T) ≤ rank v → g a v = v
  takes : ∀ a v, kept a → ok v → rank v < stamp a → rank (g a v) = stamp a

theorem Forward.older (forward : Forward g stamp rank kept ok) {list : List A} {t : T} {v : V}
    (all : ∀ a ∈ list, kept a) (fine : ok v) (below : rank v < t) (older : ∀ a ∈ list, stamp a < t) :
    ok (list.foldl (fun v a => g a v) v) ∧ rank (list.foldl (fun v a => g a v) v) < t := by
  induction list generalizing v with
  | nil => exact ⟨fine, below⟩
  | cons a rest ih =>
    have kept_a := all a List.mem_cons_self
    apply ih (fun b mem => all b (List.mem_cons_of_mem _ mem)) (forward.keeps a v kept_a fine) ?_
      fun b mem => older b (List.mem_cons_of_mem _ mem)
    rcases le_or_gt (stamp a : WithBot T) (rank v) with not_newer | newer
    · rwa [forward.skips a v kept_a fine not_newer]
    · rw [forward.takes a v kept_a fine newer]
      exact WithBot.coe_lt_coe.mpr (older a List.mem_cons_self)

theorem Forward.stays (forward : Forward g stamp rank kept ok) {list : List A} {v : V}
    (all : ∀ a ∈ list, kept a) (fine : ok v)
    (older : ∀ a ∈ list, (stamp a : WithBot T) ≤ rank v) : list.foldl (fun v a => g a v) v = v := by
  induction list with
  | nil => rfl
  | cons a rest ih =>
    rw [List.foldl_cons, forward.skips a v (all a List.mem_cons_self) fine (older a List.mem_cons_self)]
    exact ih (fun b mem => all b (List.mem_cons_of_mem _ mem))
      fun b mem => older b (List.mem_cons_of_mem _ mem)

/-- Wherever the newest update stands, it is the last one that does something. -/
theorem Forward.newest (forward : Forward g stamp rank kept ok) {before after : List A} {best : A}
    {v : V} (all : ∀ a ∈ before ++ best :: after, kept a) (fine : ok v) (below : rank v < stamp best)
    (first : ∀ a ∈ before, stamp a < stamp best) (last : ∀ a ∈ after, stamp a ≤ stamp best) :
    ∃ v', ok v' ∧ rank v' < stamp best ∧
      (before ++ best :: after).foldl (fun v a => g a v) v = g best v' := by
  have kept_best := all best (by simp)
  obtain ⟨fine', below'⟩ := forward.older (fun a mem => all a (by simp [mem])) fine below first
  refine ⟨_, fine', below', ?_⟩
  rw [List.foldl_append, List.foldl_cons]
  apply forward.stays (fun a mem => all a (by simp [mem])) (forward.keeps _ _ kept_best fine')
  intro a mem
  rw [forward.takes _ _ kept_best fine' below']
  exact WithBot.coe_le_coe.mpr (last a mem)

end Newest

end KeyedUpdates
