import Mathlib.Data.List.Basic
import Mathlib.Data.List.Nodup

/-! The nodes of a tree of names, each before those below it. -/

namespace TreeWalk

variable {N : Type}

/-- The nodes from a path on, down to so many levels. -/
def walk (children : List N → List N) : Nat → List N → List (List N)
  | 0, _ => []
  | levels + 1, path =>
    path :: (children path).flatMap fun name => walk children levels (path ++ [name])

/-- No more levels than these are below a path. -/
def Fits (children : List N → List N) : Nat → List N → Prop
  | 0, _ => False
  | levels + 1, path => ∀ name ∈ children path, Fits children levels (path ++ [name])

variable {children : List N → List N} {levels : Nat} {path p : List N} {name other : N}

theorem fits_of_bounded {depth : Nat} (bounded : ∀ path, depth ≤ path.length → children path = [])
    (levels : Nat) (path : List N) (enough : depth < levels + path.length) (some_ : 0 < levels) :
    Fits children levels path := by
  induction levels generalizing path with
  | zero => exact absurd some_ (Nat.lt_irrefl 0)
  | succ levels ih =>
    intro name mem
    have inside : path.length < depth := by
      by_contra outside
      rw [bounded path (Nat.not_lt.mp outside)] at mem
      cases mem
    apply ih
    · rw [List.length_append, List.length_singleton]
      omega
    · omega

theorem walk_succ (children : List N → List N) (levels : Nat) (path : List N) :
    walk children (levels + 1) path =
      path :: (children path).flatMap fun name => walk children levels (path ++ [name]) := rfl

theorem mem_walk (fits : Fits children levels path) : path ∈ walk children levels path := by
  cases levels with
  | zero => exact absurd fits id
  | succ levels => exact List.mem_cons_self

theorem prefix_of_mem (mem : p ∈ walk children levels path) : path <+: p := by
  induction levels generalizing path with
  | zero => cases mem
  | succ levels ih =>
    rw [walk_succ] at mem
    rcases List.mem_cons.mp mem with same | below
    · subst same
      exact List.prefix_rfl
    · obtain ⟨name, -, inside⟩ := List.mem_flatMap.mp below
      exact (List.prefix_append path [name]).trans (ih inside)

/-- What is below one child is not below another, and no child is above its parent. -/
theorem apart (different : name ≠ other) (mem : p ∈ walk children levels (path ++ [name])) :
    p ∉ walk children levels (path ++ [other]) := by
  intro again
  obtain ⟨rest, first⟩ := prefix_of_mem mem
  obtain ⟨rest', second⟩ := prefix_of_mem again
  rw [← first, List.append_assoc, List.append_assoc] at second
  exact different (List.cons.inj (List.append_cancel_left second)).1.symm

/-- What is below one child is not below one of the others. -/
theorem notMem_others {others : List N} (absent : name ∉ others)
    (mem : p ∈ walk children levels (path ++ [name])) :
    p ∉ others.flatMap fun other => walk children levels (path ++ [other]) := by
  intro again
  obtain ⟨other, isOther, inside⟩ := List.mem_flatMap.mp again
  exact apart (fun same : name = other => absent (same ▸ isOther)) mem inside

theorem path_notMem_below : path ∉ walk children levels (path ++ [name]) := by
  intro mem
  have longer := (prefix_of_mem mem).length_le
  rw [List.length_append, List.length_singleton] at longer
  omega

theorem walk_nodup (distinct : ∀ path, (children path).Nodup) (levels : Nat) (path : List N) :
    (walk children levels path).Nodup := by
  induction levels generalizing path with
  | zero => exact List.nodup_nil
  | succ levels ih =>
    rw [walk_succ, List.nodup_cons]
    refine ⟨?_, ?_⟩
    · intro mem
      obtain ⟨name, -, inside⟩ := List.mem_flatMap.mp mem
      exact path_notMem_below inside
    · rw [List.nodup_flatMap]
      refine ⟨fun name _ => ih (path ++ [name]), ?_⟩
      apply (distinct path).imp
      intro name other different p first second
      exact apart different first second

end TreeWalk
