import LtrData.Xcopynt.Placement
import Mathlib.Algebra.Ring.Nat
import Mathlib.Data.Finset.Card
import Mathlib.Data.List.Infix
import Mathlib.Data.Set.Finite.Lattice

namespace Xcopynt

variable {Name Content : Type} {i : Input Name Content} {tree tree' : DirectoryTree Name Content}
  {path : List Name} {node : Node Content} {f : Frame Name Content}
  {frames : List (Frame Name Content)} {x : Name}

/-! ### What the target names from below the start directory -/

theorem foldl_shape (components : List (Component Name)) (up : Nat) (down : List Name) :
    ∃ up' down', ∀ current : List Name,
      components.foldl Component.from (current.take (current.length - up) ++ down) =
        current.take (current.length - up') ++ down' := by
  induction components generalizing up down with
  | nil => exact ⟨up, down, fun _ => rfl⟩
  | cons component components ih =>
    cases component with
    | here => exact ih up down
    | up =>
      by_cases top : down = []
      · obtain ⟨up', down', shape⟩ := ih (up + 1) []
        refine ⟨up', down', fun current => ?_⟩
        rw [← shape, top, List.append_nil, List.append_nil]
        show components.foldl _ (current.take _).dropLast = _
        rw [List.dropLast_eq_take, List.take_take, List.length_take]
        congr 2
        omega
      · obtain ⟨up', down', shape⟩ := ih up down.dropLast
        refine ⟨up', down', fun current => ?_⟩
        rw [← shape]
        show components.foldl _ (_ ++ down).dropLast = _
        rw [List.dropLast_append_of_ne_nil top]
    | name y =>
      obtain ⟨up', down', shape⟩ := ih up (down ++ [y])
      refine ⟨up', down', fun current => ?_⟩
      rw [← shape, ← List.append_assoc]
      rfl

theorem resolve_relative (components : List (Component Name)) :
    ∃ up down, ∀ current : List Name, (Target.relative components).resolve current =
      current.take (current.length - up) ++ down := by
  obtain ⟨up, down, shape⟩ := foldl_shape components 0 []
  refine ⟨up, down, fun current => ?_⟩
  have shape := shape current
  rw [Nat.sub_zero, List.take_length, List.append_nil] at shape
  exact shape

theorem same_below {up : Nat} {down start path : List Name}
    (same : (start ++ path).take ((start ++ path).length - up) ++ down =
      start.take (start.length - up) ++ down) : path = [] ∨ start.length + path.length ≤ up := by
  have lengths := congrArg List.length same
  simp only [List.length_append, List.length_take] at lengths
  cases path with
  | nil => exact .inl rfl
  | cons x rest =>
    rw [List.length_cons] at *
    omega

theorem resolve_shorter {target : Target Name} {start path other : List Name}
    (same : target.resolve (start ++ path) = target.resolve start)
    (shorter : other.length ≤ path.length) :
    target.resolve (start ++ other) = target.resolve start := by
  cases target with
  | absolute => rfl
  | relative components =>
    obtain ⟨up, down, shape⟩ := resolve_relative components
    rw [shape, shape] at same
    rw [shape, shape]
    rcases same_below same with whole | top
    · rw [whole] at shorter
      rw [List.eq_nil_of_length_eq_zero (Nat.le_zero.mp shorter), List.append_nil]
    · rw [List.length_append]
      have otherTop : start.length + other.length - up = 0 := by omega
      have startTop : start.length - up = 0 := by omega
      rw [otherTop, startTop, List.take_zero, List.take_zero]

/-! ### The entries left to visit -/

section measure

open scoped Classical in
/-- The paths of a set that an activation has still to go through. -/
noncomputable def remaining (U : Finset (List Name)) (f : Frame Name Content) : Nat :=
  (U.filter fun path => Pending path f).card

noncomputable def work (U : Finset (List Name)) (frames : List (Frame Name Content)) : Nat :=
  (frames.map fun f => 2 * remaining U f + 1).sum

/-- A visit takes its path and those below it from the activation. -/
theorem remaining_visit {U : Finset (List Name)} (new : x ∉ f.seen) (there : f.dir ++ [x] ∈ U)
    (tree : DirectoryTree Name Content) :
    remaining U { f with seen := x :: f.seen } + remaining U ⟨f.dir ++ [x], tree, []⟩ + 1 ≤
      remaining U f := by
  classical
  unfold remaining
  set later := U.filter fun path => Pending path { f with seen := x :: f.seen } with laterIs
  set below := U.filter fun path => Pending path (⟨f.dir ++ [x], tree, []⟩ : Frame Name Content)
    with belowIs
  have laterPending : ∀ path ∈ later, Pending path f ∧ ∀ rest, path ≠ f.dir ++ x :: rest := by
    intro path there
    obtain ⟨y, rest, whole, unseen⟩ := (Finset.mem_filter.mp there).2
    have unseen : y ∉ x :: f.seen := unseen
    refine ⟨⟨y, rest, whole, fun seen => unseen (List.mem_cons_of_mem x seen)⟩, ?_⟩
    intro rest' same
    rw [whole] at same
    have heads := List.append_cancel_left same
    cases heads
    exact unseen List.mem_cons_self
  have belowPending : ∀ path ∈ below, ∃ y rest, path = f.dir ++ x :: y :: rest := by
    intro path there
    obtain ⟨y, rest, whole, -⟩ := (Finset.mem_filter.mp there).2
    refine ⟨y, rest, ?_⟩
    rw [whole, List.append_assoc]
    rfl
  have ownFresh : f.dir ++ [x] ∉ below := by
    intro own
    obtain ⟨y, rest, whole⟩ := belowPending _ own
    cases List.append_cancel_left whole
  have disjoint : Disjoint later (insert (f.dir ++ [x]) below) := by
    apply Finset.disjoint_left.mpr
    intro path isLater isBelow
    have apart := (laterPending path isLater).2
    rcases Finset.mem_insert.mp isBelow with own | isBelow
    · exact apart [] own
    · obtain ⟨y, rest, whole⟩ := belowPending path isBelow
      exact apart (y :: rest) whole
  have inside : later ∪ insert (f.dir ++ [x]) below ⊆ U.filter fun path => Pending path f := by
    intro path isThere
    rcases Finset.mem_union.mp isThere with isLater | isBelow
    · exact Finset.mem_filter.mpr
        ⟨(Finset.mem_filter.mp isLater).1, (laterPending path isLater).1⟩
    · rcases Finset.mem_insert.mp isBelow with own | isBelow
      · rw [own]
        exact Finset.mem_filter.mpr ⟨there, x, [], rfl, new⟩
      · obtain ⟨y, rest, whole⟩ := belowPending path isBelow
        exact Finset.mem_filter.mpr
          ⟨(Finset.mem_filter.mp isBelow).1, x, y :: rest, whole, new⟩
  have cards := Finset.card_le_card inside
  rw [Finset.card_union_of_disjoint disjoint, Finset.card_insert_of_notMem ownFresh] at cards
  exact cards

theorem work_visit {U : Finset (List Name)} (new : x ∉ f.seen) (there : f.dir ++ [x] ∈ U) :
    work U (pushed f x tree' node ++ { f with seen := x :: f.seen } :: frames) <
      work U (f :: frames) := by
  have visited := remaining_visit new there tree'
  unfold work
  cases node with
  | directory =>
    show (List.map _ (_ :: _ :: frames)).sum < _
    simp only [List.map_cons, List.sum_cons]
    omega
  | file =>
    show (List.map _ (_ :: frames)).sum < _
    simp only [List.map_cons, List.sum_cons]
    omega

theorem work_finish (U : Finset (List Name)) : work U frames < work U (f :: frames) := by
  unfold work
  simp only [List.map_cons, List.sum_cons]
  omega

end measure

end Xcopynt
