import Mathlib.Data.Set.Finite.List
import Mathlib.Logic.Function.Basic

/-- What stands at a path. -/
inductive Node (Content : Type)
  | directory
  | file (content : Content)
deriving DecidableEq

/-- The paths from the root of a volume on. -/
abbrev DirectoryTree (Name Content : Type) := List Name → Option (Node Content)

namespace DirectoryTree

variable {Name Content : Type} {t t' t'' : DirectoryTree Name Content} {path rest : List Name}
  {node : Node Content}

/-- Every entry stands in a directory. -/
structure Rooted (t : DirectoryTree Name Content) : Prop where
  root : t [] = some .directory
  parents : ∀ path x, t (path ++ [x]) ≠ none → t path = some .directory

def Grows (t t' : DirectoryTree Name Content) : Prop :=
  ∀ path node, t path = some node → t' path = some node

theorem Grows.refl (t : DirectoryTree Name Content) : t.Grows t := fun _ _ there => there

theorem Grows.trans (first : t.Grows t') (second : t'.Grows t'') : t.Grows t'' :=
  fun path node there => second path node (first path node there)

theorem Grows.exists (grows : t.Grows t') (there : t path ≠ none) : t' path = t path := by
  obtain ⟨node, there⟩ := Option.ne_none_iff_exists'.mp there
  rw [there]
  exact grows path node there

theorem Rooted.above (rooted : t.Rooted) (there : t (path ++ rest) ≠ none) (below : rest ≠ []) :
    t path = some .directory := by
  induction rest generalizing path with
  | nil => exact absurd rfl below
  | cons x rest ih =>
    rw [← List.singleton_append, ← List.append_assoc] at there
    by_cases last : rest = []
    · rw [last, List.append_nil] at there
      exact rooted.parents path x there
    · apply rooted.parents path x
      rw [ih there last]
      exact nofun

variable [DecidableEq Name]

def add (t : DirectoryTree Name Content) (path : List Name) (node : Node Content) :
    DirectoryTree Name Content :=
  Function.update t path (some node)

theorem add_self : t.add path node path = some node := Function.update_self ..

theorem add_other {other : List Name} (differs : other ≠ path) :
    t.add path node other = t other := Function.update_of_ne differs ..

theorem grows_add (absent : t path = none) : t.Grows (t.add path node) := by
  intro other there isThere
  rw [add_other]
  · exact isThere
  · intro same
    rw [same, absent] at isThere
    cases isThere

theorem Rooted.add (rooted : t.Rooted) (absent : t path = none)
    (parent : t path.dropLast = some .directory) : (t.add path node).Rooted where
  root := grows_add absent [] .directory rooted.root
  parents above x there := by
    apply grows_add absent
    by_cases new : above ++ [x] = path
    · rw [← new, List.dropLast_concat] at parent
      exact parent
    · rw [add_other new] at there
      exact rooted.parents above x there

/-! ### Trees given by their entries -/

def ofEntries (entries : List (List Name × Node Content)) : DirectoryTree Name Content :=
  fun path => entries.lookup path

variable {entries : List (List Name × Node Content)}

theorem mem_of_ofEntries (there : ofEntries entries path ≠ none) : path ∈ entries.map Prod.fst := by
  unfold ofEntries at there
  induction entries with
  | nil => exact absurd rfl there
  | cons entry entries ih =>
    rw [List.lookup_cons] at there
    by_cases same : path = entry.1
    · rw [same]
      exact List.mem_cons_self
    · rw [beq_false_of_ne same] at there
      exact List.mem_cons_of_mem _ (ih there)

theorem rooted_ofEntries (root : ofEntries entries [] = some .directory)
    (parents : ∀ path ∈ entries.map Prod.fst, ofEntries entries path.dropLast = some .directory) :
    (ofEntries entries).Rooted where
  root := root
  parents path x there := by
    have parent := parents _ (mem_of_ofEntries there)
    rw [List.dropLast_concat] at parent
    exact parent

theorem finite_ofEntries (start : List Name) :
    {path | ofEntries entries (start ++ path) ≠ none}.Finite := by
  have inside : {path | ofEntries entries (start ++ path) ≠ none} ⊆
      Set.preimage (start ++ ·) {path | path ∈ entries.map Prod.fst} :=
    fun _ there => mem_of_ofEntries there
  apply Set.Finite.subset _ inside
  exact Set.Finite.preimage (fun _ _ _ _ same => List.append_cancel_left same)
    (List.finite_toSet _)

end DirectoryTree
