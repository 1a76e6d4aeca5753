import Mathlib.Data.List.Infix
import Mathlib.Logic.Function.Basic

namespace Regdump

abbrev Path := List Char

inductive Object
  | file
  | directory
deriving DecidableEq

inductive Error
  | ERROR_PATH_NOT_FOUND
  | ERROR_ALREADY_EXISTS
  | other
deriving DecidableEq

/-- How names are looked up on a file system: the location a path stands for, the location above
    one, and the names for which CreateDirectory fails with an error of its own. -/
structure Names (Location : Type) where
  resolve : Path → Location
  parent : Location → Option Location
  refused : Path → Bool

abbrev Objects (Location : Type) := Location → Option Object

section

variable {Location : Type} [DecidableEq Location]

def CreateDirectory (n : Names Location) (objects : Objects Location) (path : Path) :
    Except Error (Objects Location) :=
  if n.refused path then .error .other
  else
    match objects (n.resolve path) with
    | some _ => .error .ERROR_ALREADY_EXISTS
    | none =>
      if (n.parent (n.resolve path)).bind objects = some .directory then
        .ok (Function.update objects (n.resolve path) (some .directory))
      else .error .ERROR_PATH_NOT_FOUND

/-- What is left of a path when its last separator becomes the end. -/
def strrchr (path : Path) : Option Path :=
  if '\\' ∈ path then some ((path.reverse.dropWhile (· ≠ '\\')).drop 1).reverse else none

theorem strrchr_spec {path front : Path} (cut : strrchr path = some front) :
    ∃ rest, path = front ++ '\\' :: rest := by
  rw [strrchr] at cut
  split at cut
  · next mem =>
    have found : '\\' ∈ path.reverse := List.mem_reverse.mpr mem
    obtain ⟨behind, before, split, absent⟩ := List.eq_append_cons_of_mem found
    have clean : ∀ c ∈ behind, decide (c ≠ '\\') = true :=
      fun c mem => decide_eq_true fun same => absent (same ▸ mem)
    have stop : ¬ decide ('\\' ≠ '\\') = true := by decide
    rw [split, List.dropWhile_append_of_pos clean,
      List.dropWhile_cons_of_neg (p := fun c => decide (c ≠ '\\')) stop] at cut
    have front_eq := Option.some.inj cut
    refine ⟨behind.reverse, ?_⟩
    rw [← List.reverse_reverse path, split, ← front_eq]
    simp
  · cases cut

theorem strrchr_shorter {path front : Path} (cut : strrchr path = some front) :
    front.length < path.length := by
  obtain ⟨rest, rfl⟩ := strrchr_spec cut
  rw [List.length_append, List.length_cons]
  omega

/-- The loop that cuts NewPath. It gives NewPath as it is left, with the directory it has created. -/
def cutLoop (n : Names Location) (objects : Objects Location) (NewPath : Path) :
    Path × Option (Objects Location) :=
  match _cut : strrchr NewPath with
  | none => (NewPath, none)
  | some front =>
    match CreateDirectory n objects front with
    | .ok objects => (front, some objects)
    | .error _ => cutLoop n objects front
termination_by NewPath.length
decreasing_by exact strrchr_shorter ‹_›

/-- strchr and the loop around it. -/
def backslashes (path : Path) : Path := path.map fun c => if c = '/' then '\\' else c

/-- The endless loop, up to a number of rounds. strdup fails in some rounds. -/
def pathLoop (n : Names Location) (strdup : Nat → Bool) (path : Path) :
    Nat → Nat → Objects Location → Option (Bool × Objects Location)
  | 0, _, _ => none
  | fuel + 1, round, objects =>
    match CreateDirectory n objects path with
    | .ok objects => some (true, objects)
    | .error .ERROR_ALREADY_EXISTS => some (true, objects)
    | .error .other => some (false, objects)
    | .error .ERROR_PATH_NOT_FOUND =>
      if strdup round then
        match cutLoop n objects (backslashes path) with
        -- lpSep is not NULL where a directory above has been created
        | (_, some objects) => pathLoop n strdup path fuel (round + 1) objects
        | (NewPath, none) =>
          match CreateDirectory n objects NewPath with
          | .ok objects => pathLoop n strdup path fuel (round + 1) objects
          | .error _ => some (false, objects)
      else some (false, objects)

def CreateDirectoryPath (n : Names Location) (strdup : Nat → Bool) (objects : Objects Location)
    (path : Path) : Option (Bool × Objects Location) :=
  pathLoop n strdup path (path.length + 2) 0 objects

/-- The paths that a path has above it, and the path itself. -/
def AtOrAbove (path above : Path) : Prop :=
  above = path ∨ ∃ rest, backslashes path = above ++ '\\' :: rest

/-- Nothing has changed but for directories created at or above the path. -/
def OnlyAbove (n : Names Location) (path : Path) (before after : Objects Location) : Prop :=
  ∀ location, after location ≠ before location →
    before location = none ∧ after location = some .directory ∧
      ∃ above, AtOrAbove path above ∧ n.resolve above = location

/-- The function comes to its end, creates nothing else and says whether there is a directory. -/
def Right (n : Names Location) (strdup : Nat → Bool) (objects : Objects Location) (path : Path) :
    Prop :=
  ∃ result after, CreateDirectoryPath n strdup objects path = some (result, after) ∧
    OnlyAbove n path objects after ∧
    (result = true ↔ after (n.resolve path) = some .directory)

/-- No file of that name that CreateDirectory finds, and no directory that it does not. -/
def Plain (n : Names Location) (objects : Objects Location) (path : Path) : Prop :=
  (objects (n.resolve path) = some .file → n.refused path = true) ∧
    (objects (n.resolve path) = some .directory → n.refused path = false)

variable {n : Names Location} {objects after : Objects Location} {path : Path}

theorem CreateDirectory_ok (run : CreateDirectory n objects path = .ok after) :
    objects (n.resolve path) = none ∧
      after = Function.update objects (n.resolve path) (some .directory) := by
  rw [CreateDirectory] at run
  split at run
  · cases run
  · split at run
    · cases run
    · next absent =>
      split at run
      · cases run
        exact ⟨absent, rfl⟩
      · cases run

omit [DecidableEq Location] in
theorem OnlyAbove.refl (n : Names Location) (path : Path) (objects : Objects Location) :
    OnlyAbove n path objects objects := fun _ differs => absurd rfl differs

theorem OnlyAbove.created {above : Path} (place : AtOrAbove path above)
    (run : CreateDirectory n objects above = .ok after) : OnlyAbove n path objects after := by
  obtain ⟨absent, rfl⟩ := CreateDirectory_ok run
  intro location differs
  by_cases same : location = n.resolve above
  · rw [same] at differs ⊢
    exact ⟨absent, Function.update_self .., above, place, rfl⟩
  · rw [Function.update_of_ne same] at differs
    exact absurd rfl differs

omit [DecidableEq Location] in
theorem OnlyAbove.trans {later : Objects Location} (first : OnlyAbove n path objects after)
    (second : OnlyAbove n path after later) : OnlyAbove n path objects later := by
  intro location differs
  by_cases same : later location = after location
  · rw [same] at differs ⊢
    exact first location differs
  · have ⟨absent, made, above⟩ := second location same
    by_cases kept : after location = objects location
    · exact ⟨kept ▸ absent, made, above⟩
    · obtain ⟨-, there, -⟩ := first location kept
      rw [there] at absent
      cases absent

/-- A directory that the loop creates is named by a front of NewPath, as is what the loop leaves. -/
theorem cutLoop_spec (n : Names Location) (objects : Objects Location) (NewPath : Path) :
    (∀ left after, cutLoop n objects NewPath = (left, some after) →
      ∃ front rest, NewPath = front ++ '\\' :: rest ∧ CreateDirectory n objects front = .ok after) ∧
    (∀ left, cutLoop n objects NewPath = (left, none) →
      (left = NewPath ∧ '\\' ∉ NewPath) ∨ ∃ rest, NewPath = left ++ '\\' :: rest) := by
  induction NewPath using cutLoop.induct n objects with
  | case1 NewPath cut =>
    have absent : '\\' ∉ NewPath := by
      intro mem
      rw [strrchr, if_pos mem] at cut
      cases cut
    rw [cutLoop]
    split
    · refine ⟨fun left after run => (by cases run), fun left run => ?_⟩
      cases run
      exact .inl ⟨rfl, absent⟩
    · next found =>
      rw [cut] at found
      cases found
  | case2 NewPath front cut after made =>
    obtain ⟨rest, split_⟩ := strrchr_spec cut
    rw [cutLoop]
    split
    · next found =>
      rw [cut] at found
      cases found
    · next found =>
      rw [cut] at found
      cases found
      rw [made]
      refine ⟨fun left later run => ?_, fun left run => (by cases run)⟩
      cases run
      exact ⟨front, rest, split_, made⟩
  | case3 NewPath front cut error failed ih =>
    obtain ⟨rest, split_⟩ := strrchr_spec cut
    have ⟨create, leave⟩ := ih
    rw [cutLoop]
    split
    · next found =>
      rw [cut] at found
      cases found
    · next found =>
      rw [cut] at found
      cases found
      rw [failed]
      constructor
      · intro left after run
        obtain ⟨shorter, more, front_eq, made⟩ := create left after run
        refine ⟨shorter, more ++ '\\' :: rest, ?_, made⟩
        rw [split_, front_eq]
        simp
      · intro left run
        rcases leave left run with ⟨rfl, -⟩ | ⟨more, front_eq⟩
        · exact .inr ⟨rest, split_⟩
        · refine .inr ⟨more ++ '\\' :: rest, ?_⟩
          rw [split_, front_eq]
          simp

/-- The paths above that are there not yet. -/
def missing (n : Names Location) (path : Path) (objects : Objects Location) : Nat :=
  ((backslashes path).inits).countP fun above => (objects (n.resolve above)).isNone

omit [DecidableEq Location] in
theorem missing_le (n : Names Location) (path : Path) (objects : Objects Location) :
    missing n path objects ≤ path.length + 1 := by
  have count := List.countP_le_length (p := fun above => (objects (n.resolve above)).isNone)
    (l := (backslashes path).inits)
  rw [List.length_inits, backslashes, List.length_map] at count
  exact count

theorem missing_created {above : Path} (place : above ∈ (backslashes path).inits)
    (run : CreateDirectory n objects above = .ok after) :
    missing n path after < missing n path objects := by
  obtain ⟨absent, rfl⟩ := CreateDirectory_ok run
  obtain ⟨before, behind, split_⟩ := List.append_of_mem place
  have fewer (paths : List Path) :
      paths.countP (fun above_ => (Function.update objects (n.resolve above) (some .directory)
        (n.resolve above_)).isNone) ≤ paths.countP fun above_ => (objects (n.resolve above_)).isNone := by
    apply List.countP_mono_left
    intro above_ _ none_
    by_cases same : n.resolve above_ = n.resolve above
    · rw [same, absent]
      rfl
    · rwa [Function.update_of_ne same] at none_
  have front := fewer before
  have back := fewer behind
  rw [missing, missing, split_, List.countP_append, List.countP_append, List.countP_cons_of_neg,
    List.countP_cons_of_pos]
  · omega
  · rw [absent]
    rfl
  · rw [Function.update_self]
    decide

theorem cutLoop_left {left : Path} (run : cutLoop n objects (backslashes path) = (left, none)) :
    AtOrAbove path left ∧ left ∈ (backslashes path).inits := by
  rcases (cutLoop_spec n objects (backslashes path)).2 left run with ⟨rfl, absent⟩ | ⟨rest, split_⟩
  · refine ⟨.inl ?_, (List.mem_inits _ _).mpr (List.prefix_refl _)⟩
    have same (c : Char) (mem : c ∈ path) : (if c = '/' then '\\' else c) = c := by
      apply if_neg
      intro slash
      apply absent
      rw [backslashes]
      exact List.mem_map.mpr ⟨c, mem, if_pos slash⟩
    rw [backslashes]
    exact (List.map_congr_left same).trans (List.map_id' path)
  · exact ⟨.inr ⟨rest, split_⟩, (List.mem_inits _ _).mpr ⟨_, split_.symm⟩⟩

theorem CreateDirectory_absent (accepted : n.refused path = false)
    (absent : objects (n.resolve path) = none) :
    (∃ after, CreateDirectory n objects path = .ok after) ∨
      CreateDirectory n objects path = .error .ERROR_PATH_NOT_FOUND := by
  rw [CreateDirectory, if_neg (Bool.eq_false_iff.mp accepted), absent]
  by_cases above : (n.parent (n.resolve path)).bind objects = some .directory
  · exact .inl ⟨_, if_pos above⟩
  · exact .inr (if_neg above)

theorem CreateDirectory_there (accepted : n.refused path = false)
    (there : objects (n.resolve path) ≠ none) :
    CreateDirectory n objects path = .error .ERROR_ALREADY_EXISTS := by
  obtain ⟨object, found⟩ := Option.ne_none_iff_exists'.mp there
  rw [CreateDirectory, if_neg (Bool.eq_false_iff.mp accepted), found]

/-- The loop ends as it should from where no file is in the way: every round but the last creates a
    missing directory. -/
theorem pathLoop_spec {strdup : Nat → Bool} (accepted : n.refused path = false) :
    ∀ (fuel round : Nat) (objects : Objects Location), objects (n.resolve path) ≠ some .file →
      missing n path objects < fuel →
      ∃ result after, pathLoop n strdup path fuel round objects = some (result, after) ∧
        OnlyAbove n path objects after ∧
        (result = true ↔ after (n.resolve path) = some .directory) := by
  intro fuel
  induction fuel with
  | zero => exact fun _ _ _ room => absurd room (Nat.not_lt_zero _)
  | succ fuel ih =>
    intro round objects clear room
    -- a further round, after a directory above has been created
    have again {above : Path} {after : Objects Location} (place : AtOrAbove path above)
        (front : above ∈ (backslashes path).inits)
        (made : CreateDirectory n objects above = .ok after) :
        ∃ result later, pathLoop n strdup path fuel (round + 1) after = some (result, later) ∧
          OnlyAbove n path objects later ∧
          (result = true ↔ later (n.resolve path) = some .directory) := by
      have fewer := missing_created front made
      have changed := OnlyAbove.created place made
      have clear_ : after (n.resolve path) ≠ some .file := by
        intro file
        by_cases same : after (n.resolve path) = objects (n.resolve path)
        · exact clear (same ▸ file)
        · obtain ⟨-, directory, -⟩ := changed _ same
          rw [file] at directory
          cases directory
      obtain ⟨result, later, run, kept, means⟩ := ih (round + 1) after clear_ (by omega)
      exact ⟨result, later, run, changed.trans kept, means⟩
    rw [pathLoop]
    by_cases absent : objects (n.resolve path) = none
    · rcases CreateDirectory_absent accepted absent with ⟨after, made⟩ | failed
      · have ⟨_, after_eq⟩ := CreateDirectory_ok made
        rw [made]
        refine ⟨true, after, rfl, OnlyAbove.created (.inl rfl) made, ?_⟩
        rw [after_eq, Function.update_self]
        exact iff_of_true rfl rfl
      · have fails : false = true ↔ objects (n.resolve path) = some .directory := by
          rw [absent]
          decide
        rw [failed]
        cases strdup round with
        | false => exact ⟨false, objects, rfl, OnlyAbove.refl n path objects, fails⟩
        | true =>
          rw [if_pos rfl]
          rcases cut : cutLoop n objects (backslashes path) with ⟨NewPath, made | after⟩
          · have ⟨place, front⟩ := cutLoop_left cut
            dsimp only
            rcases last : CreateDirectory n objects NewPath with error | after
            · exact ⟨false, objects, rfl, OnlyAbove.refl n path objects, fails⟩
            · exact again place front last
          · obtain ⟨front, rest, split_, made⟩ := (cutLoop_spec n objects _).1 NewPath after cut
            exact again (.inr ⟨rest, split_⟩) ((List.mem_inits _ _).mpr ⟨_, split_.symm⟩) made
    · rw [CreateDirectory_there accepted absent]
      refine ⟨true, objects, rfl, OnlyAbove.refl n path objects, iff_of_true rfl ?_⟩
      rcases there : objects (n.resolve path) with - | - | -
      · exact absurd there absent
      · exact absurd there clear
      · rfl

theorem CreateDirectoryPath_refused (strdup : Nat → Bool) (objects : Objects Location)
    (refused : n.refused path = true) :
    CreateDirectoryPath n strdup objects path = some (false, objects) := by
  rw [CreateDirectoryPath, pathLoop, CreateDirectory, if_pos refused]

theorem CreateDirectoryPath_there (strdup : Nat → Bool) (accepted : n.refused path = false)
    (there : objects (n.resolve path) ≠ none) :
    CreateDirectoryPath n strdup objects path = some (true, objects) := by
  rw [CreateDirectoryPath, pathLoop, CreateDirectory_there accepted there]

/-- The function does what it should exactly when no file has the name of the path, and no directory
    is there that CreateDirectory refuses. -/
theorem CreateDirectoryPath_right_iff (n : Names Location) (strdup : Nat → Bool)
    (objects : Objects Location) (path : Path) :
    Right n strdup objects path ↔ Plain n objects path := by
  rcases refused : n.refused path with - | -
  · by_cases file : objects (n.resolve path) = some .file
    · have run := @CreateDirectoryPath_there _ _ n objects path strdup refused
        (fun none_ => by rw [file] at none_; cases none_)
      constructor
      · intro right
        obtain ⟨result, after, done, -, means⟩ := right
        rw [run] at done
        cases done
        have directory := means.mp rfl
        rw [file] at directory
        cases directory
      · intro plain
        have refused_ := plain.1 file
        rw [refused] at refused_
        cases refused_
    · refine iff_of_true ?_ ⟨fun there => absurd there file, fun _ => refused⟩
      have few := missing_le n path objects
      exact pathLoop_spec refused (path.length + 2) 0 objects file (by omega)
  · have run := CreateDirectoryPath_refused strdup objects refused
    constructor
    · intro right
      obtain ⟨result, after, done, -, means⟩ := right
      rw [run] at done
      cases done
      exact ⟨fun _ => refused, fun directory => absurd (means.mpr directory) Bool.false_ne_true⟩
    · intro plain
      refine ⟨false, objects, run, OnlyAbove.refl n path objects, ?_⟩
      refine iff_of_false Bool.false_ne_true fun directory => ?_
      have accepted := plain.2 directory
      rw [refused] at accepted
      cases accepted

end

/-- A file system that has one name, a file's. -/
def oneFile : Names Unit := ⟨fun _ => (), fun _ => none, fun _ => false⟩

theorem CreateDirectoryPath_takes_file :
    ¬ Right oneFile (fun _ => true) (fun _ => some .file) ['a'] := by
  intro right
  obtain ⟨result, after, done, -, means⟩ := right
  rw [CreateDirectoryPath_there (fun _ => true) rfl (by decide)] at done
  cases done
  exact absurd (means.mp rfl) (by decide)

end Regdump
