import LtrData.Library.DirectoryTree
import LtrData.Library.TransitionSystem
import Mathlib.Data.Set.Finite.Basic

namespace Xcopynt

inductive Component (Name : Type)
  | here
  | up
  | name (x : Name)

/-- The target directory as given: with a drive or a server, or from the current directory on. -/
inductive Target (Name : Type)
  | absolute (dir : List Name)
  | relative (components : List (Component Name))

variable {Name Content : Type}

def Component.from (current : List Name) : Component Name → List Name
  | here => current
  | up => current.dropLast
  | name x => current ++ [x]

/-- The directory the target names while another one is the current directory. -/
def Target.resolve (target : Target Name) (current : List Name) : List Name :=
  match target with
  | absolute dir => dir
  | relative components => components.foldl Component.from current

/-- What the program starts with: the volume, the current directory and the argument. -/
structure Input (Name Content : Type) where
  tree : DirectoryTree Name Content
  start : List Name
  target : Target Name
  rooted : tree.Rooted
  isDirectory : tree start = some .directory
  finite : {path | tree (start ++ path) ≠ none}.Finite

/-- An activation of xcopynt: the directory below the start directory that it enumerates, the names
FindFirstFile and FindNextFile have returned, and the volume when it opened the directory. -/
structure Frame (Name Content : Type) where
  dir : List Name
  opened : DirectoryTree Name Content
  seen : List Name

inductive State (Name Content : Type)
  | running (tree : DirectoryTree Name Content) (frames : List (Frame Name Content))
  | failed

variable [DecidableEq Name]

/-- A directory that is there already will do. -/
def CreateDirectoryEx (tree : DirectoryTree Name Content) (path : List Name) :
    Option (DirectoryTree Name Content) :=
  match tree path with
  | some .directory => some tree
  | some (.file _) => none
  | none =>
    match tree path.dropLast with
    | some .directory => some (tree.add path .directory)
    | _ => none

/-- With COPY_FILE_FAIL_IF_EXISTS. -/
def CopyFileEx (tree : DirectoryTree Name Content) (path : List Name) (content : Content) :
    Option (DirectoryTree Name Content) :=
  match tree path with
  | some _ => none
  | none =>
    match tree path.dropLast with
    | some .directory => some (tree.add path (.file content))
    | _ => none

namespace Input

variable (i : Input Name Content)

/-- The target directory as it is resolved when the program starts. -/
def destination : List Name := i.target.resolve i.start

/-- The string in target while the current directory is dir, resolved there. -/
def copyOf (dir : List Name) (x : Name) : List Name :=
  i.target.resolve (i.start ++ dir) ++ dir ++ [x]

/-- What wmain does before it calls xcopynt. -/
def wmain : State Name Content :=
  match CreateDirectoryEx i.tree i.destination with
  | none => .failed
  | some tree => .running tree [⟨[], tree, []⟩]

/-- The end of a round for a directory: its copy is created and it becomes the current one. -/
def enter (tree : DirectoryTree Name Content) (f : Frame Name Content)
    (frames : List (Frame Name Content)) (x : Name) : State Name Content :=
  match CreateDirectoryEx tree (i.copyOf f.dir x) with
  | none => .failed
  | some tree => .running tree (⟨f.dir ++ [x], tree, []⟩ :: { f with seen := x :: f.seen } :: frames)

def copy (tree : DirectoryTree Name Content) (f : Frame Name Content)
    (frames : List (Frame Name Content)) (x : Name) (content : Content) : State Name Content :=
  match CopyFileEx tree (i.copyOf f.dir x) content with
  | none => .failed
  | some tree => .running tree ({ f with seen := x :: f.seen } :: frames)

/-- A round of the loop for an entry that is there now, which need not have been there when the
directory was opened, or the end of the loop once all that were there have been returned. -/
inductive Step : State Name Content → State Name Content → Prop
  | directory {tree : DirectoryTree Name Content} {f : Frame Name Content}
    {frames : List (Frame Name Content)} {x : Name} (new : x ∉ f.seen)
    (found : tree (i.start ++ (f.dir ++ [x])) = some .directory) :
    Step (.running tree (f :: frames)) (i.enter tree f frames x)
  | file {tree : DirectoryTree Name Content} {f : Frame Name Content}
    {frames : List (Frame Name Content)} {x : Name} {content : Content} (new : x ∉ f.seen)
    (found : tree (i.start ++ (f.dir ++ [x])) = some (.file content)) :
    Step (.running tree (f :: frames)) (i.copy tree f frames x content)
  | finished {tree : DirectoryTree Name Content} {f : Frame Name Content}
    {frames : List (Frame Name Content)}
    (all : ∀ x, f.opened (i.start ++ (f.dir ++ [x])) ≠ none → x ∈ f.seen) :
    Step (.running tree (f :: frames)) (.running tree frames)

def program : TransitionSystem (State Name Content) where
  start s := s = i.wmain
  step := i.Step

/-- No call fails, whatever order the directories are enumerated in. -/
def NoCallFails : Prop := ∀ s, i.program.Reachable s → s ≠ .failed

/-- Every run ends. -/
def Terminates : Prop := Acc (fun after before => i.Step before after) i.wmain

/-- What stood under the start directory stands under the target directory. -/
def Copied (tree : DirectoryTree Name Content) : Prop :=
  ∀ path, i.tree (i.start ++ path) ≠ none →
    tree (i.destination ++ path) = i.tree (i.start ++ path)

/-- The program stops, and where it does the tree has been copied. -/
def CopiesAndStops : Prop :=
  i.Terminates ∧ ∀ s, i.program.Reachable s → (∀ s', ¬i.Step s s') →
    ∃ tree, s = .running tree [] ∧ i.Copied tree

/-- The target names one directory from every directory with entries, and that directory is not
below the start directory. -/
structure OneTarget : Prop where
  resolves : ∀ path x, i.tree (i.start ++ (path ++ [x])) ≠ none →
    i.target.resolve (i.start ++ path) = i.destination
  outside : i.start <+: i.destination → i.destination = i.start

end Input

end Xcopynt
