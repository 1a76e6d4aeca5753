import LtrData.Library.Traced
import Mathlib.Data.List.AList

namespace Fdf

abbrev BYTE := BitVec 8

abbrev DWORD := BitVec 32

abbrev QWORD := BitVec 64

/-- A path as the program passes it on, in OEM characters. -/
abbrev Path := List BYTE

structure FileData where
  data : List BYTE
  dwVolumeSerialNumber : DWORD
  nFileIndex : QWORD
  dwFileAttributes : DWORD

/-- Names in directories, each with the file it stands for. -/
structure FileSystem (E F : Type) where
  names : AList fun _ : E => F
  file : F → FileData

def fileAttributeReadonly : DWORD := 0x1

def fileAttributeNormal : DWORD := 0x80

variable {E F : Type}

namespace FileSystem

def Exists (fs : FileSystem E F) (f : F) : Prop := ∃ name, ⟨name, f⟩ ∈ fs.names.entries

/-- The file index tells the files of a volume apart. -/
def Identified (fs : FileSystem E F) : Prop :=
  ∀ f g, fs.Exists f → fs.Exists g →
    (fs.file f).dwVolumeSerialNumber = (fs.file g).dwVolumeSerialNumber →
    (fs.file f).nFileIndex = (fs.file g).nFileIndex → f = g

variable [DecidableEq E] [DecidableEq F]

def nNumberOfLinks (fs : FileSystem E F) (f : F) : Nat :=
  fs.names.entries.countP fun entry => entry.2 = f

def remove (fs : FileSystem E F) (name : E) : FileSystem E F :=
  { fs with names := fs.names.erase name }

/-- The name comes to stand for a file, whatever it stood for before. -/
def link (fs : FileSystem E F) (name : E) (f : F) : FileSystem E F :=
  { fs with names := fs.names.insert name f }

def setFile (fs : FileSystem E F) (f : F) (file : FileData) : FileSystem E F :=
  { fs with file := fun f' => if f' = f then file else fs.file f' }

omit [DecidableEq F] in
theorem exists_of_lookup {fs : FileSystem E F} {name : E} {f : F}
    (found : fs.names.lookup name = some f) : fs.Exists f :=
  ⟨name, AList.mem_lookup_iff.mp found⟩

omit [DecidableEq F] in
theorem exists_iff {fs : FileSystem E F} {f : F} :
    fs.Exists f ↔ ∃ name, fs.names.lookup name = some f :=
  ⟨fun ⟨name, mem⟩ => ⟨name, AList.mem_lookup_iff.mpr mem⟩, fun ⟨_, found⟩ => exists_of_lookup found⟩

omit [DecidableEq E] [DecidableEq F] in
theorem countP_eraseP_le {α : Type} (p q : α → Bool) (entries : List α) :
    entries.countP p ≤ (entries.eraseP q).countP p + 1 := by
  rcases List.exists_or_eq_self_of_eraseP q entries with same | ⟨entry, before, behind, -, -, rfl, erased⟩
  · rw [same]
    exact Nat.le_succ _
  · rw [erased]
    simp only [List.countP_append, List.countP_cons]
    split <;> omega

theorem exists_remove {fs : FileSystem E F} {name : E} {f : F} (links : 1 < fs.nNumberOfLinks f) :
    (fs.remove name).Exists f := by
  have fewer : fs.nNumberOfLinks f ≤ (fs.remove name).nNumberOfLinks f + 1 := countP_eraseP_le _ _ _
  have some_left : 0 < (fs.remove name).nNumberOfLinks f := by omega
  obtain ⟨⟨name', f'⟩, mem, same⟩ := List.countP_pos_iff.mp some_left
  exact ⟨name', of_decide_eq_true same ▸ mem⟩

end FileSystem

/-- A new file gets an index that no file on its volume has. -/
structure Created (fs : FileSystem E F) where
  file : F
  dwVolumeSerialNumber : DWORD
  nFileIndex : QWORD
  fresh : ¬ fs.Exists file
  identified : ∀ g, fs.Exists g → (fs.file g).dwVolumeSerialNumber = dwVolumeSerialNumber →
    (fs.file g).nFileIndex ≠ nFileIndex

/-- `answers` says whether a call that is possible succeeds, depending on the number of calls before
    it, `leads` what directory entry a path leads to, through junctions if need be, and `creates`
    what file CopyFile makes. -/
structure Config (E F : Type) where
  leads : Path → Option E
  answers : Nat → Bool
  creates : (fs : FileSystem E F) → Option (Created fs)
  bBreak : Nat → Bool
  argv : List Path
  /-- ExcludedString, for the strings of the -x switch. -/
  excluded : Path → Bool
  dwSkipSize : DWORD := 0
  bDeleteEqual : Bool := false
  bForceDelete : Bool := false
  bLinkEqual : Bool := false
  bRecurse : Bool := false
  bSplitLinks : Bool := false

structure Checksum where
  Checksum0 : QWORD
  Checksum1 : QWORD
deriving DecidableEq

/-- `checksum` is there if `bChecksumCalculated` is set. -/
structure FileRecord where
  FileSize : Nat
  FileIndex : QWORD
  checksum : Option Checksum
  dwVolumeSerial : DWORD
  szFilePath : Path
deriving DecidableEq

structure State (E F : Type) where
  fs : FileSystem E F
  table : Nat → List FileRecord
  calls : Nat

/-- The history of a run: the system calls with their success, and the duplicates found. -/
inductive Event
  | called (succeeded : Bool)
  | duplicate (szFilePath recorded : Path)
deriving DecidableEq

abbrev Run (E F α : Type) := Traced Empty (State E F) Event α

/-- A call that answers no more than whether it has succeeded. -/
def call (c : Config E F) : Run E F Bool := fun s =>
  .ok [.called (c.answers s.calls)] (c.answers s.calls) { s with calls := s.calls + 1 }

def asked : Run E F Nat := fun s => .ok [] s.calls { s with calls := s.calls + 1 }

variable [DecidableEq E] [DecidableEq F]

def Config.lookup (c : Config E F) (fs : FileSystem E F) (szFilePath : Path) : Option F :=
  (c.leads szFilePath).bind fs.names.lookup

/-- A call that finds the file a path leads to, if there is one. -/
def onFile (c : Config E F) (szFilePath : Path) : Run E F (Option F) := fun s =>
  let found := if c.answers s.calls then c.lookup s.fs szFilePath else none
  .ok [.called found.isSome] found { s with calls := s.calls + 1 }

/-- CreateFile for reading, with the file that the handle is open on. -/
def createFile (c : Config E F) (szFilePath : Path) : Run E F (Option F) := onFile c szFilePath

def fileOf (f : F) : Run E F FileData := fun s => .ok [] (s.fs.file f) s

def linksOf (f : F) : Run E F Nat := fun s => .ok [] (s.fs.nNumberOfLinks f) s

def getFileAttributes (c : Config E F) (szFilePath : Path) : Run E F (Option DWORD) := do
  match ← onFile c szFilePath with
  | some f => pure (some (← fileOf f).dwFileAttributes)
  | none => pure none

def updateFileSystem (update : FileSystem E F → FileSystem E F) : Run E F Unit := fun s =>
  .ok [] () { s with fs := update s.fs }

/-- The attributes that GetFileAttributes has failed to find are no attributes to set. -/
def setFileAttributes (c : Config E F) (szFilePath : Path) (dwFileAttributes : Option DWORD) :
    Run E F Unit := do
  match dwFileAttributes, ← onFile c szFilePath with
  | some dwFileAttributes, some f =>
    updateFileSystem fun fs => fs.setFile f { fs.file f with dwFileAttributes }
  | _, _ => pure ()

def deleteFile (c : Config E F) (szFilePath : Path) : Run E F Bool := fun s =>
  let deletes := c.answers s.calls && (c.lookup s.fs szFilePath).any fun f =>
    (s.fs.file f).dwFileAttributes &&& fileAttributeReadonly = 0
  .ok [.called deletes] deletes
    { s with
      fs := if deletes then (c.leads szFilePath).elim s.fs s.fs.remove else s.fs
      calls := s.calls + 1 }

/-- CopyFile with `bFailIfExists`. The copy has the attributes of the original. -/
def copyFile (c : Config E F) (szExisting szNew : Path) : Run E F Bool := fun s =>
  match (if c.answers s.calls then c.lookup s.fs szExisting else none), c.leads szNew,
    c.creates s.fs with
  | some f, some name, some created =>
    if (s.fs.names.lookup name).isSome then .ok [.called false] false { s with calls := s.calls + 1 }
    else
      let copy : FileData :=
        { s.fs.file f with
          dwVolumeSerialNumber := created.dwVolumeSerialNumber
          nFileIndex := created.nFileIndex }
      .ok [.called true] true
        { s with
          fs := (s.fs.setFile created.file copy).link name created.file
          calls := s.calls + 1 }
  | _, _, _ => .ok [.called false] false { s with calls := s.calls + 1 }

/-- CreateHardLinkToFile with `bReplaceOk`. -/
def createHardLinkToFile (c : Config E F) (lpExisting lpNew : Path) : Run E F Bool := fun s =>
  match (if c.answers s.calls then c.lookup s.fs lpExisting else none), c.leads lpNew with
  | some f, some name =>
    .ok [.called true] true { s with fs := s.fs.link name f, calls := s.calls + 1 }
  | _, _ => .ok [.called false] false { s with calls := s.calls + 1 }

end Fdf
