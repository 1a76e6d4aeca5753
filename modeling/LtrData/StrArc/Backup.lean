import LtrData.StrArc.Archived

namespace StrArc

mutual

/-- What a name leads to: a file or directory, with what a listing of it finds. -/
inductive Node (F : Type)
  | mk (id : F) (entries : Entries F)

/-- A directory listing in the order in which it is read, with the 8.3 names. -/
inductive Entries (F : Type)
  | nil
  | cons (FileName ShortName : UnicodeString) (node : Node F) (rest : Entries F)

end

/-- What BackupRead delivers: blocks, and behind them a failure or the empty block that ends the
    streams. -/
structure Reads where
  blocks : List (List BYTE)
  nonempty : ∀ block ∈ blocks, block ≠ []
  fails : Bool

theorem noBlocks_nonempty : ∀ block ∈ ([] : List (List BYTE)), block ≠ [] :=
  List.forall_mem_nil _

structure BackupOptions where
  BackupMethod : BackupMethods := .copy
  bLocal : Bool := false
  bListOnly : Bool := false
  bHardLinkSupport : Bool := true
  bSkipShortNames : Bool := false
  szExcludeStrings : List UnicodeString := []
  szIncludeStrings : List UnicodeString := []

/-- Everything the system answers is a function of the number of questions asked before, so that
    any pattern of failures is covered. -/
structure BackupConfig (F : Type) where
  options : BackupOptions
  opens : Nat → Bool
  informs : Nat → Bool
  resets : Nat → Bool
  reads : F → Nat → Reads
  /-- The 8.3 name that a search in the parent directory finds, if any. -/
  findShortName : UnicodeString → Nat → UnicodeString
  /-- The comparison of `_wcsnicmp` goes by these. -/
  lower : WCHAR → WCHAR
  bCancel : Nat → Bool

structure LinkTrackerItem where
  dwVolumeSerialNumber : DWORD
  NodeNumber : LONGLONG
  Name : UnicodeString

/-- `PathReplaced` stands for a FullPath that RtlInitUnicodeString has pointed at the constant ".",
    which has no room for another path. -/
structure BackupSession (F : Type) where
  FullPath : Cells WCHAR
  PathReplaced : Bool
  LinkTrackerItems : Nat → List LinkTrackerItem
  archive : List BYTE
  FileCounter : Nat
  questions : Nat
  disk : F → ByHandleFileInformation

/-- The history of a backup: the objects whose headers have been written. `asked` is the number of
    the question behind the headers, which for an object that is no link is what BackupRead reads,
    `data` what has been written of that, `result` whether it is all of it. -/
structure Backed (F : Type) where
  id : F
  File : UnicodeString
  FileInfo : ByHandleFileInformation
  ShortName : UnicodeString
  LinkName : Option UnicodeString
  asked : Nat
  data : List BYTE
  result : Bool
deriving DecidableEq

abbrev Backup (F α : Type) := Traced Empty (BackupSession F) (Backed F) α

variable {F : Type}

def question {α : Type} (answer : Nat → α) : Backup F α := fun s =>
  .ok [] (answer s.questions) { s with questions := s.questions + 1 }

def pathAt (Length : Nat) : Backup F UnicodeString := fun s => .ok [] (s.FullPath.read 0 Length) s

/-- The appended string ends with a null character where the buffer has room for it. -/
def appendToPath (Length : Nat) (source : UnicodeString) : Backup F (Option Nat) := fun s =>
  if 2 * (Length + source.length) ≤ fullPathMaximum then
    .ok [] (some (Length + source.length))
      { s with FullPath := s.FullPath.write Length (source ++ [0]) }
  else .ok [] none s

def writeArchive (data : List BYTE) : Backup F Unit := fun s =>
  .ok [] () { s with archive := s.archive ++ data }

def countBackup : Backup F Unit := fun s => .ok [] () { s with FileCounter := s.FileCounter + 1 }

def informationOf (id : F) : Backup F ByHandleFileInformation := fun s => .ok [] (s.disk id) s

def occursIn (lower : WCHAR → WCHAR) (Path string : UnicodeString) : Bool :=
  Path.tails.any fun tail => (tail.take string.length).map lower = string.map lower

/-- ExcludedString's `*Excluded` and `*Included`, without a custom filter. -/
def excludedString (c : BackupConfig F) (Path : UnicodeString) : Bool × Bool :=
  if Path = [] then (false, true)
  else if c.options.szExcludeStrings.any (occursIn c.lower Path) then (true, false)
  else if c.options.szIncludeStrings = [] then (false, true)
  else (false, c.options.szIncludeStrings.any (occursIn c.lower Path))

def fileIndex (info : ByHandleFileInformation) : LONGLONG := info.nFileIndexHigh ++ info.nFileIndexLow

/-- A tracker item keeps the low 48 bits of the file index, the record number on an NTFS volume. -/
def trackedNumber (NodeNumber : LONGLONG) : LONGLONG := NodeNumber &&& 0x0000FFFFFFFFFFFF

def linkSlot (NodeNumber : LONGLONG) : Nat := ((NodeNumber &&& 0xFF0) >>> 4).toNat

def LinkTrackerItem.Match (item : LinkTrackerItem) (dwVolumeSerialNumber : DWORD)
    (NodeNumber : LONGLONG) : Bool :=
  item.dwVolumeSerialNumber = dwVolumeSerialNumber ∧ item.NodeNumber = trackedNumber NodeNumber

def matchLink (dwVolumeSerialNumber : DWORD) (NodeNumber : LONGLONG) (Name : UnicodeString) :
    Backup F (Option UnicodeString) := fun s =>
  let slot := linkSlot NodeNumber
  match (s.LinkTrackerItems slot).find? (·.Match dwVolumeSerialNumber NodeNumber) with
  | some item => .ok [] (some item.Name) s
  | none =>
    let item := ⟨dwVolumeSerialNumber, trackedNumber NodeNumber, Name⟩
    .ok [] none
      { s with
        LinkTrackerItems := fun slot' =>
          if slot' = slot then item :: s.LinkTrackerItems slot else s.LinkTrackerItems slot' }

/-- The attributes NtSetInformationFile can set. -/
def settableAttributes : DWORD := 0x23127

/-- NativeSetFileAttributes never passes on zero, so the disk takes over every settable bit. -/
def setFileAttributes (info : ByHandleFileInformation) (FileAttributes : DWORD) :
    ByHandleFileInformation :=
  { info with dwFileAttributes :=
      (info.dwFileAttributes &&& ~~~settableAttributes) ||| (FileAttributes &&& settableAttributes) }

/-- Archives hold the attributes without the archive bit, unless in copy mode. -/
def storedInformation (method : BackupMethods) (file_info : ByHandleFileInformation) :
    ByHandleFileInformation :=
  if method = .copy then file_info
  else { file_info with dwFileAttributes := file_info.dwFileAttributes &&& ~~~fileAttributeArchive }

def readStreamsLoop (c : BackupConfig F) (fails : Bool) : List (List BYTE) → Backup F Bool
  | [] => do
    if ← question c.bCancel then pure false
    else if fails then pure false
    else
      countBackup
      pure true
  | block :: rest => do
    if ← question c.bCancel then pure false
    else
      writeArchive block
      readStreamsLoop c fails rest

def readFileStreamsToArchive (c : BackupConfig F) (id : F) : Backup F Bool := do
  let reads ← question (c.reads id)
  readStreamsLoop c reads.fails reads.blocks

def clears : BackupMethods → Bool
  | .full | .inc => true
  | _ => false

def skipsUnchanged : BackupMethods → Bool
  | .diff | .inc => true
  | _ => false

variable [DecidableEq F]

def setDisk (id : F) (info : ByHandleFileInformation) : Backup F Unit := fun s =>
  .ok [] () { s with disk := fun id' => if id' = id then info else s.disk id' }

/-- A failure to reset the attribute is only reported. -/
def resetArchiveAttribute (c : BackupConfig F) (id : F) (file_info : ByHandleFileInformation)
    (bResult : Bool) : Backup F Unit := do
  if bResult ∧ clears c.options.BackupMethod ∧
      hasAttribute file_info.dwFileAttributes fileAttributeArchive then
    if ← question c.resets then
      let info ← informationOf id
      setDisk id (setFileAttributes info (file_info.dwFileAttributes &&& ~~~fileAttributeArchive))

def archiveLength : Backup F Nat := fun s => .ok [] s.archive.length s

def archiveSince (start : Nat) : Backup F (List BYTE) := fun s => .ok [] (s.archive.drop start) s

def questionsAsked : Backup F Nat := fun s => .ok [] s.questions s

def noteBacked (object : Backed F) : Backup F Unit := fun s => .ok [object] () s

def tracked (c : BackupConfig F) (file_info : ByHandleFileInformation) : Bool :=
  1 < file_info.nNumberOfLinks.toNat ∧ c.options.bHardLinkSupport

def matchedLink (c : BackupConfig F) (file_info : ByHandleFileInformation) (File : UnicodeString) :
    Backup F (Option UnicodeString) :=
  if tracked c file_info then
    matchLink file_info.dwVolumeSerialNumber (fileIndex file_info) File
  else pure none

/-- BackupFile from the file header on. -/
def archiveFile (c : BackupConfig F) (id : F) (File : UnicodeString)
    (file_info : ByHandleFileInformation) (ShortName : UnicodeString) : Backup F Bool := do
  writeArchive
    (encodeFileHeader File (storedInformation c.options.BackupMethod file_info) ShortName)
  let asked ← questionsAsked
  match ← matchedLink c file_info File with
  | some LinkName =>
    writeArchive (linkHeader LinkName).encode
    writeArchive (wcharBytes LinkName)
    countBackup
    noteBacked ⟨id, File, file_info, ShortName, some LinkName, asked, [], true⟩
    pure true
  | none =>
    let start ← archiveLength
    let bResult ← readFileStreamsToArchive c id
    let data ← archiveSince start
    noteBacked ⟨id, File, file_info, ShortName, none, asked, data, bResult⟩
    resetArchiveAttribute c id file_info bResult
    pure bResult

inductive OpenedObject
  | left (result : Bool)
  | found (file_info : ByHandleFileInformation) (bIncludeThis : Bool)

/-- BackupFile up to the traversal of a directory. -/
def openObject (c : BackupConfig F) (id : F) (Length : Nat) : Backup F OpenedObject := do
  let File ← pathAt Length
  if ← question c.opens then
    if ← question c.informs then
      let file_info ← informationOf id
      if (excludedString c File).1 then pure (.left true)
      else pure (.found file_info (excludedString c File).2)
    else pure (.left false)
  else pure (.left false)

/-- The current directory itself is archived as ".". -/
def headerName (Length : Nat) : Backup F UnicodeString :=
  if Length = 0 then pure [dot] else pathAt Length

def replacePath (Length : Nat) : Backup F Unit := fun s =>
  .ok [] () { s with PathReplaced := s.PathReplaced || decide (Length = 0) }

def headerShortName (c : BackupConfig F) (File : UnicodeString) :
    Option UnicodeString → Backup F UnicodeString
  | some ShortName => pure ShortName
  | none => question (c.findShortName File)

/-- BackupFile behind the traversal of a directory. -/
def finishObject (c : BackupConfig F) (id : F) (file_info : ByHandleFileInformation)
    (bIncludeThis : Bool) (Length : Nat) (ShortName : Option UnicodeString) : Backup F Bool := do
  if ← question c.bCancel then pure false
  else if bIncludeThis = false then pure true
  else
    replacePath Length
    if skipsUnchanged c.options.BackupMethod ∧
        hasAttribute file_info.dwFileAttributes fileAttributeArchive = false then pure true
    else if c.options.bListOnly then
      countBackup
      pure true
    else
      let File ← headerName Length
      let ShortName ← headerShortName c File ShortName
      archiveFile c id File file_info ShortName

/-- The length of the path that the names in a directory are appended to. -/
def basePath (Length : Nat) : Backup F (Option Nat) := do
  let Path ← pathAt Length
  if Path = [dot] ∨ Length = 0 then pure (some 0)
  else appendToPath Length [backslash]

/-- Whether BackupFile lists the object. -/
def traverses (c : BackupConfig F) (file_info : ByHandleFileInformation) : Bool :=
  hasAttribute file_info.dwFileAttributes fileAttributeDirectory &&
    !(c.options.bLocal && hasAttribute file_info.dwFileAttributes fileAttributeReparsePoint)

def isSelfOrParent (FileName : UnicodeString) : Bool := FileName = [dot] ∨ FileName = [dot, dot]

/-- The name of an entry behind the path of its directory. -/
def entryPath (base : Nat) (FileName : UnicodeString) : Backup F (Option Nat) :=
  if 65535 < 2 * FileName.length then pure none else appendToPath base FileName

def traverseIf (condition : Bool) (Length : Nat) (directoryLoop : Nat → Backup F Unit) :
    Backup F Unit := do
  if condition then
    match ← basePath Length with
    | some base => directoryLoop base
    | none => pure ()
  else pure ()

mutual

def backupFile (c : BackupConfig F) : Node F → Nat → Option UnicodeString → Bool → Backup F Bool
  | .mk id entries, Length, ShortName, bTraverseDirectories => do
    match ← openObject c id Length with
    | .left result => pure result
    | .found file_info bIncludeThis =>
      traverseIf (bTraverseDirectories && traverses c file_info) Length
        fun base => directoryLoop c entries base
      finishObject c id file_info bIncludeThis Length ShortName

/-- The loop of BackupDirectory, with the length of `base_path`. -/
def directoryLoop (c : BackupConfig F) : Entries F → Nat → Backup F Unit
  | .nil, _ => pure ()
  | .cons FileName ShortName node rest, base => do
    if isSelfOrParent FileName then directoryLoop c rest base
    else if ← question c.bCancel then pure ()
    else
      match ← entryPath base FileName with
      | none => directoryLoop c rest base
      | some Length =>
        let _ ← backupFile c node Length
          (some (if c.options.bSkipShortNames then [] else ShortName)) true
        directoryLoop c rest base

end

/-- A path of the caller is copied to the path buffer first. -/
def copyToPath (Path : UnicodeString) : Backup F Unit := fun s =>
  .ok [] () { s with FullPath := s.FullPath.write 0 (Path ++ [0]) }

def pathReplaced : Backup F Bool := fun s => .ok [] s.PathReplaced s

def backupPath (c : BackupConfig F) (Path : UnicodeString) (node : Node F)
    (bTraverseDirectories : Bool) : Backup F Bool := do
  if ← pathReplaced then pure false
  else
    copyToPath Path
    backupFile c node Path.length none bTraverseDirectories

/-- BackupFiles on the names of the command line, with what they lead to. -/
def backupFiles (c : BackupConfig F) : List (UnicodeString × Node F) → Backup F Unit
  | [] => pure ()
  | (Path, node) :: rest => do
    if ← question c.bCancel then pure ()
    else
      let _ ← backupPath c Path node true
      backupFiles c rest

def BackupSession.start (disk : F → ByHandleFileInformation) : BackupSession F where
  FullPath := fun _ => 0
  PathReplaced := false
  LinkTrackerItems := fun _ => []
  archive := []
  FileCounter := 0
  questions := 0
  disk := disk

end StrArc
