import LtrData.StrArc.Archived
import LtrData.StrArc.Untouched
import Mathlib.Logic.Function.Basic

namespace StrArc

structure DiskFile where
  basic : FileBasicInformation
  content : List BYTE
  pointer : Nat
  /-- Whether the last stream header given to BackupWrite was that of a data stream. -/
  inData : Bool
deriving DecidableEq

/-- A volume of files and directories under full names. -/
structure Volume where
  names : UnicodeString → Option Nat
  files : Nat → DiskFile
  unused : Nat
  now : LONGLONG
  /-- How many calls have been made. -/
  calls : Nat
  fresh : ∀ Name id, names Name = some id → id < unused

structure VolumeHandle where
  Name : UnicodeString
  id : Nat
deriving DecidableEq

def errorFileNotFound : DWORD := 2
def errorInvalidHandle : DWORD := 6
def errorAlreadyExists : DWORD := 183

/-- Attributes as they are queried: a file without any reports FILE_ATTRIBUTE_NORMAL. -/
def reportedAttributes (attributes : DWORD) : DWORD :=
  if attributes = 0 then fileAttributeNormal else attributes

/-- A zero in the given information leaves the value as it is. -/
def DiskFile.setBasic (file : DiskFile) (info : FileBasicInformation) : DiskFile :=
  { file with
    basic :=
      { CreationTime := if info.CreationTime = 0 then file.basic.CreationTime else info.CreationTime
        LastAccessTime :=
          if info.LastAccessTime = 0 then file.basic.LastAccessTime else info.LastAccessTime
        LastWriteTime :=
          if info.LastWriteTime = 0 then file.basic.LastWriteTime else info.LastWriteTime
        ChangeTime := if info.ChangeTime = 0 then file.basic.ChangeTime else info.ChangeTime
        FileAttributes :=
          if info.FileAttributes = 0 then file.basic.FileAttributes
          else info.FileAttributes &&& ~~~fileAttributeNormal } }

/-- Writing marks a file for archiving and sets its times. -/
def DiskFile.written (file : DiskFile) (now : LONGLONG) (content : List BYTE) : DiskFile :=
  { file with
    content := content
    basic :=
      { file.basic with
        LastWriteTime := now
        ChangeTime := now
        FileAttributes := file.basic.FileAttributes ||| fileAttributeArchive } }

/-- BackupWrite takes the data of a data stream for the content of the file. -/
def DiskFile.backupWrite (file : DiskFile) (now : LONGLONG) (continued : Bool) (data : List BYTE) :
    DiskFile :=
  if continued then
    if file.inData then file.written now (file.content ++ data) else file
  else
    let h := Win32StreamId.decode data
    if h.dwStreamId = backupData then
      { file.written now (data.drop (headerSize + h.nameSize)) with inData := true }
    else { file with inData := false }

def newFile (now : LONGLONG) (FileAttributes : DWORD) : DiskFile where
  basic := ⟨now, now, now, now, FileAttributes &&& ~~~fileAttributeNormal ||| fileAttributeArchive⟩
  content := []
  pointer := 0
  inData := false

namespace Volume

def change (v : Volume) (id : Nat) (f : DiskFile → DiskFile) : Volume :=
  { v with files := Function.update v.files id (f (v.files id)) }

def add (v : Volume) (Name : UnicodeString) (file : DiskFile) : Volume where
  names := Function.update v.names Name (some v.unused)
  files := Function.update v.files v.unused file
  unused := v.unused + 1
  now := v.now
  calls := v.calls
  fresh := by
    intro Name' id named
    by_cases same : Name' = Name
    · subst same
      rw [Function.update_self, Option.some.injEq] at named
      omega
    · rw [Function.update_of_ne same] at named
      have below := v.fresh Name' id named
      omega

def remove (v : Volume) (Name : UnicodeString) : Volume :=
  { v with
    names := Function.update v.names Name none
    fresh := by
      intro Name' id named
      by_cases same : Name' = Name
      · subst same
        rw [Function.update_self] at named
        cases named
      · rw [Function.update_of_ne same] at named
        exact v.fresh Name' id named }

def link (v : Volume) (Name : UnicodeString) (id : Nat) (known : id < v.unused) : Volume :=
  { v with
    names := Function.update v.names Name (some id)
    fresh := by
      intro Name' id' named
      by_cases same : Name' = Name
      · subst same
        rw [Function.update_self, Option.some.injEq] at named
        omega
      · rw [Function.update_of_ne same] at named
        exact v.fresh Name' id' named }

def create (v : Volume) (Name : UnicodeString) (FileAttributes : DWORD)
    (disposition : CreateDisposition) : Reply VolumeHandle × Volume :=
  match v.names Name with
  | none => (.opened ⟨Name, v.unused⟩, v.add Name (newFile v.now FileAttributes))
  | some id =>
    match disposition with
    | .fileCreate => (.failed errorAlreadyExists, v)
    | .fileOpenIf => (.opened ⟨Name, id⟩, v)
    | .fileSupersede => (.opened ⟨Name, id⟩, v.change id fun _ => newFile v.now FileAttributes)

/-- What a call does that does not fail. -/
def answer (v : Volume) : Call VolumeHandle → Reply VolumeHandle × Volume
  | .openFile _ Name =>
    match v.names Name with
    | some id => (.opened ⟨Name, id⟩, v)
    | none => (.failed errorFileNotFound, v)
  | .queryInformation (some h) =>
    (.information { (v.files h.id).basic with
      FileAttributes := reportedAttributes (v.files h.id).basic.FileAttributes }, v)
  | .setInformation (some h) info => (.success, v.change h.id (·.setBasic info))
  | .createDirectory Name _ FileAttributes _ =>
    v.create Name (FileAttributes ||| fileAttributeDirectory) .fileOpenIf
  | .createFile _ Name FileAttributes disposition _ => v.create Name FileAttributes disposition
  | .deviceIoControl (some _) _ => (.success, v)
  | .setShortFileName (some _) _ => (.success, v)
  | .setFilePointer (some h) distance =>
    (.success, v.change h.id fun file => { file with pointer := distance.toNat })
  | .setEndOfFile (some h) =>
    (.success, v.change h.id fun file => file.written v.now (file.content.take file.pointer ++
      List.replicate (file.pointer - file.content.length) 0))
  | .backupWrite (some h) continued data =>
    (.success, v.change h.id (·.backupWrite v.now continued data))
  | .writeFile (some h) data =>
    (.written data.length, v.change h.id fun file =>
      { file.written v.now (file.content.take file.pointer ++
          (data ++ file.content.drop (file.pointer + data.length))) with
        pointer := file.pointer + data.length })
  | .deleteFile (some h) =>
    if v.names h.Name = some h.id then (.success, v.remove h.Name)
    else (.failed errorFileNotFound, v)
  | .close (some _) => (.success, v)
  | .createHardLink (some h) Target =>
    if known : h.id < v.unused then (.success, v.link Target h.id known)
    else (.failed errorInvalidHandle, v)
  | .backupCopyFile (some source) (some target) =>
    (.success, v.change target.id fun file => file.written v.now (v.files source.id).content)
  | .getFileInformation (some h) =>
    (.attributes (reportedAttributes (v.files h.id).basic.FileAttributes), v)
  | _ => (.failed errorInvalidHandle, v)

/-- The volume as a system on which the calls fail that `fails` gives an error for. -/
def system (fails : Nat → Option DWORD) : System Volume VolumeHandle := fun request v =>
  match fails v.calls with
  | some error => (.failed error, { v with calls := v.calls + 1 })
  | none => { v with calls := v.calls + 1 }.answer request

@[simp] theorem change_names (v : Volume) (id : Nat) (f : DiskFile → DiskFile) :
    (v.change id f).names = v.names := rfl

theorem create_opened {v : Volume} {Name : UnicodeString} {FileAttributes : DWORD}
    {disposition : CreateDisposition} {id : Nat} {h : VolumeHandle} (named : v.names Name = some id)
    (opened : (v.create Name FileAttributes disposition).1 = .opened h) : h.id = id := by
  unfold create at opened
  rw [named] at opened
  cases disposition <;> simp only [Reply.opened.injEq, reduceCtorEq] at opened <;> subst opened <;> rfl

theorem create_files {v : Volume} {Name : UnicodeString} {FileAttributes : DWORD}
    {disposition : CreateDisposition} {o : Nat}
    (apart : ∀ h, (v.create Name FileAttributes disposition).1 = .opened h → h.id ≠ o) :
    (v.create Name FileAttributes disposition).2.files o = v.files o := by
  unfold create at apart ⊢
  cases named : v.names Name with
  | none =>
    rw [named] at apart
    exact Function.update_of_ne (apart _ rfl).symm _ _
  | some id =>
    rw [named] at apart
    cases disposition with
    | fileSupersede => exact Function.update_of_ne (apart _ rfl).symm _ _
    | _ => rfl

theorem create_names {v : Volume} {Name Name' : UnicodeString} {FileAttributes : DWORD}
    {disposition : CreateDisposition} {o : Nat} (named : v.names Name' = some o) :
    (v.create Name FileAttributes disposition).2.names Name' = some o := by
  unfold create
  cases here : v.names Name with
  | none =>
    have other : Name' ≠ Name := by
      rintro rfl
      rw [here] at named
      cases named
    exact (Function.update_of_ne other _ _).trans named
  | some id => cases disposition <;> exact named

theorem answer_files (v : Volume) (request : Call VolumeHandle) (o : Nat)
    (changed : ∀ h, request.changedHandle = some h → h.id ≠ o)
    (created : request.creates = true → ∀ h, (v.answer request).1 = .opened h → h.id ≠ o) :
    (v.answer request).2.files o = v.files o := by
  cases request with
  | openFile site Name => simp only [answer]; split <;> rfl
  | createDirectory => exact create_files (created rfl)
  | createFile => exact create_files (created rfl)
  | deleteFile hFile =>
    cases hFile with
    | none => rfl
    | some h => simp only [answer]; split <;> rfl
  | createHardLink hFile Target =>
    cases hFile with
    | none => rfl
    | some h => simp only [answer]; split <;> rfl
  | backupCopyFile source target =>
    cases source <;> cases target <;> first | rfl | exact Function.update_of_ne (changed _ rfl).symm _ _
  | queryInformation hFile => cases hFile <;> rfl
  | deviceIoControl hFile => cases hFile <;> rfl
  | setShortFileName hFile => cases hFile <;> rfl
  | close hFile => cases hFile <;> rfl
  | getFileInformation hFile => cases hFile <;> rfl
  | setInformation hFile => cases hFile <;> first | rfl | exact Function.update_of_ne (changed _ rfl).symm _ _
  | setFilePointer hFile => cases hFile <;> first | rfl | exact Function.update_of_ne (changed _ rfl).symm _ _
  | setEndOfFile hFile => cases hFile <;> first | rfl | exact Function.update_of_ne (changed _ rfl).symm _ _
  | backupWrite hFile => cases hFile <;> first | rfl | exact Function.update_of_ne (changed _ rfl).symm _ _
  | writeFile hFile => cases hFile <;> first | rfl | exact Function.update_of_ne (changed _ rfl).symm _ _

theorem answer_names (v : Volume) (request : Call VolumeHandle) {o : Nat} {Name : UnicodeString}
    (named : v.names Name = some o) (changed : ∀ h, request.changedHandle = some h → h.id ≠ o)
    (other : ∀ hFile, request ≠ .createHardLink hFile Name) :
    (v.answer request).2.names Name = some o := by
  cases request with
  | openFile site Name' => simp only [answer]; split <;> exact named
  | createDirectory => exact create_names named
  | createFile => exact create_names named
  | deleteFile hFile =>
    cases hFile with
    | none => exact named
    | some h =>
      simp only [answer]
      split
      · next same =>
        have apart : Name ≠ h.Name := by
          rintro rfl
          rw [named, Option.some.injEq] at same
          exact changed h rfl same.symm
        exact (Function.update_of_ne apart _ _).trans named
      · exact named
  | createHardLink hFile Target =>
    cases hFile with
    | none => exact named
    | some h =>
      have apart : Name ≠ Target := by
        rintro rfl
        exact other _ rfl
      simp only [answer]
      split
      · exact (Function.update_of_ne apart _ _).trans named
      · exact named
  | backupCopyFile source target => cases source <;> cases target <;> exact named
  | queryInformation hFile => cases hFile <;> exact named
  | deviceIoControl hFile => cases hFile <;> exact named
  | setShortFileName hFile => cases hFile <;> exact named
  | close hFile => cases hFile <;> exact named
  | getFileInformation hFile => cases hFile <;> exact named
  | setInformation hFile => cases hFile <;> exact named
  | setFilePointer hFile => cases hFile <;> exact named
  | setEndOfFile hFile => cases hFile <;> exact named
  | backupWrite hFile => cases hFile <;> exact named
  | writeFile hFile => cases hFile <;> exact named

end Volume

/-- A volume is a file system, whichever calls fail on it. -/
def volumeFileSystem (fails : Nat → Option DWORD) :
    FileSystem Volume VolumeHandle Nat DiskFile where
  system := Volume.system fails
  object h := h.id
  named v := v.names
  state v := v.files
  basic file :=
    { file.basic with FileAttributes := reportedAttributes file.basic.FileAttributes }
  state_eq request v o changed created := by
    unfold Volume.system at created ⊢
    cases failing : fails v.calls with
    | some error => rfl
    | none =>
      rw [failing] at created
      exact Volume.answer_files { v with calls := v.calls + 1 } request o changed created
  named_eq request v o Name named changed other := by
    unfold Volume.system
    cases fails v.calls with
    | some error => exact named
    | none =>
      refine Volume.answer_names { v with calls := v.calls + 1 } request named changed ?_
      rintro hFile rfl
      exact other rfl
  named_of_failed request v o Name named creates failed := by
    unfold Volume.system
    cases fails v.calls with
    | some error => exact named
    | none =>
      cases request with
      | createDirectory => exact Volume.create_names named
      | createFile => exact Volume.create_names named
      | _ => cases creates
  opened request v o Name h named creates same reply := by
    unfold Volume.system at reply
    cases failing : fails v.calls with
    | some error =>
      rw [failing] at reply
      cases reply
    | none =>
      rw [failing] at reply
      cases request with
      | createDirectory =>
        cases same
        exact Volume.create_opened (show { v with calls := v.calls + 1 }.names _ = some o from named) reply
      | createFile =>
        cases same
        exact Volume.create_opened (show { v with calls := v.calls + 1 }.names _ = some o from named) reply
      | _ => cases creates
  queried v h info reply := by
    unfold Volume.system at reply
    cases failing : fails v.calls with
    | some error =>
      rw [failing] at reply
      cases reply
    | none =>
      rw [failing] at reply
      cases reply
      rfl

def Volume.single (Name : UnicodeString) (file : DiskFile) : Volume where
  names := fun Name' => if Name' = Name then some 0 else none
  files := fun _ => file
  unused := 1
  now := 0
  calls := 0
  fresh := by
    intro Name' id named
    split at named <;> simp only [Option.some.injEq, reduceCtorEq] at named
    omega

def volumeConfig (bytes : List BYTE) (options : Options) : Config Volume VolumeHandle where
  archive := ⟨bytes, fun _ => 0⟩
  dwBufferSize := 65536
  isDword := bufferSize_dword
  options := options
  system := (volumeFileSystem fun _ => none).system
  included _ _ := true
  bCancel _ := false

def testOptions : Options := { bTestMode := true }

def fileWith (FileAttributes : DWORD) : DiskFile := ⟨⟨1, 1, 1, 1, FileAttributes⟩, [7], 0, false⟩

def testRun (FileAttributes : DWORD) : Outcome XError (Session Volume) (Event VolumeHandle) Bool :=
  restoreDirectoryTree (volumeConfig (emptyFile 0x61).encode testOptions)
    (Session.start (Volume.single [0x61] (fileWith FileAttributes)))

def readonlyArchive : DWORD := fileAttributeReadonly ||| fileAttributeArchive

theorem testRun_opens : (∀ e ∈ (testRun fileAttributeArchive).events, Opens (fun h => h.id ≠ 0) e) ∧
    ∀ e ∈ (testRun readonlyArchive).events, Opens (fun h => h.id ≠ 0) e := by
  decide +kernel

theorem restoreDirectoryTree_untouched_test :
    (testRun fileAttributeArchive).state.disk.files 0 = fileWith fileAttributeArchive :=
  have named : (volumeFileSystem fun _ => none).named
    (Volume.single [0x61] (fileWith fileAttributeArchive)) [0x61] = some 0 := rfl
  (restoreDirectoryTree_untouched rfl _ named testRun_opens.1
    (spares_of_writable (by decide) _)).1

/-- Test mode on an archive with the name of a read-only file. -/
theorem readonly_reset :
    ¬ ∀ (c : Config Volume VolumeHandle) (fails : Nat → Option DWORD) (v : Volume)
      (o : Nat) (Name : UnicodeString), c.system = (volumeFileSystem fails).system →
      v.names Name = some o →
      (∀ e ∈ (restoreDirectoryTree c (Session.start v)).events, Opens (fun h => h.id ≠ o) e) →
      (restoreDirectoryTree c (Session.start v)).state.disk.files o = v.files o := by
  intro untouched
  have same := untouched (volumeConfig (emptyFile 0x61).encode testOptions) (fun _ => none)
    (Volume.single [0x61] (fileWith readonlyArchive)) 0 [0x61] rfl rfl testRun_opens.2
  have reset : (testRun readonlyArchive).state.disk.files 0 ≠ fileWith readonlyArchive := by
    decide +kernel
  exact reset same

end StrArc
