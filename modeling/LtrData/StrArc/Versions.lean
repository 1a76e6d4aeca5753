import LtrData.Library.KeyedUpdates
import LtrData.StrArc.VolumeRestore
import Mathlib.Data.List.Induction

namespace StrArc

open KeyedUpdates

/-! ### A volume on which every file has one name, as a map from names to files -/

/-- No file has two names. -/
def Volume.Separate (v : Volume) : Prop :=
  ∀ Name Name' id, v.names Name = some id → v.names Name' = some id → Name = Name'

def Volume.file (v : Volume) (Name : UnicodeString) : Option DiskFile := (v.names Name).map v.files

/-- What changes one file and its name only. -/
structure Updated (v : Volume) (Name : UnicodeString) (file : Option DiskFile) (v' : Volume) : Prop where
  separate : v'.Separate
  now : v'.now = v.now
  file : v'.file = Function.update v.file Name file

section Updated

variable {v v' v'' : Volume} {Name : UnicodeString} {file file' : Option DiskFile}

theorem Updated.refl (separate : v.Separate) : Updated v Name (v.file Name) v :=
  ⟨separate, rfl, (Function.update_eq_self Name v.file).symm⟩

theorem Updated.trans (first : Updated v Name file v') (second : Updated v' Name file' v'') :
    Updated v Name file' v'' :=
  ⟨second.separate, second.now.trans first.now, by
    rw [second.file, first.file, Function.update_idem]⟩

theorem Updated.own (updated : Updated v Name file v') : v'.file Name = file := by
  rw [updated.file, Function.update_self]

theorem file_some {id : Nat} (named : v.names Name = some id) : v.file Name = some (v.files id) := by
  rw [Volume.file, named]
  rfl

theorem updated_change (separate : v.Separate) {id : Nat} (named : v.names Name = some id)
    (f : DiskFile → DiskFile) : Updated v Name (some (f (v.files id))) (v.change id f) := by
  refine ⟨separate, rfl, ?_⟩
  funext other
  by_cases own : other = Name
  · subst own
    rw [Function.update_self, file_some (v := v.change id f) named]
    simp [Volume.change]
  · rw [Function.update_of_ne own]
    unfold Volume.file
    cases under : v.names other with
    | none => simp [Volume.change, under]
    | some id' =>
      have apart : id' ≠ id := by
        intro same
        subst same
        exact own (separate other Name id' under named)
      simp [Volume.change, under, Function.update_of_ne apart]

theorem updated_add (separate : v.Separate) (unnamed : v.names Name = none) (file : DiskFile) :
    Updated v Name (some file) (v.add Name file) := by
  have names (other : UnicodeString) :
      (v.add Name file).names other = if other = Name then some v.unused else v.names other :=
    Function.update_apply _ _ _ _
  refine ⟨?_, rfl, ?_⟩
  · intro one two id first second
    rw [names] at first second
    split at first
    · next own =>
      cases first
      split at second
      · next own' => exact own.trans own'.symm
      · exact absurd (v.fresh two v.unused second) (Nat.lt_irrefl _)
    · split at second
      · cases second
        exact absurd (v.fresh one v.unused first) (Nat.lt_irrefl _)
      · exact separate one two id first second
  · funext other
    unfold Volume.file
    rw [names]
    by_cases own : other = Name
    · subst own
      simp [Volume.add]
    · rw [if_neg own, Function.update_of_ne own]
      cases under : v.names other with
      | none => rfl
      | some id =>
        have below := v.fresh other id under
        simp [Volume.add, Function.update_of_ne (show id ≠ v.unused by omega)]

end Updated

/-! ### What an archived object makes of the file under its name -/

def DiskFile.existing (file : DiskFile) : FileBasicInformation :=
  { file.basic with FileAttributes := reportedAttributes file.basic.FileAttributes }

def DiskFile.writable (file : DiskFile) : DiskFile :=
  if hasAttribute file.existing.FileAttributes fileAttributeReadonly then
    file.setBasic (withoutAttribute file.existing fileAttributeReadonly)
  else file

def DiskFile.finish (file : DiskFile) (o : Options) (FileInfo : ByHandleFileInformation) : DiskFile :=
  if o.bProcessFileTimes || o.bProcessFileAttribs then file.setBasic (finalInformation o FileInfo)
  else file

namespace Archived

def isDirectory (object : Archived) : Bool :=
  hasAttribute object.info.dwFileAttributes fileAttributeDirectory

def created (now : LONGLONG) (object : Archived) : DiskFile :=
  if object.isDirectory then
    newFile now ((object.info.dwFileAttributes &&& ~~~fileAttributeReadonly) ||| fileAttributeDirectory)
  else newFile now (object.info.dwFileAttributes &&& ~~~fileAttributeReadonly)

def overlaid (o : Options) (now : LONGLONG) (object : Archived) (file : DiskFile) : DiskFile :=
  (object.contents.list.foldl (DiskFile.take now) file).finish o object.info

/-- What becomes of a file that is there when the target is created. -/
def opened (o : Options) (now : LONGLONG) (object : Archived) (file : DiskFile) : DiskFile :=
  if object.isDirectory then object.overlaid o now file
  else
    match o.dwExtractCreation with
    | .fileCreate => file
    | .fileOpenIf => object.overlaid o now file
    | .fileSupersede => object.overlaid o now (object.created now)

/-- The restore of an object without links, as seen from its name. -/
def onto (o : Options) (now : LONGLONG) (object : Archived) : Option DiskFile → Option DiskFile
  | none => if o.bFreshenExisting then none else some (object.overlaid o now (object.created now))
  | some file =>
    if overwrites o file.existing object.info then
      some (object.opened o now file.writable)
    else some file

end Archived

section restored

variable {v : Volume} {id : Nat} {Name : UnicodeString}

theorem Volume.change_congr {f g : DiskFile → DiskFile} (same : f (v.files id) = g (v.files id)) :
    v.change id f = v.change id g := by
  unfold change
  rw [same]

theorem Volume.writable_eq (v : Volume) (id : Nat) : v.writable id = v.change id DiskFile.writable := by
  unfold writable
  by_cases readonly : hasAttribute (v.existing id).FileAttributes fileAttributeReadonly = true
  · rw [if_pos readonly]
    apply change_congr
    exact (if_pos readonly).symm
  · rw [if_neg readonly]
    have same : (v.files id).writable = v.files id := if_neg readonly
    rw [change_congr (g := fun file => file) same, change_id]

theorem Volume.finished_eq (v : Volume) (o : Options) (id : Nat) (FileInfo : ByHandleFileInformation) :
    v.finished o id FileInfo = v.change id (·.finish o FileInfo) := by
  unfold finished DiskFile.finish
  by_cases sets : (o.bProcessFileTimes || o.bProcessFileAttribs) = true
  · rw [if_pos sets]
    simp only [if_pos sets]
  · rw [if_neg sets]
    simp only [if_neg sets, change_id]

theorem Volume.filled_streams (v : Volume) (o : Options) (h : VolumeHandle) {object : Archived}
    {list : List Stream} (streams : object.contents = .streams list) :
    v.filled o h object = v.change h.id (object.overlaid o v.now) := by
  unfold filled Archived.overlaid
  rw [streams]
  dsimp only
  rw [finished_eq, change_change]
  rfl

theorem updated_filled (separate : v.Separate) (o : Options) {h : VolumeHandle}
    (named : v.names Name = some h.id) {object : Archived} {list : List Stream}
    (streams : object.contents = .streams list) :
    Updated v Name (some (object.overlaid o v.now (v.files h.id))) (v.filled o h object) := by
  rw [v.filled_streams o h streams]
  exact updated_change separate named _

theorem Volume.create_none {FileAttributes : DWORD} {disposition : CreateDisposition}
    (unnamed : v.names Name = none) : v.create Name FileAttributes disposition =
      (.opened ⟨Name, v.unused⟩, v.add Name (newFile v.now FileAttributes)) := by
  unfold create
  rw [unnamed]

theorem Volume.createdTarget_none (o : Options) {object : Archived}
    (unnamed : v.names object.name = none) :
    v.createdTarget o object.name object.info =
      (.opened ⟨object.name, v.unused⟩, v.add object.name (object.created v.now)) := by
  unfold createdTarget Archived.created Archived.isDirectory
  by_cases directory : hasAttribute object.info.dwFileAttributes fileAttributeDirectory = true
  · rw [if_pos directory, if_pos directory, create_none unnamed]
  · rw [if_neg directory, if_neg directory, create_none unnamed]

theorem updated_extracted_new (separate : v.Separate) (o : Options) {object : Archived}
    {list : List Stream} (streams : object.contents = .streams list)
    (unnamed : v.names object.name = none) :
    Updated v object.name (some (object.overlaid o v.now (object.created v.now)))
      (v.extracted o object) := by
  unfold Volume.extracted
  rw [v.createdTarget_none o unnamed]
  have added := updated_add separate unnamed (object.created v.now)
  have filled := updated_filled added.separate o (h := ⟨object.name, v.unused⟩)
    (show (v.add object.name (object.created v.now)).names object.name = some v.unused from
      Function.update_self _ _ _) streams
  rw [added.now] at filled
  have at_ : (v.add object.name (object.created v.now)).files v.unused = object.created v.now :=
    Function.update_self _ _ _
  rw [show VolumeHandle.id ⟨object.name, v.unused⟩ = v.unused from rfl, at_] at filled
  exact added.trans filled

theorem updated_extracted (separate : v.Separate) (o : Options) {object : Archived}
    {list : List Stream} (streams : object.contents = .streams list)
    (named : v.names object.name = some id) :
    Updated v object.name (some (object.opened o v.now (v.files id))) (v.extracted o object) := by
  have opened : Updated v object.name (some (object.overlaid o v.now (v.files id)))
      (v.filled o ⟨object.name, id⟩ object) :=
    updated_filled separate o (h := ⟨object.name, id⟩) named streams
  unfold Volume.extracted Volume.createdTarget Archived.opened Archived.isDirectory Volume.create
  rw [named]
  by_cases directory : hasAttribute object.info.dwFileAttributes fileAttributeDirectory = true
  · rw [if_pos directory, if_pos directory]
    exact opened
  · rw [if_neg directory, if_neg directory]
    cases disposition : o.dwExtractCreation with
    | fileCreate =>
      have same : Updated v object.name (v.file object.name) v := Updated.refl separate
      rwa [file_some named] at same
    | fileOpenIf => exact opened
    | fileSupersede =>
      have plain : object.created v.now =
          newFile v.now (object.info.dwFileAttributes &&& ~~~fileAttributeReadonly) := if_neg directory
      rw [← plain]
      have replaced := updated_change separate named fun _ => object.created v.now
      have filled := updated_filled replaced.separate o (h := ⟨object.name, id⟩) named streams
      rw [replaced.now] at filled
      have at_ : (v.change id fun _ => object.created v.now).files id = object.created v.now :=
        Function.update_self _ _ _
      rw [show VolumeHandle.id ⟨object.name, id⟩ = id from rfl, at_] at filled
      exact replaced.trans filled

theorem file_none (unnamed : v.names Name = none) : v.file Name = none := by
  rw [Volume.file, unnamed]
  rfl

/-- Without links, the restore of an object changes the file under its name only. -/
theorem updated_restored {c : Config Volume VolumeHandle} (separate : v.Separate) {object : Archived}
    {list : List Stream} (streams : object.contents = .streams list) :
    Updated v object.name (if c.included object.name object.info then
      object.onto c.options v.now (v.file object.name) else v.file object.name)
      (v.restored c object) := by
  have same : Updated v object.name (v.file object.name) v := Updated.refl separate
  unfold Volume.restored
  by_cases included : c.included object.name object.info = true
  · rw [if_pos included, if_pos included]
    unfold Archived.onto
    cases named : v.names object.name with
    | none =>
      have probed : v.probed c.options object.name object.info = (!c.options.bFreshenExisting, v) := by
        unfold Volume.probed
        rw [named]
      rw [probed, file_none named]
      cases freshens : c.options.bFreshenExisting with
      | true =>
        rwa [file_none named] at same
      | false => exact updated_extracted_new separate c.options streams named
    | some id =>
      rw [file_some named]
      dsimp only
      rw [show (v.files id).existing = v.existing id from rfl]
      by_cases allowed : overwrites c.options (v.existing id) object.info = true
      · have probed : v.probed c.options object.name object.info =
            (true, v.change id DiskFile.writable) := by
          unfold Volume.probed
          rw [named]
          dsimp only
          rw [if_pos allowed, v.writable_eq id]
        rw [if_pos allowed, probed, if_pos rfl]
        have writable := updated_change separate named DiskFile.writable
        have extracted := updated_extracted writable.separate c.options streams named
        have at_ : (v.change id DiskFile.writable).files id = (v.files id).writable :=
          Function.update_self _ _ _
        rw [writable.now, at_] at extracted
        exact writable.trans extracted
      · have probed : v.probed c.options object.name object.info = (false, v) := by
          unfold Volume.probed
          rw [named]
          dsimp only
          rw [if_neg allowed]
        rw [if_neg allowed, probed, if_neg Bool.false_ne_true]
        rwa [file_some named] at same
  · rw [if_neg included, if_neg included]
    exact same

end restored

/-- The versions of a name that a restore takes from the archived objects. -/
def versions (c : Config Volume VolumeHandle) (Name : UnicodeString) (objects : List Archived) :
    List Archived :=
  (objects.filter fun object => c.included object.name object.info).filter fun object =>
    object.name = Name

/-- What comes under a name depends on the versions of that name alone. -/
theorem file_foldl_restored {c : Config Volume VolumeHandle} {objects : List Archived} {v : Volume}
    (separate : v.Separate) (streams : ∀ object ∈ objects, ∃ list, object.contents = .streams list)
    (Name : UnicodeString) :
    (objects.foldl (Volume.restored c) v).file Name =
      (versions c Name objects).foldl (fun file object => object.onto c.options v.now file)
        (v.file Name) := by
  rw [versions, ← foldl_updated]
  induction objects generalizing v with
  | nil => rfl
  | cons object rest ih =>
    obtain ⟨list, is⟩ := streams object List.mem_cons_self
    have first := updated_restored (c := c) separate is
    rw [List.foldl_cons, ih first.separate fun other mem => streams other (List.mem_cons_of_mem _ mem),
      first.now, first.file]
    by_cases included : c.included object.name object.info = true
    · rw [List.filter_cons_of_pos (p := fun object : Archived => c.included object.name object.info)
        included, List.foldl_cons, if_pos included]
      rfl
    · rw [List.filter_cons_of_neg (p := fun object : Archived => c.included object.name object.info)
        included, if_neg included, Function.update_eq_self]

theorem versions_append (c : Config Volume VolumeHandle) (Name : UnicodeString)
    (objects more : List Archived) :
    versions c Name (objects ++ more) = versions c Name objects ++ versions c Name more := by
  simp only [versions, List.filter_append]

/-! ### The contents and the information of a version -/

/-- The data of the last data stream. Where there is none, the content of a file is left as it is. -/
def lastData (streams : List Stream) : Option (List BYTE) :=
  (streams.filter fun stream => stream.dwStreamId = backupData).getLast?.map Stream.data

def Archived.data (object : Archived) : Option (List BYTE) := lastData object.contents.list

theorem content_setBasic (file : DiskFile) (info : FileBasicInformation) :
    (file.setBasic info).content = file.content := rfl

theorem content_finish (file : DiskFile) (o : Options) (FileInfo : ByHandleFileInformation) :
    (file.finish o FileInfo).content = file.content := by
  unfold DiskFile.finish
  split
  · exact content_setBasic file _
  · rfl

theorem content_take (now : LONGLONG) (file : DiskFile) (stream : Stream) :
    (file.take now stream).content =
      if stream.dwStreamId = backupData then stream.data else file.content := by
  unfold DiskFile.take DiskFile.stored
  by_cases isData : stream.dwStreamId = backupData
  · simp [isData, DiskFile.written]
  · simp [isData]

theorem content_over (o : Options) (now : LONGLONG) (object : Archived) (file : DiskFile) :
    (object.overlaid o now file).content = object.data.getD file.content := by
  unfold Archived.overlaid Archived.data lastData
  rw [content_finish]
  induction object.contents.list using List.reverseRecOn with
  | nil => rfl
  | append_singleton list stream ih =>
    rw [List.foldl_append, List.foldl_cons, List.foldl_nil, content_take, List.filter_append]
    by_cases isData : stream.dwStreamId = backupData
    · simp [isData]
    · simp [isData, ih]

/-- The archived times and attributes, as far as they are restored and are not zero. -/
structure DiskFile.Shows (o : Options) (FileInfo : ByHandleFileInformation) (file : DiskFile) :
    Prop where
  creationTime : o.bProcessFileTimes = true → FileInfo.ftCreationTime ≠ 0 →
    file.basic.CreationTime = FileInfo.ftCreationTime
  lastAccessTime : o.bProcessFileTimes = true → FileInfo.ftLastAccessTime ≠ 0 →
    file.basic.LastAccessTime = FileInfo.ftLastAccessTime
  lastWriteTime : o.bProcessFileTimes = true → FileInfo.ftLastWriteTime ≠ 0 →
    file.basic.LastWriteTime = FileInfo.ftLastWriteTime
  attributes : o.bProcessFileAttribs = true → FileInfo.dwFileAttributes ≠ 0 →
    file.basic.FileAttributes = FileInfo.dwFileAttributes &&& ~~~fileAttributeNormal

theorem shows_over (o : Options) (now : LONGLONG) (object : Archived) (file : DiskFile) :
    (object.overlaid o now file).Shows o object.info := by
  have sets (set : o.bProcessFileTimes = true ∨ o.bProcessFileAttribs = true) :
      object.overlaid o now file = (object.contents.list.foldl (DiskFile.take now) file).setBasic
        (finalInformation o object.info) := if_pos (by simpa using set)
  constructor
  · intro times known
    rw [sets (.inl times)]
    simp only [DiskFile.setBasic, finalInformation, times, if_true]
    exact if_neg known
  · intro times known
    rw [sets (.inl times)]
    simp only [DiskFile.setBasic, finalInformation, times, if_true]
    exact if_neg known
  · intro times known
    rw [sets (.inl times)]
    simp only [DiskFile.setBasic, finalInformation, times, if_true]
    exact if_neg known
  · intro attributes known
    rw [sets (.inr attributes)]
    simp only [DiskFile.setBasic, finalInformation, attributes, if_true]
    exact if_neg known

/-- A file restored from this version, whatever stood there before. -/
structure DiskFile.Holds (o : Options) (object : Archived) (file : DiskFile) : Prop where
  content : ∀ bytes, object.data = some bytes → file.content = bytes
  shows : file.Shows o object.info

theorem holds_over (o : Options) (now : LONGLONG) (object : Archived) (file : DiskFile) :
    (object.overlaid o now file).Holds o object where
  content bytes data := by
    rw [content_over, data]
    rfl
  shows := shows_over o now object file

/-! ### Restores that overwrite -/

/-- The -o switch without letters behind it. -/
structure OverwritesAll (o : Options) : Prop where
  creation : o.dwExtractCreation = .fileOpenIf
  archived : o.bOverwriteArchived = false
  older : o.bOverwriteOlder = false
  freshen : o.bFreshenExisting = false

theorem OverwritesAll.onto {o : Options} (overwrites : OverwritesAll o) (now : LONGLONG)
    (object : Archived) (file : Option DiskFile) :
    ∃ file', object.onto o now file = some (object.overlaid o now file') := by
  unfold Archived.onto
  cases file with
  | none =>
    dsimp only
    rw [overwrites.freshen]
    exact ⟨_, rfl⟩
  | some file =>
    have allowed : StrArc.overwrites o file.existing object.info = true := by
      unfold StrArc.overwrites
      rw [overwrites.archived, overwrites.older]
      rfl
    dsimp only
    rw [if_pos allowed]
    unfold Archived.opened
    rw [overwrites.creation]
    refine ⟨file.writable, ?_⟩
    split <;> rfl

/-- The last version of a name wins, and names without a version are left alone. -/
theorem OverwritesAll.last {c : Config Volume VolumeHandle} (overwrites : OverwritesAll c.options)
    {objects : List Archived} {v : Volume} (separate : v.Separate)
    (streams : ∀ object ∈ objects, ∃ list, object.contents = .streams list) (Name : UnicodeString)
    {before : List Archived} {object : Archived}
    (last : versions c Name objects = before ++ [object]) :
    ∃ file, (objects.foldl (Volume.restored c) v).file Name = some file ∧ file.Holds c.options object := by
  rw [file_foldl_restored separate streams, last, List.foldl_append, List.foldl_cons, List.foldl_nil]
  obtain ⟨file, onto⟩ := overwrites.onto v.now object
    (before.foldl (fun file object => object.onto c.options v.now file) (v.file Name))
  exact ⟨_, onto, holds_over c.options v.now object file⟩

/-! ### Restores that overwrite older files -/

def NoDirectory (attributes : DWORD) : Prop := attributes &&& fileAttributeDirectory = 0

theorem noDirectory_normal : NoDirectory fileAttributeNormal := by
  unfold NoDirectory
  decide

theorem NoDirectory.and {attributes : DWORD} (plain : NoDirectory attributes) (mask : DWORD) :
    NoDirectory (attributes &&& mask) := by
  unfold NoDirectory at plain ⊢
  rw [BitVec.and_assoc, BitVec.and_comm mask, ← BitVec.and_assoc, plain]
  simp

theorem NoDirectory.archive {attributes : DWORD} (plain : NoDirectory attributes) :
    NoDirectory (attributes ||| fileAttributeArchive) := by
  have other : fileAttributeArchive &&& fileAttributeDirectory = 0 := by decide
  unfold NoDirectory at plain ⊢
  rw [BitVec.and_or_distrib_right, plain, other]
  rfl

theorem NoDirectory.hasAttribute {attributes : DWORD} (plain : NoDirectory attributes) :
    hasAttribute attributes fileAttributeDirectory = false := by
  unfold NoDirectory at plain
  simp [StrArc.hasAttribute, plain]

theorem NoDirectory.reported {attributes : DWORD} (plain : NoDirectory attributes) :
    NoDirectory (reportedAttributes attributes) := by
  unfold reportedAttributes
  split
  · exact noDirectory_normal
  · exact plain

theorem NoDirectory.setBasic {file : DiskFile} (plain : NoDirectory file.basic.FileAttributes)
    {info : FileBasicInformation} (given : NoDirectory info.FileAttributes) :
    NoDirectory (file.setBasic info).basic.FileAttributes := by
  unfold DiskFile.setBasic
  dsimp only
  split
  · exact plain
  · exact given.and _

theorem NoDirectory.written {file : DiskFile} (plain : NoDirectory file.basic.FileAttributes)
    (now : LONGLONG) (content : List BYTE) :
    NoDirectory (file.written now content).basic.FileAttributes := plain.archive

theorem NoDirectory.overlaid {file : DiskFile} (plain : NoDirectory file.basic.FileAttributes)
    (o : Options) (now : LONGLONG) {object : Archived} (given : NoDirectory object.info.dwFileAttributes) :
    NoDirectory (object.overlaid o now file).basic.FileAttributes := by
  have streams : NoDirectory (object.contents.list.foldl (DiskFile.take now) file).basic.FileAttributes := by
    induction object.contents.list generalizing file with
    | nil => exact plain
    | cons stream rest ih =>
      apply ih
      unfold DiskFile.take DiskFile.stored
      split
      · exact plain.archive
      · exact plain
  unfold Archived.overlaid DiskFile.finish
  split
  · apply streams.setBasic
    unfold finalInformation
    dsimp only
    split
    · exact given
    · exact noDirectory_normal
  · exact streams

theorem NoDirectory.writable {file : DiskFile} (plain : NoDirectory file.basic.FileAttributes) :
    NoDirectory file.writable.basic.FileAttributes := by
  unfold DiskFile.writable
  split
  · exact plain.setBasic (plain.reported.and _)
  · exact plain

/-- The -o:n switch. -/
structure OverwritesOlder (o : Options) : Prop where
  creation : o.dwExtractCreation = .fileOpenIf
  archived : o.bOverwriteArchived = false
  older : o.bOverwriteOlder = true
  freshen : o.bFreshenExisting = false
  times : o.bProcessFileTimes = true

def writeTime : Option DiskFile → WithBot Nat
  | none => ⊥
  | some file => file.basic.LastWriteTime.toNat

/-- A version that is no directory and has a time. -/
structure Archived.Timed (object : Archived) : Prop where
  plain : NoDirectory object.info.dwFileAttributes
  known : object.info.ftLastWriteTime ≠ 0

theorem Archived.Timed.created {object : Archived} (timed : object.Timed) (now : LONGLONG) :
    NoDirectory (object.created now).basic.FileAttributes := by
  unfold Archived.created Archived.isDirectory newFile
  rw [timed.plain.hasAttribute]
  exact ((timed.plain.and _).and _).archive

section older

variable {o : Options} (older : OverwritesOlder o)
include older

theorem OverwritesOlder.overwrites (object : Archived) {file : DiskFile}
    (plain : NoDirectory file.basic.FileAttributes) :
    StrArc.overwrites o file.existing object.info =
      !decide (object.info.ftLastWriteTime.toNat ≤ file.basic.LastWriteTime.toNat) := by
  unfold StrArc.overwrites DiskFile.existing
  rw [older.archived, older.older]
  simp [plain.reported.hasAttribute]

theorem OverwritesOlder.onto_newer (now : LONGLONG) {object : Archived} {file : Option DiskFile}
    (plain : ∀ f, file = some f → NoDirectory f.basic.FileAttributes)
    (newer : writeTime file < (object.info.ftLastWriteTime.toNat : Nat)) :
    ∃ f, (∀ g, file = some g → f = g.writable) ∧ (file = none → f = object.created now) ∧
      object.onto o now file = some (object.overlaid o now f) := by
  unfold Archived.onto
  cases file with
  | none =>
    dsimp only
    rw [older.freshen]
    exact ⟨_, fun _ absurd => (by cases absurd), fun _ => rfl, rfl⟩
  | some file =>
    have more : file.basic.LastWriteTime.toNat < object.info.ftLastWriteTime.toNat :=
      WithBot.coe_lt_coe.mp newer
    dsimp only
    rw [older.overwrites object (plain file rfl), decide_eq_false (Nat.not_le.mpr more),
      if_pos (by decide)]
    unfold Archived.opened
    rw [older.creation]
    refine ⟨file.writable, fun g same => (by cases same; rfl), fun absurd => (by cases absurd), ?_⟩
    split <;> rfl

theorem OverwritesOlder.onto_older (now : LONGLONG) {object : Archived} {file : Option DiskFile}
    (plain : ∀ f, file = some f → NoDirectory f.basic.FileAttributes)
    (older' : (object.info.ftLastWriteTime.toNat : Nat) ≤ writeTime file) :
    object.onto o now file = file := by
  cases file with
  | none => exact absurd older' (by simp [writeTime])
  | some file =>
    have fewer : object.info.ftLastWriteTime.toNat ≤ file.basic.LastWriteTime.toNat :=
      WithBot.coe_le_coe.mp older'
    unfold Archived.onto
    dsimp only
    rw [older.overwrites object (plain file rfl), decide_eq_true fewer, if_neg (by decide)]

theorem OverwritesOlder.forward (now : LONGLONG) :
    Forward (Archived.onto o now) (fun object => object.info.ftLastWriteTime.toNat) writeTime
      Archived.Timed fun file => ∀ f, file = some f → NoDirectory f.basic.FileAttributes where
  keeps object file timed plain f onto := by
    rcases le_or_gt ((object.info.ftLastWriteTime.toNat : Nat) : WithBot Nat) (writeTime file)
      with not_newer | newer
    · rw [older.onto_older now plain not_newer] at onto
      exact plain f onto
    · obtain ⟨f', there, new, is⟩ := older.onto_newer now plain newer
      rw [is] at onto
      cases onto
      cases file with
      | none =>
        rw [new rfl]
        exact (timed.created now).overlaid o now timed.plain
      | some file =>
        rw [there file rfl]
        exact (plain file rfl).writable.overlaid o now timed.plain
  skips object file _ plain not_newer := older.onto_older now plain not_newer
  takes object file timed plain newer := by
    obtain ⟨f, -, -, is⟩ := older.onto_newer now plain newer
    rw [is, writeTime, (shows_over o now object f).lastWriteTime older.times timed.known]
    rfl

end older

/-- The newest version of a name wins, wherever it stands. -/
theorem OverwritesOlder.newest {c : Config Volume VolumeHandle} (older : OverwritesOlder c.options)
    {objects : List Archived} {v : Volume} (separate : v.Separate)
    (streams : ∀ object ∈ objects, ∃ list, object.contents = .streams list) {Name : UnicodeString}
    (timed : ∀ object ∈ versions c Name objects, object.Timed) {best : Archived}
    (mem : best ∈ versions c Name objects)
    (newest : ∀ object ∈ versions c Name objects, object ≠ best →
      object.info.ftLastWriteTime.toNat < best.info.ftLastWriteTime.toNat)
    (there : ∀ file, v.file Name = some file → NoDirectory file.basic.FileAttributes ∧
      file.basic.LastWriteTime.toNat < best.info.ftLastWriteTime.toNat) :
    ∃ file, (objects.foldl (Volume.restored c) v).file Name = some file ∧ file.Holds c.options best := by
  obtain ⟨before, after, split, first⟩ := List.eq_append_cons_of_mem mem
  rw [file_foldl_restored separate streams, split]
  rw [split] at timed newest
  have below : writeTime (v.file Name) < (best.info.ftLastWriteTime.toNat : Nat) := by
    cases file : v.file Name with
    | none => exact WithBot.bot_lt_coe _
    | some f => exact WithBot.coe_lt_coe.mpr (there f file).2
  obtain ⟨file, plain, below', result⟩ := (older.forward v.now).newest timed
    (fun f file => (there f file).1) below
    (fun object mem => newest object (by simp [mem]) fun same => first (same ▸ mem))
    (fun object mem => by
      by_cases same : object = best
      · rw [same]
      · exact Nat.le_of_lt (newest object (by simp [mem]) same))
  obtain ⟨f, -, -, is⟩ := older.onto_newer v.now plain below'
  rw [result, is]
  exact ⟨_, rfl, holds_over c.options v.now best f⟩

theorem OnDisk.file {s : Session Volume} {v : Volume} (on : OnDisk s v) : s.disk.file = v.file := by
  obtain ⟨n, disk⟩ := on
  rw [disk]
  rfl

theorem Volume.empty_separate : Volume.empty.Separate := fun _ _ _ absurd _ => by cases absurd

def newerOptions : Options := { bOverwriteOlder := true, dwExtractCreation := .fileOpenIf }

theorem versionOf_timed {ftLastWriteTime : LONGLONG} (known : ftLastWriteTime ≠ 0) (data : List BYTE) :
    (versionOf ftLastWriteTime data).Timed :=
  ⟨by unfold NoDirectory; simp [versionOf, noFileInformation], known⟩

end StrArc
