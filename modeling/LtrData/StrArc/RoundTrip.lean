import LtrData.StrArc.BackupRuns
import LtrData.StrArc.Bounds
import LtrData.StrArc.TreeFraming

namespace StrArc

open Traced

variable {F : Type} [DecidableEq F]

/-- A backup nobody cancels, of files that BackupRead delivers as whole streams, cut into blocks as
    it likes. What a file holds may change from one question to the next. -/
structure CompleteBackup (F : Type) where
  c : BackupConfig F
  roots : List (UnicodeString × Node F)
  disk : F → ByHandleFileInformation
  streams : F → Nat → List Stream
  uncancelled : ∀ n, c.bCancel n = false
  ends : ∀ id n, (c.reads id n).fails = false
  delivers : ∀ id n, (c.reads id n).blocks.flatten = (streams id n).flatMap Stream.encode

/-- What an object of the history is in the archive. -/
def Backed.archived (method : BackupMethods) (streams : F → Nat → List Stream) (object : Backed F) :
    Archived where
  name := object.File
  info := storedInformation method object.FileInfo
  shortName := object.ShortName
  contents :=
    match object.LinkName with
    | some LinkName => .link LinkName
    | none => .streams (streams object.id object.asked)

namespace CompleteBackup

variable (b : CompleteBackup F)

def run : Outcome Empty (BackupSession F) (Backed F) Unit := backupFiles b.c b.roots (.start b.disk)

def objects : List Archived :=
  b.run.events.map (Backed.archived b.c.options.BackupMethod b.streams)

omit [DecidableEq F] in
theorem readsThrough (id : F) (asked : Nat) : ReadsThrough b.c id asked :=
  ⟨b.ends id asked, fun _ _ => b.uncancelled _⟩

theorem bytes_eq {object : Backed F} (mem : object ∈ b.run.events) :
    object.bytes b.c.options.BackupMethod =
      (object.archived b.c.options.BackupMethod b.streams).encode := by
  have read := (saving_readAll b.c).backupFiles_run b.roots (.start b.disk) object mem
  unfold Backed.bytes Backed.archived Archived.encode
  cases link : object.LinkName with
  | some LinkName => rfl
  | none =>
    rw [(read link).all (b.readsThrough _ _), b.delivers]
    rfl

theorem archive_eq : b.run.state.archive = b.objects.flatMap Archived.encode := by
  have archive := backupFiles_archive b.c b.roots b.disk
  rw [run, archive, objects, List.flatMap_map]
  exact List.flatMap_congr fun object mem => b.bytes_eq mem

end CompleteBackup

/-- Streams that are no links, with complete names that fit the path buffer. -/
def Archived.Plain (File : UnicodeString) (object : Archived) : Prop :=
  ∀ list, object.contents = .streams list → ∀ stream ∈ list,
    stream.dwStreamId ≠ backupLink ∧ stream.Storable File

omit [DecidableEq F] in
theorem restorable_of_plain {File : UnicodeString} {list : List Stream}
    (plain : ∀ stream ∈ list, stream.dwStreamId ≠ backupLink ∧ stream.Storable File) :
    Restorable File list := by
  induction list with
  | nil => trivial
  | cons stream rest ih =>
    have rest_plain : ∀ other ∈ rest, other.dwStreamId ≠ backupLink ∧ other.Storable File :=
      fun other mem => plain other (List.mem_cons_of_mem _ mem)
    obtain ⟨id, storable⟩ := plain stream List.mem_cons_self
    rw [Restorable, if_neg id]
    split
    · exact ⟨storable, fun other mem _ => (rest_plain other mem).2⟩
    · exact ih rest_plain

omit [DecidableEq F] in
theorem Archived.Plain.restorable {File : UnicodeString} {object : Archived} {dwBufferSize : Nat}
    (plain : object.Plain File) (wf : object.WellFormed dwBufferSize) :
    Restorable File object.contents.list := by
  have contents := wf.contents
  unfold Plain at plain
  cases kind : object.contents with
  | streams list => exact restorable_of_plain (plain list kind)
  | link LinkName =>
    rw [kind] at contents
    have bound : (wcharBytes LinkName).length < 2 ^ 16 := by
      rw [length_wcharBytes]
      exact Nat.lt_of_le_of_lt contents.1 (by decide)
    exact ⟨rfl, bound⟩

variable {σ H : Type}

theorem succeeded_inStep : InStep (Succeeded : Event H → Prop) :=
  ⟨fun _ _ _ held => held, .inr fun _ held => held⟩

/-- What any number of backups have appended to an archive is restored object by object. -/
theorem restoreDirectoryTree_roundTrip [DecidableEq H] (backups : List (CompleteBackup F)) (c : Config σ H)
    (archive : c.archive.bytes = backups.flatMap fun b => b.run.state.archive)
    (quiet : ∀ pos, c.bCancel pos = false)
    (wf : ∀ object ∈ backups.flatMap CompleteBackup.objects, object.WellFormed c.dwBufferSize)
    (plain : ∀ object ∈ backups.flatMap CompleteBackup.objects,
      object.Plain (restoredName c.options object.name object.info object.shortName).1)
    (disk : σ) (succeeded : ∀ e ∈ (restoreDirectoryTree c (Session.start disk)).events, Succeeded e) :
    (restoreDirectoryTree c (Session.start disk)).exception = none ∧
      restoredFiles (restoreDirectoryTree c (Session.start disk)).events =
        (backups.flatMap CompleteBackup.objects).map
          (fun object => (object.name, object.info, object.shortName)) ∧
      (Extracts c → deliveries (restoreDirectoryTree c (Session.start disk)).events =
        (backups.flatMap CompleteBackup.objects).flatMap Archived.deliveries) := by
  have objects : c.archive.bytes = (backups.flatMap CompleteBackup.objects).flatMap Archived.encode := by
    rw [archive, List.flatMap_assoc]
    exact List.flatMap_congr fun b _ => b.archive_eq
  have restorable : ∀ object ∈ backups.flatMap CompleteBackup.objects, Restorable
      (restoredName c.options object.name object.info object.shortName).1 object.contents.list :=
    fun object mem => (plain object mem).restorable (wf object mem)
  obtain ⟨ended, visited⟩ := restoreDirectoryTree_visited quiet (fun _ => succeeded_inStep) objects wf
    (fun _ => .inr restorable) disk succeeded
  refine ⟨ended, visited.files, fun extracts => ?_⟩
  have own : ∀ object ∈ backups.flatMap CompleteBackup.objects,
      Restorable object.name object.contents.list := by
    intro object mem
    have under := restorable object mem
    rwa [extracts.restoredName] at under
  have delivered := visited.delivers (fun _ held => held) extracts own ⟨none, [], []⟩
  rwa [List.nil_append] at delivered

/-- A backup of one file with these streams. -/
def backupOf (name : UnicodeString) (streams : List Stream) : CompleteBackup Unit where
  c :=
    { options := {}
      opens := fun _ => true
      informs := fun _ => true
      resets := fun _ => true
      reads := fun _ _ =>
        { blocks := streams.map Stream.encode
          nonempty := by
            intro block mem
            obtain ⟨stream, -, rfl⟩ := List.mem_map.mp mem
            exact List.ne_nil_of_length_pos (by simp [Stream.encode, headerSize])
          fails := false }
      findShortName := fun _ _ => []
      lower := id
      bCancel := fun _ => false }
  roots := [(name, .mk () .nil)]
  disk _ := noFileInformation
  streams _ _ := streams
  uncancelled _ := rfl
  ends _ _ := rfl
  delivers _ _ := (List.flatMap_def).symm

/-- A system on which nothing exists and every call does what it is asked for. -/
def workingSystem : System Unit Unit
  | .openFile .existing _, d => (.failed 2, d)
  | .openFile .existingFollowed _, d => (.failed 2, d)
  | .openFile .., d => (.opened (), d)
  | .createFile .., d => (.opened (), d)
  | .createDirectory .., d => (.opened (), d)
  | .writeFile _ data, d => (.written data.length, d)
  | _, d => (.success, d)

def workingConfig (bytes : List BYTE) : Config Unit Unit :=
  { sampleConfig bytes with system := workingSystem }

theorem workingConfig_extracts (bytes : List BYTE) : Extracts (workingConfig bytes) :=
  ⟨rfl, rfl, rfl, rfl, rfl, fun _ _ => rfl⟩

omit [DecidableEq F] in
theorem Follows.succeeded {system : System σ H} {t : List (Event H)} {d d' : σ}
    (works : ∀ request d, Succeeded (.call request (system request d).1))
    (follows : Follows system d t d') : ∀ e ∈ t, Succeeded e := by
  induction t generalizing d with
  | nil => exact fun _ absurd => by cases absurd
  | cons e t ih =>
    intro e' mem
    cases e with
    | call request reply =>
      obtain ⟨answer, follows⟩ := follows
      rcases List.mem_cons.mp mem with rfl | mem
      · rw [← answer]
        exact works request d
      · exact ih follows e' mem
    | _ =>
      rcases List.mem_cons.mp mem with rfl | mem
      · trivial
      · exact ih follows e' mem

theorem workingSystem_succeeds (request : Call Unit) (d : Unit) :
    Succeeded (.call request (workingSystem request d).1) := by
  cases request with
  | openFile site Name =>
    cases site <;> first | trivial | exact ⟨(), rfl⟩
  | createDirectory => exact ⟨(), rfl⟩
  | createFile => exact ⟨(), rfl⟩
  | writeFile => rfl
  | _ => rfl

theorem workingConfig_succeeds (bytes : List BYTE) :
    ∀ e ∈ (restoreDirectoryTree (workingConfig bytes) (Session.start ())).events, Succeeded e := by
  have follows : Follows workingSystem () _ _ :=
    restoreDirectoryTree_follows (c := workingConfig bytes) ()
  exact follows.succeeded workingSystem_succeeds

/-- The file "a" with these streams, as the backup of it has it. -/
def fileOf (streams : List Stream) : Archived := ⟨[0x61], noFileInformation, [], .streams streams⟩

def dataStream : Stream := ⟨backupData, 0, [], [1, 2, 3]⟩

def sparseStream : Stream := ⟨backupAlternateData, 8, [0x3A, 0x73], [1, 2, 3]⟩

theorem dataStream_wellFormed : dataStream.WellFormed 65536 :=
  ⟨by decide, by decide, by decide, by decide, by decide⟩

theorem sparseStream_wellFormed : sparseStream.WellFormed 65536 :=
  ⟨by decide, by decide, by decide, by decide, by decide⟩

theorem fileOf_wellFormed {stream : Stream} (wf : stream.WellFormed 65536) :
    (fileOf [stream]).WellFormed 65536 :=
  { emptyFile_wellFormed 0x61 with
    contents := by
      intro other mem
      obtain rfl := List.mem_singleton.mp mem
      exact wf }

theorem fileOf_plain {stream : Stream} (id : stream.dwStreamId ≠ backupLink)
    (storable : stream.Storable [0x61]) : (fileOf [stream]).Plain [0x61] := by
  rintro _ ⟨⟩ other mem
  obtain rfl := List.mem_singleton.mp mem
  exact ⟨id, storable⟩

theorem restoreDirectoryTree_roundTrip_data :
    deliveries (restoreDirectoryTree (workingConfig (fileOf [dataStream]).encode)
      (Session.start ())).events =
      [.file [0x61] noFileInformation [], .stream [0x61] dataStream.encode] := by
  have objects : [backupOf [0x61] [dataStream]].flatMap CompleteBackup.objects = [fileOf [dataStream]] := by
    decide +kernel
  have archive : (workingConfig (fileOf [dataStream]).encode).archive.bytes =
      [backupOf [0x61] [dataStream]].flatMap fun b => b.run.state.archive := by
    decide +kernel
  have extracts := workingConfig_extracts (fileOf [dataStream]).encode
  have delivered := (restoreDirectoryTree_roundTrip [backupOf [0x61] [dataStream]]
    (workingConfig (fileOf [dataStream]).encode) archive (fun _ => rfl)
    (by
      rw [objects]
      intro object mem
      obtain rfl := List.mem_singleton.mp mem
      exact fileOf_wellFormed dataStream_wellFormed)
    (by
      rw [objects]
      intro object mem
      obtain rfl := List.mem_singleton.mp mem
      exact fileOf_plain (by decide) (by decide))
    () (workingConfig_succeeds _)).2.2 extracts
  rw [delivered, objects]
  rfl

def Delivery.bytes : Delivery → List BYTE
  | stream _ bytes => bytes
  | alternate _ data => data
  | _ => []

/-- The data of an alternate stream with the sparse attribute is passed over. -/
theorem sparse_data_dropped :
    ¬ ∀ (backups : List (CompleteBackup Unit)) (c : Config Unit Unit),
      c.archive.bytes = (backups.flatMap fun b => b.run.state.archive) →
      (∀ pos, c.bCancel pos = false) →
      (∀ object ∈ backups.flatMap CompleteBackup.objects, object.WellFormed c.dwBufferSize) →
      (∀ object ∈ backups.flatMap CompleteBackup.objects,
        object.Plain (restoredName c.options object.name object.info object.shortName).1) →
      (∀ e ∈ (restoreDirectoryTree c (Session.start ())).events, Succeeded e) → Extracts c →
      ∀ object ∈ backups.flatMap CompleteBackup.objects, ∀ stream ∈ object.contents.list,
        ∃ delivery ∈ deliveries (restoreDirectoryTree c (Session.start ())).events,
          stream.data <:+: delivery.bytes := by
  intro claim
  have objects : [backupOf [0x61] [sparseStream]].flatMap CompleteBackup.objects = [fileOf [sparseStream]] := by
    decide +kernel
  have archive : (workingConfig (fileOf [sparseStream]).encode).archive.bytes =
      [backupOf [0x61] [sparseStream]].flatMap fun b => b.run.state.archive := by
    decide +kernel
  have delivered := claim [backupOf [0x61] [sparseStream]] (workingConfig (fileOf [sparseStream]).encode)
    archive (fun _ => rfl)
    (by
      rw [objects]
      intro object mem
      obtain rfl := List.mem_singleton.mp mem
      exact fileOf_wellFormed sparseStream_wellFormed)
    (by
      rw [objects]
      intro object mem
      obtain rfl := List.mem_singleton.mp mem
      exact fileOf_plain (by decide) (by decide))
    (workingConfig_succeeds _)
    (workingConfig_extracts _) (fileOf [sparseStream]) (by rw [objects]; exact List.mem_singleton_self _)
    sparseStream (List.mem_singleton_self _)
  have nothing : deliveries (restoreDirectoryTree (workingConfig (fileOf [sparseStream]).encode)
      (Session.start ())).events =
      [.file [0x61] noFileInformation [], .alternate [0x61, 0x3A, 0x73] []] := by
    decide +kernel
  rw [nothing] at delivered
  obtain ⟨delivery, mem, infix_⟩ := delivered
  have empty : delivery.bytes = [] := by
    rcases List.mem_pair.mp mem with rfl | rfl <;> rfl
  rw [empty] at infix_
  exact absurd (List.infix_nil.mp infix_) (by decide)

end StrArc
