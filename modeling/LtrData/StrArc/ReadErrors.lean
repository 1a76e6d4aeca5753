import Mathlib.Tactic.Choose
import LtrData.StrArc.Resync
import LtrData.StrArc.RoundTrip

namespace StrArc

open Traced

variable {F σ H : Type} [DecidableEq F] [DecidableEq H]

def Grows (t : List (Event H)) : Prop :=
  ∀ p : Delivered H, ∃ more, (p.run t).list = p.list ++ more

theorem Delivered.run_behind (t : List (Event H)) {p : Delivered H} {list more : List Delivery}
    (behind : p.list = list ++ more) (some : more ≠ []) :
    ∃ more', (p.run t).list = list ++ more' := by
  induction t generalizing p more with
  | nil => exact ⟨more, behind⟩
  | cons e t ih =>
    have add {q : Delivered H} (same : q.list = p.list) (delivery : Delivery) :
        ∃ more', ((q.add delivery).run t).list = list ++ more' := by
      have list_eq : (q.add delivery).list = list ++ (more ++ [delivery]) := by
        rw [add_list, same, behind, List.append_assoc]
      exact ih list_eq (List.append_ne_nil_of_right_ne_nil _ (List.cons_ne_nil _ _))
    have extend (data : List BYTE) : ∃ more', ((p.extend data).run t).list = list ++ more' := by
      obtain ⟨earlier, last, rfl⟩ := List.eq_nil_or_concat' more |>.resolve_left some
      have list_eq : (p.extend data).list = list ++ (earlier ++ [last.extend data]) := by
        simp [Delivered.extend, behind, ← List.append_assoc]
      exact ih list_eq (List.append_ne_nil_of_right_ne_nil _ (List.cons_ne_nil _ _))
    have same {q : Delivered H} (list_eq : q.list = p.list) : ∃ more', (q.run t).list = list ++ more' :=
      ih (list_eq.trans behind) some
    rw [run_cons]
    unfold step
    split
    · exact add rfl _
    · exact same rfl
    · exact add (q := p.opened _ _) rfl _
    · exact same rfl
    · exact add rfl _
    · split
      · exact extend _
      · exact add rfl _
    · split
      · exact extend _
      · exact add rfl _
    · exact add rfl _
    · exact add rfl _
    · exact same rfl

theorem grows_nil : Grows ([] : List (Event H)) := fun p => ⟨[], by simp⟩

theorem Grows.append {t t' : List (Event H)} (first : Grows t) (second : Grows t') : Grows (t ++ t') := by
  intro p
  obtain ⟨more, list⟩ := first p
  obtain ⟨more', list'⟩ := second (p.run t)
  exact ⟨more ++ more', by rw [Delivered.run_append, list', list, List.append_assoc]⟩

theorem grows_fileHeader {t : List (Event H)} (start : Nat) (grows : Grows t) :
    Grows (.fileHeader start :: t) := grows

theorem grows_rejected (start pos : Nat) : Grows [(.rejected start pos : Event H)] :=
  fun _ => ⟨[], by simp [Delivered.step]⟩

theorem grows_restoreFile (start : Nat) (File : UnicodeString) (FileInfo : ByHandleFileInformation)
    (ShortName : UnicodeString) (t : List (Event H)) :
    Grows (.restoreFile start File FileInfo ShortName :: t) := fun _ =>
  Delivered.run_behind t rfl (List.cons_ne_nil (Delivery.file File FileInfo ShortName) [])

variable {c : Config σ H} {s : Session σ}

theorem restoreAccepted_grows (quiet : ∀ pos, c.bCancel pos = false) :
    Ensures (restoreAccepted c) s (fun t _ _ => Grows t) (fun t _ _ => Grows t) := by
  unfold restoreAccepted
  apply ensures_bind_ok (noteFileHeader_run s)
  apply ensures_bind_ok (header_run s)
  dsimp only
  split
  · exact ensures_raise (grows_fileHeader _ grows_nil)
  apply ensures_bind_ok (readArchive_run c headerSize _ s)
  split
  · apply ensures_bind
    apply (readNextFileHeader_finds quiet).mono
    · intro t found s₁ facts
      rcases facts with ⟨rfl, -⟩
      split
      · exact ensures_pure (grows_fileHeader _ grows_nil)
      · exact ensures_raise (grows_fileHeader _ grows_nil)
    · exact fun _ _ _ => False.elim
  · unfold restoreObject
    apply ensures_bind_ok (header_run _)
    apply ensures_bind_ok (bufferAt_run _ _ _)
    apply ensures_bind_ok (bufferAt_run _ _ _)
    apply ensures_bind_ok (bufferAt_run _ _ _)
    apply ensures_bind_ok (noteRestoreFile_run _ _ _ _)
    exact ensures_all (fun t _ _ => grows_fileHeader _ (grows_restoreFile _ _ _ _ t))
      (fun t _ _ => grows_fileHeader _ (grows_restoreFile _ _ _ _ t))

theorem directoryTreeLoop_grows (quiet : ∀ pos, c.bCancel pos = false) (fuel : Nat) :
    Ensures (directoryTreeLoop c fuel) s (fun t _ _ => Grows t) (fun t _ _ => Grows t) := by
  induction fuel generalizing s with
  | zero => exact ensures_raise grows_nil
  | succ fuel ih =>
    unfold directoryTreeLoop
    apply ensures_bind
    apply (acceptFileHeader_finds quiet).mono
    · intro t found s₁ accepted
      have start : Grows t := by
        rcases accepted with ⟨rfl, -, -⟩ | ⟨rfl, -⟩
        · exact grows_nil
        · exact grows_rejected _ _
      split
      · apply ensures_bind
        apply (restoreAccepted_grows quiet).mono
        · intro t₁ more s₂ round
          split
          · apply (ih (s := s₂)).mono
            · exact fun _ _ _ rest => start.append (round.append rest)
            · exact fun _ _ _ rest => start.append (round.append rest)
          · exact ensures_pure (start.append (round.append grows_nil))
        · exact fun _ _ _ round => start.append round
      · exact ensures_pure (start.append grows_nil)
    · exact fun _ _ _ => False.elim

/-- A restore begins with the objects that stand in the archive one behind the other, whatever
    follows them. -/
theorem restoreDirectoryTree_begins {kept : Event H → Prop} (quiet : ∀ pos, c.bCancel pos = false)
    (step : c.options.bTestMode = false → InStep kept) {objects : List Archived} {final : List BYTE}
    (boundary : Boundary final) (some : objects ≠ [])
    (archive : c.archive.bytes = objects.flatMap Archived.encode ++ final)
    (wf : ∀ object ∈ objects, object.WellFormed c.dwBufferSize)
    (names : c.options.bTestMode = false → Passes kept ∨ ∀ object ∈ objects, Restorable
      (restoredName c.options object.name object.info object.shortName).1 object.contents.list)
    (disk : σ) (all : ∀ e ∈ (restoreDirectoryTree c (Session.start disk)).events, kept e) :
    ∃ t t', (restoreDirectoryTree c (Session.start disk)).events = t ++ t' ∧
      Visited c kept 0 objects t ∧ Grows t' := by
  obtain ⟨first, rest, rfl⟩ := List.exists_cons_of_ne_nil some
  refine Within.events (P := fun events => ∃ t t', events = t ++ t' ∧
    Visited c kept 0 (first :: rest) t ∧ Grows t')
    (within_restoreDirectoryTree quiet (wf first List.mem_cons_self).large step boundary some archive
      wf names disk ?_) all
  intro t n s' fuel visited _
  apply within_of_ensures
  apply (directoryTreeLoop_grows quiet (fuel + 1)).mono
  · exact fun t' _ _ grows => ⟨t, t', rfl, visited, grows⟩
  · exact fun t' _ _ grows => ⟨t, t', rfl, visited, grows⟩

/-- A backup nobody cancels, of files with these streams, of which BackupRead delivers everything or
    fails behind any part of it. -/
structure FailingBackup (F : Type) where
  c : BackupConfig F
  roots : List (UnicodeString × Node F)
  disk : F → ByHandleFileInformation
  streams : F → Nat → List Stream
  uncancelled : ∀ n, c.bCancel n = false
  delivers : ∀ id n, (c.reads id n).blocks.flatten <+: (streams id n).flatMap Stream.encode
  ends : ∀ id n, (c.reads id n).fails = false →
    (c.reads id n).blocks.flatten = (streams id n).flatMap Stream.encode

namespace FailingBackup

variable (b : FailingBackup F)

def run : Outcome Empty (BackupSession F) (Backed F) Unit := backupFiles b.c b.roots (.start b.disk)

/-- What an object is to be in the archive. -/
def whole (object : Backed F) : Archived := object.archived b.c.options.BackupMethod b.streams

/-- BackupRead does not fail inside a stream of the object. -/
def FailsBetweenStreams (object : Backed F) : Prop :=
  object.LinkName = none → ∃ k, (b.c.reads object.id object.asked).blocks.flatten =
    ((b.streams object.id object.asked).take k).flatMap Stream.encode

/-- No object that BackupRead has failed inside a stream of is followed by one it has not failed on. -/
def CutsLast : Prop :=
  ∀ before object after, b.run.events = before ++ object :: after →
    (∃ later ∈ after, later.result = true) → b.FailsBetweenStreams object

/-- What stands in the archive of an object cut between its streams. -/
structure Salvages (dwBufferSize : Nat) (o : Options) (object : Backed F) (salvaged : Archived) : Prop where
  bytes : object.bytes b.c.options.BackupMethod = salvaged.encode
  wellFormed : salvaged.WellFormed dwBufferSize
  plain : salvaged.Plain (restoredName o salvaged.name salvaged.info salvaged.shortName).1
  whole : object.result = true → salvaged = b.whole object

variable {b}

theorem data_eq {object : Backed F} (mem : object ∈ b.run.events) (unlinked : object.LinkName = none) :
    object.data = (b.c.reads object.id object.asked).blocks.flatten := by
  have read := (saving_readAll b.c).backupFiles_run b.roots (.start b.disk) object mem unlinked
  obtain ⟨n, data, all⟩ := read.data
  rw [data, List.take_of_length_le (all fun _ _ => b.uncancelled _)]

theorem ends_of_result {object : Backed F} (mem : object ∈ b.run.events)
    (unlinked : object.LinkName = none) (result : object.result = true) :
    (b.c.reads object.id object.asked).blocks.flatten =
      (b.streams object.id object.asked).flatMap Stream.encode := by
  have read := (saving_readAll b.c).backupFiles_run b.roots (.start b.disk) object mem unlinked
  exact b.ends _ _ (read.result.mp result).ends

theorem failsBetweenStreams_of_result {object : Backed F} (mem : object ∈ b.run.events)
    (result : object.result = true) : b.FailsBetweenStreams object := fun unlinked =>
  ⟨(b.streams object.id object.asked).length, by
    rw [ends_of_result mem unlinked result, List.take_length]⟩

theorem salvages {dwBufferSize : Nat} {o : Options} {object : Backed F} (mem : object ∈ b.run.events)
    (wf : (b.whole object).WellFormed dwBufferSize)
    (plain : (b.whole object).Plain
      (restoredName o (b.whole object).name (b.whole object).info (b.whole object).shortName).1)
    (between : b.FailsBetweenStreams object) : ∃ salvaged, b.Salvages dwBufferSize o object salvaged := by
  cases link : object.LinkName with
  | some LinkName =>
    refine ⟨b.whole object, ?_, wf, plain, fun _ => rfl⟩
    simp only [Backed.bytes, whole, Backed.archived, Archived.encode, link]
    rfl
  | none =>
    obtain ⟨k, delivered⟩ := between link
    by_cases result : object.result = true
    · refine ⟨b.whole object, ?_, wf, plain, fun _ => rfl⟩
      simp only [Backed.bytes, whole, Backed.archived, Archived.encode, link]
      rw [data_eq mem link, ends_of_result mem link result]
      rfl
    · have contents : (b.whole object).contents = .streams (b.streams object.id object.asked) := by
        simp only [whole, Backed.archived, link]
      have streams := wf.contents
      rw [contents] at streams
      refine ⟨{ b.whole object with
          contents := .streams ((b.streams object.id object.asked).take k) }, ?_,
        { named := wf.named, nameSize := wf.nameSize, shortSize := wf.shortSize,
          shortUnits := wf.shortUnits, fits := wf.fits
          contents := fun stream mem => streams stream (List.mem_of_mem_take mem) }, ?_,
        fun absurd => (result absurd).elim⟩
      · simp only [Backed.bytes, whole, Backed.archived, Archived.encode, link]
        rw [data_eq mem link, delivered]
        rfl
      · rintro _ ⟨⟩ stream mem
        exact plain _ contents stream (List.mem_of_mem_take mem)

end FailingBackup

/-- RestoreFile is called with what has been archived, and all of its streams are delivered. -/
def FoundAgain (c : Config σ H) (t : List (Event H)) (object : Archived) : Prop :=
  (object.name, object.info, object.shortName) ∈ restoredFiles t ∧
    (Extracts c → object.deliveries <:+: deliveries t)

theorem exists_last {α : Type} {P : α → Prop} {list : List α} (some : ∃ x ∈ list, P x) :
    ∃ before x after, list = before ++ x :: after ∧ P x ∧ ∀ y ∈ after, ¬ P y := by
  induction list with
  | nil =>
    obtain ⟨x, absurd, -⟩ := some
    cases absurd
  | cons first rest ih =>
    by_cases later : ∃ x ∈ rest, P x
    · obtain ⟨before, x, after, rfl, holds, last⟩ := ih later
      exact ⟨first :: before, x, after, rfl, holds, last⟩
    · obtain ⟨x, mem, holds⟩ := some
      rcases List.mem_cons.mp mem with rfl | mem
      · exact ⟨[], x, rest, rfl, holds, fun y mem holds => later ⟨y, mem, holds⟩⟩
      · exact absurd ⟨x, mem, holds⟩ later

omit [DecidableEq F] [DecidableEq H] in
theorem boundary_bytes {b : FailingBackup F} {history : List (Backed F)}
    (wf : ∀ object ∈ history, (b.whole object).WellFormed c.dwBufferSize) :
    Boundary (history.flatMap (Backed.bytes b.c.options.BackupMethod)) := by
  cases history with
  | nil => exact .inl rfl
  | cons object rest =>
    have valid := (wf object List.mem_cons_self).valid
    rw [List.flatMap_cons, Backed.bytes, encodeFileHeader, List.append_assoc, List.append_assoc]
    exact .inr ⟨_, _, valid, rfl⟩

theorem FailingBackup.exists_salvaged {b : FailingBackup F} {dwBufferSize : Nat} {o : Options}
    (wf : ∀ object ∈ b.run.events, (b.whole object).WellFormed dwBufferSize)
    (plain : ∀ object ∈ b.run.events, (b.whole object).Plain (restoredName o
      (b.whole object).name (b.whole object).info (b.whole object).shortName).1)
    (cuts : b.CutsLast) (some : ∃ object ∈ b.run.events, object.result = true) :
    ∃ (first after : List (Backed F)) (salvaged : Backed F → Archived),
      b.run.events = first ++ after ∧ first ≠ [] ∧
      (∀ object ∈ first, b.Salvages dwBufferSize o object (salvaged object)) ∧
      ∀ object ∈ after, ¬ object.result = true := by
  obtain ⟨before, last, after, history, complete, none⟩ := exists_last some
  have intact : ∀ object ∈ before ++ [last], ∃ salvaged, b.Salvages dwBufferSize o object salvaged := by
    intro object mem
    have recorded : object ∈ b.run.events := by
      rw [history, List.append_cons]
      exact List.mem_append_left _ mem
    apply salvages recorded (wf object recorded) (plain object recorded)
    rcases List.mem_append.mp mem with mem | mem
    · obtain ⟨earlier, between, rfl⟩ := List.append_of_mem mem
      exact cuts earlier object (between ++ last :: after) (by rw [history]; simp)
        ⟨last, by simp, complete⟩
    · rw [List.mem_singleton.mp mem] at recorded ⊢
      exact failsBetweenStreams_of_result recorded complete
  have inhabited : Nonempty Archived := ⟨emptyFile 0⟩
  choose! salvaged salvages using intact
  exact ⟨before ++ [last], after, salvaged, by rw [history, List.append_cons], by simp, salvages, none⟩

/-- Every object read to its end is found again where no other has been cut inside a stream before
    it. -/
theorem restoreDirectoryTree_afterErrors (b : FailingBackup F) (c : Config σ H)
    (archive : c.archive.bytes = b.run.state.archive) (quiet : ∀ pos, c.bCancel pos = false)
    (wf : ∀ object ∈ b.run.events, (b.whole object).WellFormed c.dwBufferSize)
    (plain : ∀ object ∈ b.run.events, (b.whole object).Plain (restoredName c.options
      (b.whole object).name (b.whole object).info (b.whole object).shortName).1)
    (disk : σ) (succeeded : ∀ e ∈ (restoreDirectoryTree c (Session.start disk)).events, Succeeded e)
    (cuts : b.CutsLast) {object : Backed F} (mem : object ∈ b.run.events)
    (result : object.result = true) :
    FoundAgain c (restoreDirectoryTree c (Session.start disk)).events (b.whole object) := by
  obtain ⟨first, after, salvaged, history, some, salvages, none⟩ :=
    FailingBackup.exists_salvaged wf plain cuts ⟨object, mem, result⟩
  have bytes : c.archive.bytes = (first.map salvaged).flatMap Archived.encode ++
      after.flatMap (Backed.bytes b.c.options.BackupMethod) := by
    have same : first.flatMap (Backed.bytes b.c.options.BackupMethod) =
        (first.map salvaged).flatMap Archived.encode := by
      rw [List.flatMap_map]
      exact List.flatMap_congr fun u mem => (salvages u mem).bytes
    have appends := backupFiles_archive b.c b.roots b.disk
    rw [FailingBackup.run] at archive history
    rw [archive, appends, history, List.flatMap_append, same]
  have wf_salvaged : ∀ a ∈ first.map salvaged, a.WellFormed c.dwBufferSize := by
    intro a mem_a
    obtain ⟨u, mem_u, rfl⟩ := List.mem_map.mp mem_a
    exact (salvages u mem_u).wellFormed
  have restorable : ∀ a ∈ first.map salvaged, Restorable
      (restoredName c.options a.name a.info a.shortName).1 a.contents.list := by
    intro a mem_a
    obtain ⟨u, mem_u, rfl⟩ := List.mem_map.mp mem_a
    exact (salvages u mem_u).plain.restorable (salvages u mem_u).wellFormed
  have boundary : Boundary (after.flatMap (Backed.bytes b.c.options.BackupMethod)) :=
    boundary_bytes fun u mem => wf u (by rw [history]; exact List.mem_append_right _ mem)
  obtain ⟨t, t', events, visited, grows⟩ := restoreDirectoryTree_begins quiet
    (fun _ => succeeded_inStep) boundary (by simpa using some) bytes wf_salvaged
    (fun _ => .inr restorable) disk succeeded
  have found : object ∈ first := by
    rw [history] at mem
    exact (List.mem_append.mp mem).resolve_right fun late => none object late result
  have whole := (salvages object found).whole result
  rw [events]
  constructor
  · rw [restoredFiles_append, visited.files, List.map_map, ← whole]
    exact List.mem_append_left _ (List.mem_map_of_mem found)
  · intro extracts
    have own : ∀ a ∈ first.map salvaged, Restorable a.name a.contents.list := by
      intro a mem
      have under := restorable a mem
      rwa [extracts.restoredName] at under
    have delivered := visited.delivers (fun _ held => held) extracts own ⟨.none, [], []⟩
    obtain ⟨more, all⟩ := grows ((⟨.none, [], []⟩ : Delivered H).run t)
    obtain ⟨earlier, later, split⟩ := List.append_of_mem (List.mem_map_of_mem (f := salvaged) found)
    unfold deliveries
    rw [Delivered.run_append, all, delivered, split, List.nil_append, ← whole, List.flatMap_append,
      List.flatMap_cons]
    exact ⟨earlier.flatMap Archived.deliveries, later.flatMap Archived.deliveries ++ more, by simp⟩

/-- The streams of the file "a", which BackupRead fails on, and of "b". -/
def cutStreams : Bool → List Stream
  | true => [dataStream, dataStream]
  | false => [dataStream]

def cutReads (n : Nat) : Bool → Reads
  | true => ⟨[((cutStreams true).flatMap Stream.encode).take (n + 1)], by simp [cutStreams,
      dataStream, Stream.encode], true⟩
  | false => ⟨[(cutStreams false).flatMap Stream.encode], by simp [cutStreams, dataStream,
      Stream.encode], false⟩

def cutBackup (n : Nat) : FailingBackup Bool where
  c :=
    { options := {}
      opens := fun _ => true
      informs := fun _ => true
      resets := fun _ => true
      reads := fun id _ => cutReads n id
      findShortName := fun _ _ => []
      lower := id
      bCancel := fun _ => false }
  roots := [([0x61], .mk true .nil), ([0x62], .mk false .nil)]
  disk _ := noFileInformation
  streams id _ := cutStreams id
  uncancelled _ := rfl
  delivers id _ := by
    cases id with
    | true => simpa [cutReads] using List.take_prefix _ _
    | false => simp [cutReads]
  ends id _ whole := by
    cases id with
    | true => cases whole
    | false => simp [cutReads]

def cutFile (id : Bool) : Archived :=
  ⟨[if id then 0x61 else 0x62], noFileInformation, [], .streams (cutStreams id)⟩

def cutArchive (n : Nat) : List BYTE :=
  encodeFileHeader [0x61] noFileInformation [] ++
    ((cutStreams true).flatMap Stream.encode).take (n + 1) ++ (cutFile false).encode

theorem cutFile_wellFormed (id : Bool) : (cutFile id).WellFormed 65536 :=
  { emptyFile_wellFormed (if id then 0x61 else 0x62) with
    contents := by
      intro stream mem
      have same : stream = dataStream := by cases id <;> simpa [cutStreams] using mem
      rw [same]
      exact dataStream_wellFormed }

theorem cutFile_plain (id : Bool) : (cutFile id).Plain (cutFile id).name := by
  rintro _ ⟨⟩ stream mem
  have same : stream = dataStream := by cases id <;> simpa [cutStreams] using mem
  rw [same]
  exact ⟨by decide, by cases id <;> decide⟩

theorem cutBackup_files (n : Nat)
    (events : (cutBackup n).run.events.map (cutBackup n).whole = [cutFile true, cutFile false]) :
    ∀ object ∈ (cutBackup n).run.events, ((cutBackup n).whole object).WellFormed 65536 ∧
      ((cutBackup n).whole object).Plain ((cutBackup n).whole object).name := by
  intro object mem
  have whole := List.mem_map_of_mem (f := (cutBackup n).whole) mem
  rw [events] at whole
  rcases List.mem_cons.mp whole with is | mem
  · rw [is]
    exact ⟨cutFile_wellFormed true, cutFile_plain true⟩
  · rw [List.mem_singleton.mp mem]
    exact ⟨cutFile_wellFormed false, cutFile_plain false⟩

def secondFile : Backed Bool := ⟨false, [0x62], noFileInformation, [], none, 13, dataStream.encode, true⟩

theorem cutBackup_cutsLast : (cutBackup 22).CutsLast := by
  have one (id : Bool) : (cutReads 22 id).blocks.flatten = ((cutStreams id).take 1).flatMap Stream.encode := by
    cases id <;> decide
  exact fun _ object _ _ _ _ => ⟨1, one object.id⟩

/-- BackupRead fails behind the first stream of "a", and "b" is found again. -/
theorem restoreDirectoryTree_afterErrors_between :
    FoundAgain (workingConfig (cutBackup 22).run.state.archive)
      (restoreDirectoryTree (workingConfig (cutBackup 22).run.state.archive) (Session.start ())).events
      (cutFile false) := by
  have found (bytes : List BYTE) (archive : bytes = (cutBackup 22).run.state.archive) :
      FoundAgain (workingConfig bytes)
        (restoreDirectoryTree (workingConfig bytes) (Session.start ())).events (cutFile false) := by
    have files := cutBackup_files 22 (by decide +kernel)
    have extracts := workingConfig_extracts bytes
    have mem : secondFile ∈ (cutBackup 22).run.events := by decide +kernel
    apply restoreDirectoryTree_afterErrors (cutBackup 22) (workingConfig bytes) archive (fun _ => rfl)
      (fun object mem => (files object mem).1) (fun object mem => ?_) () (workingConfig_succeeds _)
      cutBackup_cutsLast mem rfl
    rw [extracts.restoredName]
    exact (files object mem).2
  exact found _ rfl

/-- The second byte of the data is missing, and the beginning of the header of "b" is taken for it. -/
theorem object_lost_after_error :
    ¬ ∀ (b : FailingBackup Bool) (c : Config Unit Unit),
      c.archive.bytes = b.run.state.archive → (∀ pos, c.bCancel pos = false) →
      (∀ object ∈ b.run.events, (b.whole object).WellFormed c.dwBufferSize) →
      (∀ object ∈ b.run.events, (b.whole object).Plain (restoredName c.options
        (b.whole object).name (b.whole object).info (b.whole object).shortName).1) →
      (∀ e ∈ (restoreDirectoryTree c (Session.start ())).events, Succeeded e) →
      ∀ object ∈ b.run.events, object.result = true →
        FoundAgain c (restoreDirectoryTree c (Session.start ())).events (b.whole object) := by
  intro claim
  have found (bytes : List BYTE) (archive : bytes = (cutBackup 20).run.state.archive) :
      FoundAgain (workingConfig bytes)
        (restoreDirectoryTree (workingConfig bytes) (Session.start ())).events (cutFile false) := by
    have files := cutBackup_files 20 (by decide +kernel)
    have extracts := workingConfig_extracts bytes
    have mem : secondFile ∈ (cutBackup 20).run.events := by decide +kernel
    apply claim (cutBackup 20) (workingConfig bytes) archive (fun _ => rfl)
      (fun object mem => (files object mem).1) (fun object mem => ?_) (workingConfig_succeeds _)
      secondFile mem rfl
    rw [extracts.restoredName]
    exact (files object mem).2
  have archive : cutArchive 20 = (cutBackup 20).run.state.archive := by decide +kernel
  have lost : (cutFile false).name ∉ (restoredFiles (restoreDirectoryTree
      (workingConfig (cutArchive 20)) (Session.start ())).events).map Prod.fst := by
    decide +kernel
  have again := found (cutArchive 20) archive
  exact lost (List.mem_map_of_mem (f := Prod.fst) again.1)

end StrArc
