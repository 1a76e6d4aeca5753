import LtrData.StrArc.Failures
import LtrData.StrArc.Links
import LtrData.StrArc.RoundTrip

namespace StrArc

open Traced

/-- InitializeBuffer on the buffer size of the command line, apart from the allocation. -/
def initializeBuffer (dwBufferSize : Nat) : Option XError :=
  if dwBufferSize < 65536 then some .badBuffer else none

variable {F : Type}

/-- A name BackupFile archives, and an 8.3 name as a directory listing has it. -/
structure Backed.Accepted (object : Backed F) : Prop where
  named : object.File ≠ []
  nameSize : 2 * object.File.length ≤ 65534
  shortSize : 2 * object.ShortName.length ≤ shortNameSize
  shortUnits : ∀ unit ∈ object.ShortName, unit ≠ 0

/-- The room a file header takes up in the buffer. -/
def headerRoom (File ShortName : UnicodeString) : Nat :=
  headerSize + 2 * File.length + sizeofFileInformation +
    if ShortName = [] then 0 else shortNameSize

theorem length_encodeFileHeader (File : UnicodeString) (FileInfo : ByHandleFileInformation)
    {ShortName : UnicodeString} (short : 2 * ShortName.length ≤ shortNameSize) :
    (encodeFileHeader File FileInfo ShortName).length = headerRoom File ShortName := by
  rw [headerRoom, encodeFileHeader]
  simp only [List.length_append, Win32StreamId.length_encode, length_wcharBytes,
    ByHandleFileInformation.length_encode, length_encodeShortName short]
  omega

/-- Everything that BackupFile assembles in the buffer fits it, and so does what the restore reads
    into it. -/
structure LargeEnough {σ H : Type} (b : CompleteBackup F) [DecidableEq F] (c : Config σ H)
    (disk : σ) : Prop where
  header : ∀ object ∈ b.run.events, (encodeFileHeader object.File
    (storedInformation b.c.options.BackupMethod object.FileInfo) object.ShortName).length ≤
      c.dwBufferSize
  link : ∀ object ∈ b.run.events, ∀ LinkName, object.LinkName = some LinkName →
    ((linkHeader LinkName).encode ++ wcharBytes LinkName).length ≤ c.dwBufferSize
  buffer : (restoreDirectoryTree c (Session.start disk)).exception ≠ some .badBuffer
  whole : ∀ e ∈ (restoreDirectoryTree c (Session.start disk)).events, LinkWhole e

variable [DecidableEq F]

theorem CompleteBackup.linked_file (b : CompleteBackup F) {object : Backed F}
    (mem : object ∈ b.run.events) {LinkName : UnicodeString}
    (linked : object.LinkName = some LinkName) : ∃ u ∈ b.run.events, u.File = LinkName := by
  have links : LinksFrom b.c [] b.run.events := backupFiles_links b.roots b.disk
  obtain ⟨before, after, split⟩ := List.append_of_mem mem
  rw [split] at links ⊢
  obtain ⟨-, u, earlier, -, -, named, -⟩ := links.at.later LinkName linked
  exact ⟨u, List.mem_append_left _ earlier, named⟩

theorem CompleteBackup.objects_wellFormed (b : CompleteBackup F) {dwBufferSize : Nat}
    (accepted : ∀ object ∈ b.run.events, object.Accepted)
    (streams : ∀ object ∈ b.run.events, ∀ stream ∈ b.streams object.id object.asked,
      stream.WellFormed dwBufferSize)
    (fits : ∀ object ∈ b.run.events, headerRoom object.File object.ShortName ≤ dwBufferSize) :
    ∀ object ∈ b.objects, object.WellFormed dwBufferSize := by
  intro archived isObject
  obtain ⟨object, mem, rfl⟩ := List.mem_map.mp isObject
  have ok := accepted object mem
  refine ⟨ok.named, ok.nameSize, ok.shortSize, ok.shortUnits, ?_, ?_⟩
  · have length := length_encodeFileHeader object.File
      (storedInformation b.c.options.BackupMethod object.FileInfo) ok.shortSize
    exact length ▸ fits object mem
  · unfold Backed.archived
    cases link : object.LinkName with
    | none => exact streams object mem
    | some LinkName =>
      obtain ⟨u, earlier, rfl⟩ := b.linked_file mem link
      have room := fits u earlier
      unfold headerRoom at room
      exact ⟨(accepted u earlier).nameSize, by omega⟩

/-- Whatever buffer size is used, it is large enough exactly if every file header fits. -/
theorem restoreDirectoryTree_largeEnough {σ H : Type} [DecidableEq H] (b : CompleteBackup F)
    (accepted : ∀ object ∈ b.run.events, object.Accepted) (c : Config σ H)
    (streams : ∀ object ∈ b.run.events, ∀ stream ∈ b.streams object.id object.asked,
      stream.WellFormed c.dwBufferSize)
    (archive : c.archive.bytes = b.run.state.archive) (quiet : ∀ pos, c.bCancel pos = false) (disk : σ)
    (stays : c.options.bTestMode = false →
      ∀ e ∈ (restoreDirectoryTree c (Session.start disk)).events, StaysInStep e) :
    LargeEnough b c disk ↔
      ∀ object ∈ b.run.events, headerRoom object.File object.ShortName ≤ c.dwBufferSize := by
  constructor
  · intro large object mem
    have header := large.header object mem
    rwa [length_encodeFileHeader _ _ (accepted object mem).shortSize] at header
  · intro fits
    have wf := b.objects_wellFormed accepted streams fits
    have inStep : c.options.bTestMode = false →
        InStep fun e : Event H => c.options.bTestMode = false → StaysInStep e :=
      fun extracting => ⟨fun _ _ _ held => held extracting, .inl fun _ _ held => held extracting⟩
    obtain ⟨ended, visited⟩ := restoreDirectoryTree_visited quiet inStep
      (archive.trans b.archive_eq) wf (fun extracting => .inl fun _ _ held => held extracting) disk
      fun e mem extracting => stays extracting e mem
    refine ⟨fun object mem => ?_, fun object mem LinkName linked => ?_, ?_, visited.whole⟩
    · rw [length_encodeFileHeader _ _ (accepted object mem).shortSize]
      exact fits object mem
    · obtain ⟨u, earlier, rfl⟩ := b.linked_file mem linked
      have room := fits u earlier
      unfold headerRoom at room
      simp only [List.length_append, Win32StreamId.length_encode, length_wcharBytes]
      omega
    · rw [ended]
      exact fun absurd => by cases absurd

def testConfig (bytes : List BYTE) : Config Unit Unit :=
  { workingConfig bytes with options := { bTestMode := true } }

theorem testConfig_archive : (testConfig (fileOf [dataStream]).encode).archive.bytes =
    (backupOf [0x61] [dataStream]).run.state.archive := by
  decide +kernel

theorem restoreDirectoryTree_largeEnough_test :
    LargeEnough (backupOf [0x61] [dataStream]) (testConfig (fileOf [dataStream]).encode) () := by
  have events : (backupOf [0x61] [dataStream]).run.events =
      [⟨(), [0x61], noFileInformation, [], none, 5, dataStream.encode, true⟩] := by
    decide +kernel
  have accepted : ∀ object ∈ (backupOf [0x61] [dataStream]).run.events, object.Accepted := by
    rw [events]
    intro object mem
    obtain rfl := List.mem_singleton.mp mem
    exact ⟨List.cons_ne_nil _ _, by decide, by decide, fun _ absurd => (by cases absurd)⟩
  have streams : ∀ object ∈ (backupOf [0x61] [dataStream]).run.events,
      ∀ stream ∈ (backupOf [0x61] [dataStream]).streams object.id object.asked,
        stream.WellFormed 65536 := by
    intro _ _ stream mem
    obtain rfl := List.mem_singleton.mp mem
    exact dataStream_wellFormed
  have fits : ∀ object ∈ (backupOf [0x61] [dataStream]).run.events,
      headerRoom object.File object.ShortName ≤ 65536 := by
    rw [events]
    intro object mem
    obtain rfl := List.mem_singleton.mp mem
    decide
  exact (restoreDirectoryTree_largeEnough (backupOf [0x61] [dataStream]) accepted
    (testConfig (fileOf [dataStream]).encode) streams testConfig_archive (fun _ => rfl) ()
    fun absurd => by cases absurd).mpr fits

section longest

variable {name : UnicodeString}

theorem backupOf_finishObject (named : name ≠ []) {s : BackupSession Unit}
    (at_ : s.FullPath.read 0 name.length = name) :
    Ensures (finishObject (backupOf name []).c () noFileInformation true name.length none) s
      (fun t _ _ => t = [⟨(), name, noFileInformation, [], none, s.questions + 2, [], true⟩])
      fun _ _ _ => False := by
  unfold finishObject headerName
  rw [if_neg fun none => named (List.length_eq_zero_iff.mp none)]
  apply ensures_bind_ok (question_run _ s)
  apply ensures_bind_ok (replacePath_run _ _)
  apply ensures_bind_ok (pathAt_run _ _)
  apply ensures_bind_ok (question_run _ _)
  apply ensures_bind_ok (writeArchive_run _ _)
  apply ensures_bind_ok (questionsAsked_run _)
  have unlinked (File : UnicodeString) (s : BackupSession Unit) :
    matchedLink (backupOf name []).c noFileInformation File s = .ok [] none s := rfl
  apply ensures_bind_ok (unlinked _ _)
  apply ensures_bind_ok (archiveLength_run _)
  have empty (s : BackupSession Unit) : readFileStreamsToArchive (backupOf name []).c () s =
    .ok [] true { s with questions := s.questions + 2, FileCounter := s.FileCounter + 1 } := rfl
  apply ensures_bind_ok (empty _)
  apply ensures_bind_ok (archiveSince_run _ _)
  apply ensures_bind_ok (noteBacked_run _ _)
  have copied (s : BackupSession Unit) :
    resetArchiveAttribute (backupOf name []).c () noFileInformation true s = .ok [] () s := rfl
  apply ensures_bind_ok (copied _)
  apply ensures_pure
  simp [at_]
  rfl

theorem backupOf_events (named : name ≠ []) :
    (backupOf name []).run.events = [⟨(), name, noFileInformation, [], none, 5, [], true⟩] := by
  have filter : excludedString (backupOf name []).c name = (false, true) := if_neg named
  have copied : (Cells.write (fun _ => 0) 0 (name ++ [0])).read 0 name.length = name := by
    rw [Cells.read_write_front _ _ _ (by simp), List.take_left]
  have opened (s : BackupSession Unit) (at_ : s.FullPath.read 0 name.length = name) :
      openObject (backupOf name []).c () name.length s =
        .ok [] (.found (s.disk ()) true) { s with questions := s.questions + 2 } := by
    simp only [openObject, bind_eq_of_ok (pathAt_run _ _), at_, filter]
    rfl
  have closed (s : BackupSession Unit) :
      traverseIf (true && traverses (backupOf name []).c noFileInformation) name.length
        (fun base => directoryLoop (backupOf name []).c .nil base) s = .ok [] () s := rfl
  have run : Ensures (backupFiles (backupOf name []).c [(name, .mk () .nil)])
      (.start (backupOf name []).disk)
      (fun t _ _ => t = [⟨(), name, noFileInformation, [], none, 5, [], true⟩])
      fun _ _ _ => False := by
    unfold backupFiles backupPath
    apply ensures_bind_ok (question_run _ _)
    apply ensures_bind
    apply ensures_bind_ok (pathReplaced_run _)
    apply ensures_bind_ok (copyToPath_run name _)
    unfold backupFile
    apply ensures_bind_ok (opened _ copied)
    dsimp only
    apply ensures_bind_ok (closed _)
    apply (backupOf_finishObject named copied).mono
    · rintro t _ s' rfl
      exact ensures_pure (List.append_nil _)
    · exact fun _ _ _ h => h
  cases outcome : backupFiles (backupOf name []).c [(name, .mk () .nil)]
      (.start (backupOf name []).disk) with
  | ok t result s' =>
    rw [show (backupOf name []).run = _ from outcome]
    exact (ensures_of_ok outcome).mp run
  | error t e s' => exact e.elim

end longest

/-- The header of the longest name BackupFile accepts does not fit the smallest buffer. -/
theorem longest_header_outside :
    ¬ ∀ (b : CompleteBackup Unit) (c : Config Unit Unit), initializeBuffer c.dwBufferSize = none →
      (∀ object ∈ b.run.events, object.Accepted) →
      (∀ object ∈ b.run.events, ∀ stream ∈ b.streams object.id object.asked,
        stream.WellFormed c.dwBufferSize) →
      c.archive.bytes = b.run.state.archive → (∀ pos, c.bCancel pos = false) →
      (∀ e ∈ (restoreDirectoryTree c (Session.start ())).events, Succeeded e) →
      LargeEnough b c () := by
  intro claim
  obtain ⟨name, length⟩ : ∃ name : UnicodeString, name.length = 32767 :=
    ⟨List.replicate 32767 0x61, List.length_replicate⟩
  have named : name ≠ [] := List.ne_nil_of_length_pos (by omega)
  have events := backupOf_events named
  have large := claim (backupOf name []) (workingConfig (backupOf name []).run.state.archive) rfl
    (by
      rw [events]
      intro object mem
      obtain rfl := List.mem_singleton.mp mem
      exact ⟨named, (by simp [length]), Nat.zero_le _, fun _ absurd => (by cases absurd)⟩)
    (fun _ _ _ absurd => by cases absurd) rfl (fun _ => rfl) (workingConfig_succeeds _)
  have header := large.header _ (events ▸ List.mem_singleton_self _)
  rw [length_encodeFileHeader _ _ (Nat.zero_le _), headerRoom, length, if_pos rfl] at header
  have outside : 20 + 2 * 32767 + 52 + 0 ≤ 65536 := header
  omega

end StrArc
