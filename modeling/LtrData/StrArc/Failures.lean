import LtrData.StrArc.Bounds
import LtrData.StrArc.TreeFraming

namespace StrArc

open Traced

variable {σ H : Type} {c : Config σ H} {s : Session σ}

/-- Neither a later block of a stream that cannot be written, nor a part of an unnamed stream that
    is left in the archive behind an alternate stream that cannot be created. -/
def StaysInStep : Event H → Prop
  | .call (.backupWrite _ true _) reply => reply.isSuccess = true
  | .passedOver _ BytesToRead => BytesToRead ≤ 0
  | _ => True

instance : DecidablePred (StaysInStep : Event H → Prop)
  | .call (.backupWrite _ true _) reply => inferInstanceAs (Decidable (reply.isSuccess = true))
  | .passedOver _ BytesToRead => inferInstanceAs (Decidable (BytesToRead ≤ 0))
  | .call (.backupWrite _ false _) _ | .call (.openFile ..) _ | .call (.queryInformation ..) _
  | .call (.setInformation ..) _ | .call (.createDirectory ..) _ | .call (.createFile ..) _
  | .call (.deviceIoControl ..) _ | .call (.setShortFileName ..) _ | .call (.setFilePointer ..) _
  | .call (.setEndOfFile ..) _ | .call (.writeFile ..) _ | .call (.deleteFile ..) _
  | .call (.close ..) _ | .call (.createHardLink ..) _ | .call (.backupCopyFile ..) _
  | .call (.getFileInformation ..) _ | .located .. | .nextBlock .. | .rejected .. | .fileHeader ..
  | .restoreFile .. => .isTrue trivial

theorem staysInStep_inStep : InStep (StaysInStep : Event H → Prop) :=
  ⟨fun _ _ _ held => held, .inl fun _ _ held => held⟩

/-- The same session with -t for -x. -/
def Config.testing (c : Config σ H) : Config σ H :=
  { c with options := { c.options with bTestMode := true } }

/-- As long as the reader stays in step, a restore visits what a test run visits, whatever fails on
    the disk. -/
theorem restoreDirectoryTree_inStep [DecidableEq H] {objects : List Archived}
    (quiet : ∀ pos, c.bCancel pos = false)
    (archive : c.archive.bytes = objects.flatMap Archived.encode)
    (wf : ∀ object ∈ objects, object.WellFormed c.dwBufferSize) (disk disk' : σ)
    (stays : ∀ e ∈ (restoreDirectoryTree c (Session.start disk)).events, StaysInStep e) :
    visits (restoreDirectoryTree c (Session.start disk)).events =
      visits (restoreDirectoryTree c.testing (Session.start disk')).events := by
  have restored := (restoreDirectoryTree_visited quiet (fun _ => staysInStep_inStep) archive wf
    (fun _ => .inl fun _ _ held => held) disk stays).2
  have never : ¬ c.testing.options.bTestMode = false := Bool.true_eq_false_eq_False
  have tested : Visited c.testing (fun _ => True) 0 objects
      (restoreDirectoryTree c.testing (Session.start disk')).events :=
    (restoreDirectoryTree_visited (c := c.testing) quiet (fun extracts => absurd extracts never)
      archive wf (fun extracts => absurd extracts never) disk' fun _ _ => trivial).2
  rw [restored.headers, tested.headers]

/-- A system that lets no file be created. -/
def lockedSystem : System Unit Unit
  | .createFile .., d => (.failed errorSharingViolation, d)
  | request, d => emptySystem request d

def lockedConfig (objects : List Archived) : Config Unit Unit :=
  { sampleConfig (objects.flatMap Archived.encode) with system := lockedSystem }

theorem restoreDirectoryTree_inStep_locked :
    visits (restoreDirectoryTree (lockedConfig [emptyFile 0x61, emptyFile 0x62])
      (Session.start ())).events =
    visits (restoreDirectoryTree (lockedConfig [emptyFile 0x61, emptyFile 0x62]).testing
      (Session.start ())).events := by
  have wf : ∀ object ∈ [emptyFile 0x61, emptyFile 0x62], object.WellFormed 65536 := by
    intro object mem
    rcases List.mem_pair.mp mem with rfl | rfl <;> exact emptyFile_wellFormed _
  exact restoreDirectoryTree_inStep (fun _ => rfl) rfl wf () () (by decide +kernel)

/-- A system that opens every target and refuses every later block of a stream. -/
structure RefusesBlocks (c : Config σ H) : Prop where
  opens : ∀ Name FileAttributes disposition reparse d, ∃ h,
    (c.system (.createFile .target Name FileAttributes disposition reparse) d).1 = .opened h
  writes : ∀ hFile data d, (c.system (.backupWrite hFile false data) d).1.isSuccess = true
  refuses : ∀ hFile data d, (c.system (.backupWrite hFile true data) d).1.isSuccess = false

section Refused

variable {kept : Event H → Prop}

theorem provided_anyStreamHeader : Provided kept LinkWhole (readStreamHeader c) s fun _ _ s' =>
    remaining c s ≤ remaining c s' + headerSize := by
  have read : remaining c s ≤ remaining c (s.afterRead c 0 headerSize) + headerSize := by
    have length := c.archive.length_readLoop s.pos headerSize
    simp only [remaining, Session.afterRead]
    omega
  unfold readStreamHeader
  apply provided_bind_ok (readArchive_run c 0 headerSize s)
  intro _
  dsimp only
  split
  · apply provided_bind_ok (clearHeader_run _)
    intro _
    exact provided_pure read
  · exact provided_pure read

variable [DecidableEq H]

theorem dataStreamLoop_refused (quiet : ∀ pos, c.bCancel pos = false)
    (large : headerSize ≤ c.dwBufferSize) (refused : RefusesBlocks c) (hFile : Handle H) (fuel : Nat)
    {xs rest : List BYTE} (more : xs ≠ []) (at_ : Rest c s (xs ++ rest)) :
    Provided kept LinkWhole (dataStreamLoop c hFile false (fuel + 1) xs.length) s fun _ r s' =>
      r.result = false ∧ xs.length + rest.length ≤ remaining c s' + c.dwBufferSize := by
  have twenty : headerSize = 20 := rfl
  have positive := List.length_pos_iff.mpr more
  unfold dataStreamLoop
  rw [if_pos (by omega)]
  apply provided_bind_ok (cancelled_run c s)
  intro _
  rw [quiet, if_neg Bool.false_ne_true]
  apply provided_readBlock at_
  intro s₁ at₁ buffer
  have taken := List.length_take (i := c.dwBufferSize) (l := xs)
  rw [if_neg (by omega), if_neg Bool.false_ne_true]
  apply provided_bind_ok (bufferAt_run 0 _ s₁)
  intro _
  apply provided_bind_ok (call_run c _ s₁)
  intro _
  rw [refused.refuses, if_neg Bool.false_ne_true]
  have behind : xs.length + rest.length ≤ remaining c s₁ + c.dwBufferSize := by
    have length := at₁.length
    rw [List.length_append, List.length_drop] at length
    simp only [remaining]
    omega
  unfold removeOpened
  split
  · apply provided_bind (harmless_removeTemporary hFile)
    intro _ _ s₂ facts
    rcases facts with ⟨-, same, -⟩
    refine provided_pure ⟨rfl, ?_⟩
    rw [remaining, same.pos]
    exact behind
  · exact provided_pure ⟨rfl, behind⟩

/-- A data stream that the first block does not hold. -/
structure Stream.Long (dwBufferSize : Nat) (stream : Stream) : Prop where
  id : stream.dwStreamId = backupData
  exceeds : dwBufferSize - headerSize < stream.body.length

theorem streamLoop_refused (quiet : ∀ pos, c.bCancel pos = false)
    (large : headerSize ≤ c.dwBufferSize) (refused : RefusesBlocks c) (File : UnicodeString)
    (hFile : Handle H) (fuel : Nat) {stream : Stream} (wf : stream.WellFormed c.dwBufferSize)
    (long : stream.Long c.dwBufferSize) {rest : List BYTE} (loaded : Loaded s stream.header)
    (at_ : Rest c s (stream.body ++ rest)) :
    Provided kept LinkWhole (streamLoop c File (fuel + 1) headerSize hFile false) s fun _ r s' =>
      r.result = false ∧ stream.body.length + rest.length ≤ remaining c s' + 2 * c.dwBufferSize := by
  have exceeds := long.exceeds
  have id : stream.header.dwStreamId = backupData := long.id
  unfold streamLoop
  apply provided_bind_ok (cancelled_run c s)
  intro _
  rw [quiet, if_neg Bool.false_ne_true, if_neg (by decide), if_neg (Nat.lt_irrefl _)]
  apply provided_bind_ok (header_run s)
  intro _
  rw [loaded.header, wf.continues, if_neg Bool.false_ne_true]
  apply provided_bind (provided_fillEntireBuffer large wf loaded at_)
  intro _ _ s₁ facts
  rcases facts with ⟨k, -, filled, rfl⟩
  have size := filled.size
  apply provided_bind_ok (header_run s₁)
  intro _
  rw [filled.loaded.header, id, if_neg (by decide), if_neg (by decide)]
  have written : Provided kept LinkWhole (writeFileDataStreamFromArchive c hFile (headerSize + k)
      (stream.body.drop k).length false) s₁ fun _ r s' => r.result = false ∧
        (stream.body.drop k).length + rest.length ≤ remaining c s' + c.dwBufferSize := by
    have sought : Provided kept LinkWhole (seekSparseBlock c hFile (headerSize + k) false) s₁ fun _ seek s' =>
        seek = false ∧ s' = s₁ := by
      unfold seekSparseBlock
      apply provided_bind_ok (header_run s₁)
      intro _
      rw [filled.loaded.header, id, if_neg fun sparse => absurd sparse.2.1 (by decide)]
      exact provided_pure ⟨rfl, rfl⟩
    unfold writeFileDataStreamFromArchive
    apply provided_bind sought
    intro _ _ s₁ facts
    rcases facts with ⟨rfl, rfl⟩
    rw [if_neg Bool.false_ne_true]
    apply provided_bind_ok (bufferAt_run 0 _ s₁)
    intro _
    apply provided_bind_ok (call_run c _ s₁)
    intro _
    rw [refused.writes, if_pos rfl]
    have more : stream.body.drop k ≠ [] := by
      intro none
      have length := congrArg List.length none
      rw [List.length_drop, List.length_nil] at length
      omega
    apply dataStreamLoop_refused quiet large refused hFile (c.archive.bytes.length + 1) more
    exact ⟨filled.rest.inside, filled.rest.drop⟩
  apply provided_bind written
  intro _ r s₂ facts
  rcases facts with ⟨result, behind⟩
  apply provided_bind provided_anyStreamHeader
  intro _ n s₃ header
  rw [result, if_neg Bool.false_ne_true]
  refine provided_pure ⟨result, ?_⟩
  rw [List.length_drop] at behind
  omega

theorem writeFileFromArchive_refused (quiet : ∀ pos, c.bCancel pos = false)
    (large : headerSize ≤ c.dwBufferSize) (refused : RefusesBlocks c) (File : UnicodeString)
    (hFile : Handle H) {stream : Stream} (wf : stream.WellFormed c.dwBufferSize)
    (long : stream.Long c.dwBufferSize) {rest : List BYTE} (at_ : Rest c s (stream.encode ++ rest)) :
    Provided kept LinkWhole (writeFileFromArchive c File hFile false) s fun _ r s' =>
      r.result = false ∧ stream.body.length + rest.length ≤ remaining c s' + 2 * c.dwBufferSize := by
  rw [Stream.encode, List.append_assoc] at at_
  unfold writeFileFromArchive
  apply provided_bind (provided_readHeader at_)
  intro _ n s₁ facts
  rcases facts with ⟨rfl, rfl, loaded, -, at₁⟩
  exact streamLoop_refused quiet large refused File hFile (c.archive.bytes.length + 1) wf long loaded at₁

theorem restoreFile_refused (quiet : ∀ pos, c.bCancel pos = false)
    (large : headerSize ≤ c.dwBufferSize) (refused : RefusesBlocks c) (extracts : Extracts c)
    (File : UnicodeString) {FileInfo : ByHandleFileInformation}
    (plain : hasAttribute FileInfo.dwFileAttributes fileAttributeDirectory = false)
    (ShortName : UnicodeString) {stream : Stream} (wf : stream.WellFormed c.dwBufferSize)
    (long : stream.Long c.dwBufferSize) {rest : List BYTE} (at_ : Rest c s (stream.encode ++ rest)) :
    Provided kept LinkWhole (restoreFile c File FileInfo ShortName) s fun _ more _ => more = false := by
  unfold restoreFile
  dsimp only
  rw [extracts.restoredName]
  apply provided_bind (harmless_probeIncluded File FileInfo)
  intro _ probed s₁ facts
  rcases facts with ⟨-, same₁, included⟩
  have target : Provided kept LinkWhole (createTarget c File FileInfo probed.1 false probed.2) s₁
      fun _ target s' => Same s₁ s' ∧ target.2 = false := by
    unfold createTarget
    dsimp only
    rw [if_neg (by simp [extracts.restores, included extracts]), plain, if_neg Bool.false_ne_true]
    apply provided_bind_ok (call_run c _ s₁)
    intro _
    obtain ⟨h, opened⟩ := refused.opens File (FileInfo.dwFileAttributes &&& ~~~fileAttributeReadonly)
      c.options.dwExtractCreation (hasAttribute probed.2.FileAttributes fileAttributeReparsePoint)
      s₁.disk
    rw [opened]
    exact provided_pure ⟨⟨rfl, rfl, rfl⟩, rfl⟩
  apply provided_bind target
  rintro _ ⟨hFile, _⟩ s₂ ⟨same₂, rfl⟩
  apply provided_bind (harmless_prepareTarget hFile FileInfo ShortName _ _)
  intro _ _ s₃ facts
  rcases facts with ⟨-, same₃, -⟩
  have at₃ := ((same₁.trans same₂).trans same₃).rest at_
  apply provided_bind (writeFileFromArchive_refused quiet large refused File hFile wf long at₃)
  intro _ r s₄ facts
  rcases facts with ⟨result, -⟩
  rw [result, if_neg Bool.false_ne_true]
  exact provided_pure rfl

/-- A restore ends at the first object with a long stream whose later blocks are refused. -/
theorem restoreDirectoryTree_refused (quiet : ∀ pos, c.bCancel pos = false)
    (refused : RefusesBlocks c) (extracts : Extracts c) {object : Archived}
    (wf : object.WellFormed c.dwBufferSize)
    (plain : hasAttribute object.info.dwFileAttributes fileAttributeDirectory = false)
    {stream : Stream} (long : stream.Long c.dwBufferSize) {streams : List Stream}
    (contents : object.contents = .streams (stream :: streams)) {tail : List BYTE}
    (archive : c.archive.bytes = object.encode ++ tail) (disk : σ) :
    visits (restoreDirectoryTree c (Session.start disk)).events = [0] := by
  have wf_stream : stream.WellFormed c.dwBufferSize := by
    have all := wf.contents
    rw [contents] at all
    exact all stream List.mem_cons_self
  have split : c.archive.bytes = (fileHeader object.name object.shortName).encode ++
      (object.fields ++ (object.contents.encode ++ tail)) := by
    rw [archive]
    simp [Archived.encode_eq]
  have ended : Provided (fun _ => True) LinkWhole (restoreDirectoryTree c) (Session.start disk) fun t _ _ =>
      visits t = [0] := by
    unfold restoreDirectoryTree
    apply provided_bind (provided_readNextFileHeader wf.valid (rest_start split disk))
    intro _ found s₁ facts
    rcases facts with ⟨rfl, rfl, ended⟩
    rw [if_pos rfl]
    obtain ⟨loaded, read, at_⟩ := ended.header_read rfl
    have headerPos : s₁.headerPos = 0 := by
      have length := at_.length
      have total := congrArg List.length split
      simp only [List.length_append, Win32StreamId.length_encode] at length total
      omega
    unfold Config.fuel directoryTreeLoop
    apply provided_bind (provided_acceptFileHeader loaded wf.valid)
    intro _ found s₁ facts
    rcases facts with ⟨rfl, rfl, rfl⟩
    rw [if_pos rfl]
    have accepted : Provided (fun _ => True) LinkWhole (restoreAccepted c) s₁ fun t more _ =>
        more = false ∧ visits t = [0] := by
      apply provided_accepted wf.large wf loaded at_
      intro s₂ at₂
      rw [contents] at at₂
      have more_false : Provided (fun _ => True) LinkWhole
          (restoreFile c object.name object.info object.shortName) s₂ fun _ more _ => more = false :=
        restoreFile_refused quiet wf.large refused extracts object.name plain object.shortName wf_stream
          long (by simpa [Contents.encode] using at₂)
      have file := provided_streamEvents more_false
        (restoreFile_acts (fun _ => trivial) (fun _ => trivial) _ _ _)
      apply file.mono
      intro t more s₃ facts
      rcases facts with ⟨rfl, events⟩
      refine ⟨rfl, ?_⟩
      rw [← List.singleton_append, visits_append, ← List.singleton_append (l := t), visits_append,
        visits_streamEvents events, headerPos]
      rfl
    apply provided_bind accepted
    intro t more s₂ facts
    rcases facts with ⟨rfl, visited⟩
    rw [if_neg Bool.false_ne_true]
    exact provided_pure (by simpa using visited)
  obtain ⟨t, value, s', run, visited⟩ := ended.outcome fun _ _ => trivial
  rw [run]
  exact visited

end Refused

def longStream : Stream := ⟨backupData, 0, [], List.replicate 65517 0⟩

def longFile (unit : WCHAR) : Archived := ⟨[unit], noFileInformation, [], .streams [longStream]⟩

theorem length_longStream : longStream.data.length = 65517 := List.length_replicate

theorem longStream_wellFormed : longStream.WellFormed 65536 where
  id := by decide
  fits := by decide
  size := by
    rw [length_longStream]
    decide
  sparse := by decide
  link := by decide

theorem longFile_wellFormed (unit : WCHAR) : (longFile unit).WellFormed 65536 :=
  { emptyFile_wellFormed unit with
    contents := by
      intro stream mem
      obtain rfl := List.mem_singleton.mp mem
      exact longStream_wellFormed }

def fullSystem : System Unit Unit
  | .backupWrite _ true _, d => (.failed 112, d)
  | request, d => emptySystem request d

def fullConfig (objects : List Archived) : Config Unit Unit :=
  { sampleConfig (objects.flatMap Archived.encode) with system := fullSystem }

theorem fullConfig_refuses (objects : List Archived) : RefusesBlocks (fullConfig objects) where
  opens _ _ _ _ _ := ⟨(), rfl⟩
  writes _ _ _ := rfl
  refuses _ _ _ := rfl

/-- The second file is not visited when the first one does not fit on the volume. -/
theorem later_object_dropped :
    ¬ ∀ (c : Config Unit Unit) (objects : List Archived), 65536 ≤ c.dwBufferSize →
      (∀ pos, c.bCancel pos = false) → c.archive.bytes = objects.flatMap Archived.encode →
      (∀ object ∈ objects, object.WellFormed c.dwBufferSize) →
      ∀ disk, visits (restoreDirectoryTree c (Session.start disk)).events =
        visits (restoreDirectoryTree c.testing (Session.start disk)).events := by
  intro same
  have wf : ∀ object ∈ [longFile 0x61, emptyFile 0x62], object.WellFormed 65536 := by
    intro object mem
    rcases List.mem_pair.mp mem with rfl | rfl
    · exact longFile_wellFormed 0x61
    · exact emptyFile_wellFormed 0x62
  have equal := same (fullConfig [longFile 0x61, emptyFile 0x62]) [longFile 0x61, emptyFile 0x62]
    (Nat.le_refl _) (fun _ => rfl) rfl wf ()
  have extracts : Extracts (fullConfig [longFile 0x61, emptyFile 0x62]) :=
    ⟨rfl, rfl, rfl, rfl, rfl, fun _ _ => rfl⟩
  have long : longStream.Long 65536 := by
    refine ⟨rfl, ?_⟩
    rw [Stream.length_body, length_longStream]
    decide
  have archive : (fullConfig [longFile 0x61, emptyFile 0x62]).archive.bytes =
      (longFile 0x61).encode ++ (emptyFile 0x62).encode := by
    change List.flatMap _ _ = _
    rw [List.flatMap_cons, List.flatMap_cons, List.flatMap_nil, List.append_nil]
  have refused := restoreDirectoryTree_refused (fun _ => rfl) (fullConfig_refuses _) extracts
    (longFile_wellFormed 0x61) rfl long rfl archive ()
  have never : ¬ (fullConfig [longFile 0x61, emptyFile 0x62]).testing.options.bTestMode = false :=
    Bool.true_eq_false_eq_False
  have tested : Visited (fullConfig [longFile 0x61, emptyFile 0x62]).testing (fun _ => True) 0
      [longFile 0x61, emptyFile 0x62] _ :=
    (restoreDirectoryTree_visited (fun _ => rfl) (fun extracts => absurd extracts never) rfl wf
      (fun extracts => absurd extracts never) () fun _ _ => trivial).2
  rw [refused, tested.headers] at equal
  have lengths := congrArg List.length equal
  rw [length_offsets] at lengths
  exact absurd lengths (by decide)

end StrArc
