import LtrData.StrArc.ObjectActions
import LtrData.StrArc.StreamFraming

namespace StrArc

open Traced

variable {σ H : Type} {c : Config σ H} {s : Session σ} {kept : Event H → Prop}

/-- Options and filters by which every object is extracted, under its own name. -/
structure Extracts (c : Config σ H) : Prop where
  restores : c.options.bTestMode = false
  unarchived : c.options.bOverwriteArchived = false
  older : c.options.bOverwriteOlder = false
  fresh : c.options.bFreshenExisting = false
  longNames : c.options.bRestoreShortNamesOnly = false
  included : ∀ File FileInfo, c.included File FileInfo = true

theorem Extracts.restoredName (extracts : Extracts c) (File : UnicodeString)
    (FileInfo : ByHandleFileInformation) (ShortName : UnicodeString) :
    restoredName c.options File FileInfo ShortName = (File, false) := by
  rw [StrArc.restoredName, if_neg (by simp [extracts.longNames])]

theorem Extracts.overwrites (extracts : Extracts c) (existing : FileBasicInformation)
    (FileInfo : ByHandleFileInformation) : overwrites c.options existing FileInfo = true := by
  rw [StrArc.overwrites, if_neg (by simp [extracts.unarchived]), if_neg (by simp [extracts.older])]

section

variable [DecidableEq H]

theorem harmless_openExisting (File : UnicodeString) :
    Harmless kept (openExisting c File) s fun _ => True := by
  unfold openExisting
  apply harmless_bind (harmless_call (.openFile .existing File) fun _ _ => rfl)
  intro opened _ _
  split
  · apply harmless_bind (harmless_call (.openFile .existingFollowed File) fun _ _ => rfl)
    intro _ _ _
    exact harmless_pure trivial
  · exact harmless_pure trivial

theorem harmless_resetReadonly (hFile : Handle H) (bIncludeThis : Bool)
    (existing : FileBasicInformation) :
    Harmless kept (resetReadonly c hFile bIncludeThis existing) s fun _ => True := by
  unfold resetReadonly
  split
  · apply harmless_bind (harmless_call (.setInformation hFile _) fun _ _ => rfl)
    intro _ _ _
    exact harmless_pure trivial
  · exact harmless_pure trivial

theorem harmless_probeIncluded (File : UnicodeString) (FileInfo : ByHandleFileInformation) :
    Harmless kept (probeIncluded c File FileInfo) s fun probed => Extracts c → probed.1 = true := by
  unfold probeIncluded
  split
  · unfold probeExisting
    apply harmless_bind (harmless_openExisting File)
    intro hFile _ _
    split
    · next h =>
      apply harmless_bind (harmless_call (.queryInformation (some h)) fun _ _ => rfl)
      intro queried _ _
      apply harmless_bind (harmless_resetReadonly (some h) _ _)
      intro existing _ _
      apply harmless_bind (harmless_call (.close (some h)) fun _ _ => rfl)
      intro _ _ _
      refine harmless_pure fun extracts => ?_
      unfold judgeExisting
      split
      · exact extracts.overwrites _ FileInfo
      · rfl
    · refine harmless_pure fun extracts => ?_
      rw [extracts.fresh]
      rfl
  · next excluded =>
    exact harmless_pure fun extracts => absurd (extracts.included File FileInfo) excluded

/-- What a run of create calls does that ends with this handle open. -/
def OpensAs (t : List (Event H)) (hFile : Handle H) (File : UnicodeString) : Prop :=
  ∀ p : Delivered H, p.run t = ⟨hFile, File, p.list⟩

theorem provided_createTargetDirectory (File : UnicodeString) (FileInfo : ByHandleFileInformation)
    (reparse : Bool) :
    Provided kept LinkWhole (createTargetDirectory c File FileInfo reparse) s fun t hFile s' => Same s s' ∧
      ((∀ e, kept e → Succeeded e) → hFile.isSome ∧ OpensAs t hFile File) := by
  unfold createTargetDirectory
  dsimp only
  apply provided_bind (provided_call _)
  intro _ created s₁ facts
  rcases facts with ⟨rfl, held, same⟩
  have opened (all : ∀ e, kept e → Succeeded e) : ∃ h, created = .opened h := all _ held
  split
  · next refused =>
    apply provided_bind (provided_call _)
    intro _ again s₂ facts
    rcases facts with ⟨rfl, -, same₂⟩
    refine provided_pure ⟨same.trans same₂, fun all => ?_⟩
    obtain ⟨h, rfl⟩ := opened all
    simp [Reply.handle] at refused
  · refine provided_pure ⟨same, fun all => ?_⟩
    obtain ⟨h, rfl⟩ := opened all
    exact ⟨rfl, fun p => rfl⟩

theorem provided_createTarget (File : UnicodeString) (FileInfo : ByHandleFileInformation)
    (bIncludeThis bSeekOnly : Bool) (existing : FileBasicInformation) :
    Provided kept LinkWhole (createTarget c File FileInfo bIncludeThis bSeekOnly existing) s fun t target s' =>
      Same s s' ∧ (c.options.bTestMode = true → target.2 = true) ∧
        ((∀ e, kept e → Succeeded e) → c.options.bTestMode = false →
        bIncludeThis = true → bSeekOnly = false → target.2 = false ∧ OpensAs t target.1 File) := by
  unfold createTarget
  dsimp only
  split
  · next passes =>
    refine provided_pure ⟨Same.refl s, fun _ => rfl, fun _ restores included creates => ?_⟩
    simp [restores, included, creates] at passes
  · next extracts =>
    have restores : ¬ c.options.bTestMode = true := fun test => extracts (.inl test)
    split
    · apply provided_bind (provided_createTargetDirectory File FileInfo _)
      intro t hFile s₁ facts
      rcases facts with ⟨same, opens⟩
      refine provided_pure ⟨same, fun test => absurd test restores, fun all _ _ _ => ?_⟩
      obtain ⟨some, opens⟩ := opens all
      refine ⟨?_, by simpa using opens⟩
      cases hFile with
      | none => cases some
      | some h => rfl
    · apply provided_bind (provided_call _)
      intro _ created s₁ facts
      rcases facts with ⟨rfl, held, same⟩
      refine provided_pure ⟨same, fun test => absurd test restores, fun all _ _ _ => ?_⟩
      obtain ⟨h, rfl⟩ : ∃ h, created = .opened h := all _ held
      exact ⟨rfl, fun p => rfl⟩

theorem harmless_callIf (condition : Bool) (request : Call H)
    (silent : ∀ reply (p : Delivered H), p.step (.call request reply) = p) :
    Harmless kept (callIf c condition request) s fun _ => True := by
  unfold callIf
  split
  · apply harmless_bind (harmless_call request silent)
    intro _ _ _
    exact harmless_pure trivial
  · exact harmless_pure trivial

theorem harmless_prepareTarget (hFile : Handle H) (FileInfo : ByHandleFileInformation)
    (ShortName : UnicodeString) (bSeekOnly : Bool) (existing : FileBasicInformation) :
    Harmless kept (prepareTarget c hFile FileInfo ShortName bSeekOnly existing) s
      fun _ => True := by
  unfold prepareTarget
  split
  · apply harmless_bind (harmless_callIf _ (.deviceIoControl hFile .deleteReparsePoint) fun _ _ => rfl)
    intro _ _ _
    apply harmless_bind (harmless_callIf _ (.deviceIoControl hFile .setSparse) fun _ _ => rfl)
    intro _ _ _
    exact harmless_callIf _ (.setShortFileName hFile ShortName) fun _ _ => rfl
  · exact harmless_pure trivial

theorem harmless_finishTarget (hFile : Handle H) (FileInfo : ByHandleFileInformation)
    (bSeekOnly : Bool) :
    Harmless kept (finishTarget c hFile FileInfo bSeekOnly) s fun _ => True := by
  unfold finishTarget
  split
  · apply harmless_bind (harmless_call (.getFileInformation hFile) fun _ _ => rfl)
    intro now _ _
    apply harmless_bind (harmless_callIf _ (.deviceIoControl hFile (.setCompression _)) fun _ _ => rfl)
    intro _ _ _
    exact harmless_callIf _ (.setInformation hFile _) fun _ _ => rfl
  · exact harmless_pure trivial

theorem harmless_countRestored (hFile : Handle H) (bIncludeThis : Bool) :
    Harmless kept (countRestored c hFile bIncludeThis) s fun _ => True := by
  unfold countRestored
  split
  · exact provided_of_ok (countFile_run s) (by simp) fun _ => ⟨silent_nil, ⟨rfl, rfl, rfl⟩, trivial⟩
  · exact harmless_pure trivial

theorem provided_restoreFile (quiet : ∀ pos, c.bCancel pos = false)
    (large : headerSize ≤ c.dwBufferSize) (step : c.options.bTestMode = false → InStep kept) {tail : List BYTE}
    (boundary : Boundary tail) (File : UnicodeString) (FileInfo : ByHandleFileInformation)
    (ShortName : UnicodeString) {streams : List Stream}
    (names : c.options.bTestMode = false → Passes kept ∨
      Restorable (restoredName c.options File FileInfo ShortName).1 streams)
    (wf : ∀ stream ∈ streams, stream.WellFormed c.dwBufferSize)
    (at_ : Rest c s (streams.flatMap Stream.encode ++ tail)) :
    Provided kept LinkWhole (restoreFile c File FileInfo ShortName) s fun t more s' =>
      more = true ∧ (∃ n, Ended c tail n s') ∧
        ((∀ e, kept e → Succeeded e) → Extracts c → Restorable File streams →
          ∀ p : Delivered H, (p.run t).list = p.list ++ streamDeliveries File streams) := by
  unfold restoreFile
  dsimp only
  apply provided_bind (harmless_probeIncluded _ FileInfo)
  intro t₁ probed s₁ facts
  rcases facts with ⟨silent₁, same₁, included⟩
  apply provided_bind (provided_createTarget _ FileInfo _ _ _)
  intro t₂ target s₂ facts
  rcases facts with ⟨same₂, tests, creates⟩
  apply provided_bind (harmless_prepareTarget target.1 FileInfo ShortName _ _)
  intro t₃ _ s₃ facts
  rcases facts with ⟨silent₃, same₃, -⟩
  have at₃ := ((same₁.trans same₂).trans same₃).rest at_
  have written : Provided kept LinkWhole
      (writeFileFromArchive c (restoredName c.options File FileInfo ShortName).1 target.1 target.2) s₃ fun t r s' => r.result = true ∧ (∃ n, Ended c tail n s') ∧
        ((∀ e, kept e → Succeeded e) → target.2 = false →
          Restorable (restoredName c.options File FileInfo ShortName).1 streams →
          ∀ p : Delivered H,
            p.hFile = target.1 ∧ p.Name = (restoredName c.options File FileInfo ShortName).1 →
            (p.run t).list = p.list ++
              streamDeliveries (restoredName c.options File FileInfo ShortName).1 streams) := by
    unfold writeFileFromArchive
    apply provided_bind (provided_readStreamHeader boundary at₃)
    intro _ n s₄ facts
    rcases facts with ⟨rfl, ready⟩
    have enough : streams.length < c.fuel := by
      have length := length_streams streams
      have bound := at₃.lt_fuel
      omega
    have extracting (open_ : target.2 = false) : c.options.bTestMode = false := by
      by_contra test
      rw [tests (by simpa using test)] at open_
      cases open_
    apply (provided_streamLoop quiet large boundary _ c.fuel target.1 target.2 (step ∘ extracting)
      (names ∘ extracting) wf ready enough).mono
    intro t r s' facts
    rcases facts with ⟨result, ended, delivers⟩
    exact ⟨result, ended, fun all none restorable p opened => delivers all none restorable p fun _ => opened⟩
  apply provided_bind written
  intro t₄ r s₄ facts
  rcases facts with ⟨result, ended, delivers⟩
  rw [if_pos result]
  apply provided_bind (harmless_finishTarget r.hFile FileInfo r.bSeekOnly)
  intro t₅ _ s₅ facts
  rcases facts with ⟨silent₅, same₅, -⟩
  apply provided_bind (harmless_countRestored r.hFile probed.1)
  intro t₆ _ s₆ facts
  rcases facts with ⟨silent₆, same₆, -⟩
  apply provided_bind (harmless_closeOpened r.hFile)
  intro t₇ _ s₇ facts
  rcases facts with ⟨silent₇, same₇, -⟩
  obtain ⟨n, ended⟩ := ended
  refine provided_pure ⟨rfl, ⟨n, ((same₅.trans same₆).trans same₇).ended ended⟩,
    fun all extracts restorable p => ?_⟩
  rw [extracts.restoredName] at creates delivers
  obtain ⟨none, opens⟩ := creates all extracts.restores (included extracts) rfl
  have streams_delivered := delivers all none restorable ⟨target.1, File, p.list⟩ ⟨rfl, rfl⟩
  simp only [Delivered.run_append, Delivered.run_nil, silent₁ _, opens p, silent₃ _,
    streams_delivered, silent₅ _, silent₆ _, silent₇ _]

end

/-- Name, information and 8.3 name behind the header of an object. -/
def Archived.fields (object : Archived) : List BYTE :=
  wcharBytes object.name ++ (object.info.encode ++ encodeShortName object.shortName)

theorem Archived.encode_eq (object : Archived) :
    object.encode = (fileHeader object.name object.shortName).encode ++
      (object.fields ++ object.contents.encode) := by
  simp [encode, encodeFileHeader, fields]

theorem wchars_zeros (n : Nat) : ∀ unit ∈ wchars (List.replicate n 0), unit = 0 := by
  induction n using Nat.strongRecOn with
  | ind n ih =>
    match n with
    | 0 => simp [wchars]
    | 1 => simp [wchars]
    | n + 2 =>
      intro unit mem
      rw [List.replicate_succ, List.replicate_succ, wchars] at mem
      rcases List.mem_cons.mp mem with rfl | mem
      · decide
      · exact ih n (by omega) unit mem

theorem terminated_short {shortName : UnicodeString} (units : ∀ unit ∈ shortName, unit ≠ 0) (n : Nat) :
    terminated (wchars (wcharBytes shortName ++ List.replicate n 0)) = shortName := by
  rw [wchars_append, terminated, List.takeWhile_append_of_pos (by simpa using units)]
  have zeros := wchars_zeros n
  cases rest : wchars (List.replicate n (0 : BYTE)) with
  | nil => simp
  | cons unit rest' =>
    rw [rest] at zeros
    rw [List.takeWhile_cons_of_neg (by simpa using zeros unit List.mem_cons_self), List.append_nil]

section Header

variable {object : Archived}

theorem Archived.WellFormed.headerNameSize (wf : object.WellFormed c.dwBufferSize) :
    (fileHeader object.name object.shortName).nameSize = 2 * object.name.length := by
  have bound := wf.nameSize
  simp only [Win32StreamId.nameSize, fileHeader, BitVec.toNat_ofNat]
  exact Nat.mod_eq_of_lt (by omega)

theorem length_encodeShortName {shortName : UnicodeString}
    (fits : 2 * shortName.length ≤ shortNameSize) :
    (encodeShortName shortName).length = if shortName = [] then 0 else shortNameSize := by
  unfold encodeShortName
  split
  · rfl
  · simp only [List.length_append, length_wcharBytes, List.length_replicate]
    omega

theorem Archived.WellFormed.length_fields (wf : object.WellFormed c.dwBufferSize) :
    ((fileHeader object.name object.shortName).nameSize +
      (fileHeader object.name object.shortName).Size.toNat) % 2 ^ 32 = object.fields.length := by
  have bound := wf.nameSize
  have short := length_encodeShortName wf.shortSize
  have size : (fileHeader object.name object.shortName).Size.toNat =
      sizeofFileInformation + (encodeShortName object.shortName).length := by
    rw [short]
    simp only [fileHeader]
    split <;> decide
  have small : (encodeShortName object.shortName).length ≤ 26 := by
    rw [short]
    split <;> decide
  have fixed : sizeofFileInformation = 52 := rfl
  simp only [fields, List.length_append, length_wcharBytes, ByHandleFileInformation.length_encode]
  rw [wf.headerNameSize, size, Nat.mod_eq_of_lt (by omega)]

theorem Archived.WellFormed.valid (wf : object.WellFormed c.dwBufferSize) :
    validFileHeader (fileHeader object.name object.shortName) = true := by
  have named := List.length_pos_iff.mpr wf.named
  have bound := wf.nameSize
  simp only [validFileHeader, wf.headerNameSize, decide_eq_true_eq]
  refine ⟨rfl, rfl, ?_, by omega, by omega, by omega⟩
  simp only [fileHeader]
  split
  · exact .inl rfl
  · exact .inr rfl

theorem Archived.WellFormed.large (wf : object.WellFormed c.dwBufferSize) :
    headerSize ≤ c.dwBufferSize := by
  have fits := wf.fits
  rw [encodeFileHeader, List.length_append, Win32StreamId.length_encode] at fits
  omega

theorem Archived.WellFormed.boundary (wf : object.WellFormed c.dwBufferSize) (tail : List BYTE) :
    Boundary (object.encode ++ tail) := by
  refine .inr ⟨_, object.fields ++ object.contents.encode ++ tail, wf.valid, ?_⟩
  simp [Archived.encode_eq]

end Header

theorem boundary_objects {objects : List Archived} {final : List BYTE} (boundary : Boundary final)
    (wf : ∀ object ∈ objects, object.WellFormed c.dwBufferSize) :
    Boundary (objects.flatMap Archived.encode ++ final) := by
  cases objects with
  | nil => exact boundary
  | cons object rest =>
    rw [List.flatMap_cons, List.append_assoc]
    exact (wf object List.mem_cons_self).boundary _

theorem Win32StreamId.encode_inj {h h' : Win32StreamId} {more more' : List BYTE}
    (same : h.encode ++ more = h'.encode ++ more') : h = h' ∧ more = more' := by
  have lengths : h.encode.length = h'.encode.length := by simp
  obtain ⟨encoded, rest⟩ := List.append_inj same lengths
  have first := Win32StreamId.decode_encode h []
  have second := Win32StreamId.decode_encode h' []
  rw [List.append_nil] at first second
  exact ⟨by rw [← first, ← second, encoded], rest⟩

theorem Ended.header_read {tail more : List BYTE} {n : Nat} {h : Win32StreamId}
    (ended : Ended c tail n s) (begins : tail = h.encode ++ more) :
    Loaded s h ∧ s.headerPos + headerSize = s.pos ∧ Rest c s more := by
  cases ended with
  | nothing at_ cleared =>
    have lengths := congrArg List.length begins
    simp only [List.length_nil, List.length_append, Win32StreamId.length_encode, headerSize] at lengths
    omega
  | header valid loaded start at_ =>
    obtain ⟨rfl, rfl⟩ := Win32StreamId.encode_inj begins
    exact ⟨loaded, start, at_⟩

def visits (t : List (Event H)) : List Nat :=
  t.filterMap fun
    | .fileHeader start => some start
    | _ => none

def restoredFiles (t : List (Event H)) :
    List (UnicodeString × ByHandleFileInformation × UnicodeString) :=
  t.filterMap fun
    | .restoreFile _ File FileInfo ShortName => some (File, FileInfo, ShortName)
    | _ => none

def offsets : Nat → List Archived → List Nat
  | _, [] => []
  | start, object :: rest => start :: offsets (start + object.encode.length) rest

theorem length_offsets (start : Nat) (objects : List Archived) :
    (offsets start objects).length = objects.length := by
  induction objects generalizing start with
  | nil => rfl
  | cons object rest ih => rw [offsets, List.length_cons, ih, List.length_cons]

@[simp] theorem visits_append (t t' : List (Event H)) : visits (t ++ t') = visits t ++ visits t' :=
  List.filterMap_append

@[simp] theorem restoredFiles_append (t t' : List (Event H)) :
    restoredFiles (t ++ t') = restoredFiles t ++ restoredFiles t' := List.filterMap_append

theorem visits_streamEvents {dwBufferSize : Nat} {t : List (Event H)}
    (events : ∀ e ∈ t, StreamEvent dwBufferSize e) : visits t = [] := by
  apply List.filterMap_eq_nil_iff.mpr
  intro e mem
  cases e with
  | fileHeader start => exact (events _ mem).elim
  | _ => rfl

theorem restoredFiles_streamEvents {dwBufferSize : Nat} {t : List (Event H)}
    (events : ∀ e ∈ t, StreamEvent dwBufferSize e) : restoredFiles t = [] := by
  apply List.filterMap_eq_nil_iff.mpr
  intro e mem
  cases e with
  | restoreFile start File FileInfo ShortName => exact (events _ mem).elim
  | _ => rfl

theorem provided_streamEvents {α : Type} {x : Restore σ H α}
    {Q : List (Event H) → α → Session σ → Prop} (h : Provided kept LinkWhole x s Q)
    (acts : Acting c (fun _ => True) (fun _ => True) x s fun _ _ => True) :
    Provided kept LinkWhole x s fun t a s' => Q t a s' ∧ ∀ e ∈ t, StreamEvent c.dwBufferSize e := by
  apply (h.and acts fun e _ => opens_anything e).mono
  intro t a s' facts
  rcases facts with ⟨value, acts, -⟩
  exact ⟨value, acts.events⟩

theorem provided_acceptFileHeader {h : Win32StreamId} (loaded : Loaded s h)
    (valid : validFileHeader h = true) :
    Provided kept LinkWhole (acceptFileHeader c) s fun t found s' => t = [] ∧ found = true ∧ s' = s := by
  unfold acceptFileHeader
  apply provided_bind_ok (header_run s)
  intro _
  rw [loaded.header, invalidFileHeader_eq, valid, if_neg (by decide)]
  exact provided_pure ⟨rfl, rfl, rfl⟩

theorem provided_readNextFileHeader {h : Win32StreamId} {more : List BYTE}
    (valid : validFileHeader h = true) (at_ : Rest c s (h.encode ++ more)) :
    Provided kept LinkWhole (readNextFileHeader c) s fun t found s' => t = [] ∧ found = true ∧
      Ended c (h.encode ++ more) headerSize s' := by
  have length := h.length_encode
  have before := at_.length
  rw [List.length_append] at before
  unfold readNextFileHeader
  apply provided_readArchive at_ 0 length.symm
  intro s₁ at₁ buffer headerPos
  have after := at₁.length
  have loaded : Loaded s₁ h := by
    rw [Loaded, buffer, ← length, Cells.read_write_same]
  rw [length, if_neg (Nat.lt_irrefl _)]
  apply provided_bind_ok (header_run s₁)
  intro _
  rw [loaded.header, if_pos valid]
  refine provided_pure ⟨rfl, rfl, .header valid loaded ?_ at₁⟩
  rw [headerPos, if_pos rfl]
  omega

theorem rest_start {bytes : List BYTE} (archive : c.archive.bytes = bytes) (disk : σ) :
    Rest c (Session.start disk) bytes :=
  ⟨Nat.zero_le _, by rw [archive]; rfl⟩

theorem length_objects (objects : List Archived) :
    objects.length ≤ (objects.flatMap Archived.encode).length := by
  induction objects with
  | nil => exact Nat.le_refl _
  | cons object rest ih =>
    have twenty : headerSize = 20 := rfl
    simp only [List.flatMap_cons, List.length_append, List.length_cons, Archived.encode_eq,
      Win32StreamId.length_encode]
    omega

theorem restoreAccepted_eq (large : headerSize ≤ c.dwBufferSize) {tail : List BYTE} {object : Archived}
    (wf : object.WellFormed c.dwBufferSize)
    (loaded : Loaded s (fileHeader object.name object.shortName))
    (at_ : Rest c s (object.fields ++ (object.contents.encode ++ tail))) :
    ∃ s', Rest c s' (object.contents.encode ++ tail) ∧ s'.disk = s.disk ∧
      restoreAccepted c s = (restoreFile c object.name object.info object.shortName s').after
        [.fileHeader s.headerPos,
          .restoreFile s'.headerPos object.name object.info object.shortName] := by
  have dword := c.isDword
  have bound := wf.nameSize
  have fits := wf.fits
  have room : (encodeFileHeader object.name object.info object.shortName).length =
      headerSize + object.fields.length := by
    simp [encodeFileHeader, Archived.fields]
  have data : c.archive.readLoop object.fields.length s.pos object.fields.length = object.fields := by
    rw [c.archive.readLoop_eq _ _ _ (Nat.le_refl _), at_.drop, List.take_left]
  obtain ⟨s₁, at₁, buffer, disk, read⟩ : ∃ s₁, Rest c s₁ (object.contents.encode ++ tail) ∧
      s₁.Buffer = s.Buffer.write headerSize object.fields ∧ s₁.disk = s.disk ∧
      readArchive c headerSize object.fields.length s = .ok [] object.fields.length s₁ := by
    have total := at_.length
    rw [List.length_append] at total
    refine ⟨s.afterRead c headerSize object.fields.length, ⟨?_, ?_⟩, ?_, rfl, ?_⟩
    · simp only [Session.afterRead, data]
      omega
    · simp only [Session.afterRead, data]
      rw [← List.drop_drop, at_.drop, List.drop_left]
    · simp only [Session.afterRead, data]
    · rw [readArchive_run, data]
  have loaded₁ : Loaded s₁ (fileHeader object.name object.shortName) := by
    rw [Loaded, buffer, Cells.read_write_before _ _ (by omega)]
    exact loaded
  have fields : s₁.Buffer.read headerSize object.fields.length = object.fields := by
    rw [buffer, Cells.read_write_same]
  obtain ⟨name, fields⟩ := Cells.read_append fields
  obtain ⟨info, short⟩ := Cells.read_append fields
  rw [length_wcharBytes] at name info short
  rw [ByHandleFileInformation.length_encode] at info short
  have shortName : (if (fileHeader object.name object.shortName).Size = 78 then
      terminated (wchars (s₁.Buffer.read (headerSize + 2 * object.name.length + sizeofFileInformation)
        shortNameSize)) else []) = object.shortName := by
    have length := length_encodeShortName wf.shortSize
    by_cases none : object.shortName = []
    · rw [none, if_neg]
      simp only [fileHeader, if_true]
      decide
    · rw [if_neg none] at length
      rw [length] at short
      rw [if_pos (by simp only [fileHeader, if_neg none]), short, encodeShortName, if_neg none,
        terminated_short wf.shortUnits]
  have object_run : restoreObject c s₁ =
      (restoreFile c object.name object.info object.shortName s₁).after
        [.restoreFile s₁.headerPos object.name object.info object.shortName] := by
    unfold restoreObject
    rw [bind_eq_of_ok (header_run s₁), loaded₁.header, wf.headerNameSize, Nat.mod_eq_of_lt (by omega),
      bind_eq_of_ok (bufferAt_run _ _ s₁), bind_eq_of_ok (bufferAt_run _ _ s₁),
      bind_eq_of_ok (bufferAt_run _ _ s₁), name, info, wchars_wcharBytes,
      ByHandleFileInformation.decode_encode, shortName, bind_eq_of_ok (noteRestoreFile_run _ _ _ s₁)]
    simp only [Outcome.after_nil]
  refine ⟨s₁, at₁, disk, ?_⟩
  unfold restoreAccepted
  rw [bind_eq_of_ok (noteFileHeader_run s), bind_eq_of_ok (header_run s), loaded.header,
    wf.length_fields, dwordSub_of_le large dword, if_neg (by omega), bind_eq_of_ok read,
    if_neg (fun differ => differ rfl), object_run]
  simp only [Outcome.after_after, List.singleton_append, List.nil_append]

theorem provided_accepted {Q : List (Event H) → Bool → Session σ → Prop}
    (large : headerSize ≤ c.dwBufferSize) {tail : List BYTE} {object : Archived}
    (wf : object.WellFormed c.dwBufferSize)
    (loaded : Loaded s (fileHeader object.name object.shortName))
    (at_ : Rest c s (object.fields ++ (object.contents.encode ++ tail)))
    (file : ∀ s', Rest c s' (object.contents.encode ++ tail) →
      Provided kept LinkWhole (restoreFile c object.name object.info object.shortName) s' fun t =>
        Q (.fileHeader s.headerPos ::
          .restoreFile s'.headerPos object.name object.info object.shortName :: t)) :
    Provided kept LinkWhole (restoreAccepted c) s Q := by
  obtain ⟨s', at', -, run⟩ := restoreAccepted_eq large wf loaded at_
  apply ensures_of_after run
  apply Ensures.mono (file s' at')
  · intro t a s'' held all
    obtain ⟨whole, value⟩ := held fun e mem => all e (by simp [mem])
    exact ⟨by simpa using whole, value⟩
  · intro t e s'' held all
    exact ⟨by simpa using (held fun e mem => all e (by simp [mem])).1,
      (held fun e mem => all e (by simp [mem])).2⟩

variable [DecidableEq H]

/-- What a run leaves in its history that restores these objects from this offset on. -/
structure Visited (c : Config σ H) (kept : Event H → Prop) (start : Nat) (objects : List Archived)
    (t : List (Event H)) : Prop where
  headers : visits t = offsets start objects
  files : restoredFiles t =
    objects.map fun object => (object.name, object.info, object.shortName)
  delivers : (∀ e, kept e → Succeeded e) → Extracts c →
    (∀ object ∈ objects, Restorable object.name object.contents.list) →
    ∀ p : Delivered H, (p.run t).list = p.list ++ objects.flatMap Archived.deliveries
  whole : ∀ e ∈ t, LinkWhole e

theorem Visited.nil (start : Nat) : Visited c kept start [] [] :=
  ⟨rfl, rfl, fun _ _ _ p => by simp, by simp⟩

theorem Visited.cons {start : Nat} {object : Archived} {rest : List Archived} {t t' : List (Event H)}
    (first : Visited c kept start [object] t)
    (second : Visited c kept (start + object.encode.length) rest t') :
    Visited c kept start (object :: rest) (t ++ t') := by
  refine ⟨?_, ?_, fun all extracts restorable p => ?_, ?_⟩
  · rw [visits_append, first.headers, second.headers]
    rfl
  · rw [restoredFiles_append, first.files, second.files]
    rfl
  · have one := first.delivers all extracts
      (fun other mem => restorable other (by simp [List.mem_singleton.mp mem])) p
    have others := second.delivers all extracts
      (fun other mem => restorable other (List.mem_cons_of_mem _ mem)) (p.run t)
    rw [Delivered.run_append, others, one]
    simp
  · intro e mem
    rcases List.mem_append.mp mem with mem | mem
    · exact first.whole e mem
    · exact second.whole e mem

theorem Contents.deliveries_list (contents : Contents) (File : UnicodeString) :
    streamDeliveries File contents.list = contents.deliveries File := by
  cases contents with
  | streams list => rfl
  | link LinkName =>
    simp [list, streamDeliveries, linkStream, deliveries]

theorem provided_restoreAccepted (quiet : ∀ pos, c.bCancel pos = false)
    (large : headerSize ≤ c.dwBufferSize) (step : c.options.bTestMode = false → InStep kept)
    {tail : List BYTE} (boundary : Boundary tail) {object : Archived}
    (wf : object.WellFormed c.dwBufferSize)
    (names : c.options.bTestMode = false → Passes kept ∨ Restorable
      (restoredName c.options object.name object.info object.shortName).1 object.contents.list)
    (loaded : Loaded s (fileHeader object.name object.shortName))
    (at_ : Rest c s (object.fields ++ (object.contents.encode ++ tail))) :
    Provided kept LinkWhole (restoreAccepted c) s fun t more s' => more = true ∧ (∃ n, Ended c tail n s') ∧
      Visited c kept s.headerPos [object] t := by
  apply provided_accepted large wf loaded at_
  intro s₁ at₁
  rw [← object.contents.encode_list] at at₁
  have restored := provided_streamEvents
    (provided_restoreFile quiet large step boundary object.name object.info object.shortName names
      wf.contents.list at₁)
    (restoreFile_acts (fun _ => trivial) (fun _ => trivial) _ _ _)
  apply restored.events.mono
  intro t more s' facts
  rcases facts with ⟨⟨⟨result, ended, delivers⟩, events⟩, whole⟩
  refine ⟨result, ended, ?_, ?_, fun all extracts restorable p => ?_, ?_⟩
  · rw [← List.singleton_append, visits_append, ← List.singleton_append (l := t), visits_append,
      visits_streamEvents events]
    rfl
  · rw [← List.singleton_append, restoredFiles_append, ← List.singleton_append (l := t),
      restoredFiles_append, restoredFiles_streamEvents events]
    rfl
  · have streams := delivers all extracts (restorable object List.mem_cons_self)
      (p.add (.file object.name object.info object.shortName))
    rw [object.contents.deliveries_list] at streams
    simpa [Delivered.step, Archived.deliveries] using streams
  · intro e mem
    rcases List.mem_cons.mp mem with rfl | mem
    · trivial
    rcases List.mem_cons.mp mem with rfl | mem
    · trivial
    · exact whole e mem

theorem within_objects {Q : List (Event H) → Bool → Session σ → Prop}
    {R : List (Event H) → XError → Session σ → Prop}
    (quiet : ∀ pos, c.bCancel pos = false) (large : headerSize ≤ c.dwBufferSize)
    (step : c.options.bTestMode = false → InStep kept) {final : List BYTE}
    (boundary : Boundary final) (objects : List Archived)
    (wf : ∀ object ∈ objects, object.WellFormed c.dwBufferSize)
    (names : c.options.bTestMode = false → Passes kept ∨ ∀ object ∈ objects, Restorable
      (restoredName c.options object.name object.info object.shortName).1 object.contents.list)
    {fuel n start : Nat} (ended : Ended c (objects.flatMap Archived.encode ++ final) n s)
    (position : start + (objects.flatMap Archived.encode ++ final).length = c.archive.bytes.length)
    (next : ∀ t n s', Visited c kept start objects t → Ended c final n s' →
      Within kept (directoryTreeLoop c fuel) s' (fun t' => Q (t ++ t')) fun t' => R (t ++ t')) :
    Within kept (directoryTreeLoop c (objects.length + fuel)) s Q R := by
  induction objects generalizing s n start Q R with
  | nil =>
    rw [List.length_nil, Nat.zero_add]
    exact next [] n s (Visited.nil start) ended
  | cons object rest ih =>
    have wf₁ := wf object List.mem_cons_self
    have wf_rest : ∀ other ∈ rest, other.WellFormed c.dwBufferSize :=
      fun other mem => wf other (List.mem_cons_of_mem _ mem)
    have split : (object :: rest).flatMap Archived.encode ++ final =
        (fileHeader object.name object.shortName).encode ++ (object.fields ++
          (object.contents.encode ++ (rest.flatMap Archived.encode ++ final))) := by
      simp [Archived.encode_eq]
    obtain ⟨loaded, read, at_⟩ := ended.header_read split
    have length := at_.length
    have headerPos : s.headerPos = start := by
      rw [split, List.length_append, Win32StreamId.length_encode] at position
      omega
    rw [List.length_cons, Nat.add_right_comm]
    unfold directoryTreeLoop
    apply within_bind (provided_acceptFileHeader loaded wf₁.valid)
    intro _ found _ facts
    rcases facts with ⟨rfl, rfl, rfl⟩
    rw [if_pos rfl]
    apply within_bind (provided_restoreAccepted quiet large step
      (boundary_objects boundary wf_rest) wf₁
      (fun extracting => (names extracting).imp_right fun restorable =>
        restorable object List.mem_cons_self) loaded at_)
    intro t₁ more s₁ facts
    rcases facts with ⟨rfl, ⟨n₁, ended₁⟩, visited⟩
    rw [if_pos rfl]
    rw [headerPos] at visited
    have position₁ : start + object.encode.length +
        (rest.flatMap Archived.encode ++ final).length = c.archive.bytes.length := by
      rw [List.flatMap_cons, List.append_assoc, List.length_append] at position
      omega
    apply ih wf_rest (fun extracting => (names extracting).imp_right fun restorable other mem =>
      restorable other (List.mem_cons_of_mem _ mem)) ended₁ position₁
    intro t₂ n₂ s₂ visited₂ ended₂
    simpa only [List.append_assoc, List.nil_append] using
      next (t₁ ++ t₂) n₂ s₂ (visited.cons visited₂) ended₂

theorem provided_directoryTreeLoop_end {n : Nat} (fuel : Nat) (ended : Ended c [] n s) :
    Provided kept LinkWhole (directoryTreeLoop c (fuel + 1)) s fun t value _ =>
      value = true ∧ visits t = [] ∧ restoredFiles t = [] ∧ Silent t := by
  obtain ⟨at_, cleared⟩ : Rest c s [] ∧ Loaded s ⟨0, 0, 0, 0⟩ := by
    generalize empty : ([] : List BYTE) = tail at ended
    cases ended with
    | nothing at_ cleared => exact ⟨at_, cleared⟩
    | header valid loaded start at_ =>
      have lengths := congrArg List.length empty
      simp only [List.length_nil, List.length_append, Win32StreamId.length_encode, headerSize] at lengths
      omega
  have none : c.archive.readLoop headerSize s.pos headerSize = [] := by
    rw [c.archive.readLoop_eq _ _ _ (Nat.le_refl _), at_.drop, List.take_nil]
  have search : Provided kept LinkWhole (acceptFileHeader c) s fun t found _ =>
      t = [.rejected s.headerPos s.pos] ∧ found = false := by
    unfold acceptFileHeader
    apply provided_bind_ok (header_run s)
    intro _
    rw [cleared.header, if_pos (by decide)]
    apply provided_bind_ok (noteRejected_run s)
    intro _
    unfold readNextFileHeader
    apply provided_bind_ok (readArchive_run c 0 headerSize s)
    intro _
    rw [none, if_pos (by decide)]
    exact provided_pure ⟨rfl, rfl⟩
  unfold directoryTreeLoop
  apply provided_bind search
  intro t found s₁ facts
  rcases facts with ⟨rfl, rfl⟩
  rw [if_neg Bool.false_ne_true]
  exact provided_pure ⟨rfl, rfl, rfl, fun p => rfl⟩

/-- The whole archive is read object by object, whatever fails on the disk. -/
theorem within_restoreDirectoryTree {Q : List (Event H) → Bool → Session σ → Prop}
    {R : List (Event H) → XError → Session σ → Prop} (quiet : ∀ pos, c.bCancel pos = false)
    (large : headerSize ≤ c.dwBufferSize) (step : c.options.bTestMode = false → InStep kept)
    {objects : List Archived} {final : List BYTE} (boundary : Boundary final) (some : objects ≠ [])
    (archive : c.archive.bytes = objects.flatMap Archived.encode ++ final)
    (wf : ∀ object ∈ objects, object.WellFormed c.dwBufferSize)
    (names : c.options.bTestMode = false → Passes kept ∨ ∀ object ∈ objects, Restorable
      (restoredName c.options object.name object.info object.shortName).1 object.contents.list)
    (disk : σ)
    (next : ∀ t n s' fuel, Visited c kept 0 objects t → Ended c final n s' →
      Within kept (directoryTreeLoop c (fuel + 1)) s' (fun t' => Q (t ++ t'))
        fun t' => R (t ++ t')) :
    Within kept (restoreDirectoryTree c) (Session.start disk) Q R := by
  obtain ⟨object, rest, rfl⟩ := List.exists_cons_of_ne_nil some
  have wf₁ := wf object List.mem_cons_self
  have split : c.archive.bytes = (fileHeader object.name object.shortName).encode ++ (object.fields ++
      (object.contents.encode ++ (rest.flatMap Archived.encode ++ final))) := by
    rw [archive]
    simp [Archived.encode_eq]
  have count := length_objects (object :: rest)
  have total := congrArg List.length archive
  rw [List.length_append] at total
  obtain ⟨fuel, enough⟩ : ∃ fuel, c.fuel = (object :: rest).length + (fuel + 1) :=
    ⟨c.fuel - (object :: rest).length - 1, by simp only [Config.fuel]; omega⟩
  unfold restoreDirectoryTree
  apply within_bind (provided_readNextFileHeader wf₁.valid (rest_start split disk))
  intro _ found s₁ facts
  rcases facts with ⟨rfl, rfl, ended⟩
  rw [if_pos rfl, enough]
  rw [← split, archive] at ended
  apply within_objects quiet large step boundary _ wf names ended (by rw [archive, Nat.zero_add])
  intro t n s' visited ended'
  exact next t n s' fuel visited ended'

/-- Every object of a well-formed archive is restored, and nothing else. -/
theorem restoreDirectoryTree_visited (quiet : ∀ pos, c.bCancel pos = false)
    (step : c.options.bTestMode = false → InStep kept) {objects : List Archived}
    (archive : c.archive.bytes = objects.flatMap Archived.encode)
    (wf : ∀ object ∈ objects, object.WellFormed c.dwBufferSize)
    (names : c.options.bTestMode = false → Passes kept ∨ ∀ object ∈ objects, Restorable
      (restoredName c.options object.name object.info object.shortName).1 object.contents.list)
    (disk : σ) (all : ∀ e ∈ (restoreDirectoryTree c (Session.start disk)).events, kept e) :
    (restoreDirectoryTree c (Session.start disk)).exception = none ∧
      Visited c kept 0 objects (restoreDirectoryTree c (Session.start disk)).events := by
  have visited : Within kept (restoreDirectoryTree c) (Session.start disk)
      (fun t _ _ => Visited c kept 0 objects t) fun _ _ _ => False := by
    by_cases some : objects = []
    · subst some
      have none : c.archive.readLoop headerSize 0 headerSize = [] := by
        rw [c.archive.readLoop_eq _ _ _ (Nat.le_refl _), archive]
        rfl
      have nothing : Provided kept LinkWhole (restoreDirectoryTree c) (Session.start disk)
          fun t _ _ => Visited c kept 0 [] t := by
        unfold restoreDirectoryTree readNextFileHeader
        apply provided_bind (Q := fun t found _ => t = [] ∧ found = false)
        · apply provided_bind_ok (readArchive_run c 0 headerSize _)
          intro _
          rw [Session.start, none, if_pos (by decide)]
          exact provided_pure ⟨rfl, rfl⟩
        · intro _ _ s₁ facts
          rcases facts with ⟨rfl, rfl⟩
          rw [if_neg Bool.false_ne_true]
          exact provided_pure (Visited.nil 0)
      exact nothing.within
    · obtain ⟨object, rest, rfl⟩ := List.exists_cons_of_ne_nil some
      rw [← List.append_nil (List.flatMap _ _)] at archive
      apply within_restoreDirectoryTree quiet (wf object List.mem_cons_self).large step (.inl rfl) some
        archive wf names disk
      intro t n s' fuel visited ended
      apply (provided_directoryTreeLoop_end fuel ended).events.within.mono _ fun _ _ _ h => h
      intro t' value _ facts
      rcases facts with ⟨⟨-, headers, files, silent⟩, whole⟩
      refine ⟨?_, ?_, fun all extracts restorable p => ?_, ?_⟩
      · rw [visits_append, visited.headers, headers, List.append_nil]
      · rw [restoredFiles_append, visited.files, files, List.append_nil]
      · rw [Delivered.run_append, silent, visited.delivers all extracts restorable p]
      · intro e mem
        rcases List.mem_append.mp mem with mem | mem
        · exact visited.whole e mem
        · exact whole e mem
  obtain ⟨t, value, s', run, visited⟩ := visited.value all
  rw [run]
  exact ⟨rfl, visited⟩

end StrArc
