import LtrData.StrArc.TreeActions
import LtrData.StrArc.VolumeStreams

namespace StrArc

open Traced

/-! ### What the restore of an object makes of a volume -/

namespace Volume

def writable (v : Volume) (id : Nat) : Volume :=
  if hasAttribute (v.existing id).FileAttributes fileAttributeReadonly then
    v.change id (·.setBasic (withoutAttribute (v.existing id) fileAttributeReadonly))
  else v

/-- Whether an object is extracted, and the volume on which its target is created. -/
def probed (v : Volume) (o : Options) (File : UnicodeString) (FileInfo : ByHandleFileInformation) :
    Bool × Volume :=
  match v.names File with
  | none => (!o.bFreshenExisting, v)
  | some id => if overwrites o (v.existing id) FileInfo then (true, v.writable id) else (false, v)

def createdTarget (v : Volume) (o : Options) (File : UnicodeString)
    (FileInfo : ByHandleFileInformation) : Reply VolumeHandle × Volume :=
  if hasAttribute FileInfo.dwFileAttributes fileAttributeDirectory then
    v.create File ((FileInfo.dwFileAttributes &&& ~~~fileAttributeReadonly) |||
      fileAttributeDirectory) .fileOpenIf
  else
    v.create File (FileInfo.dwFileAttributes &&& ~~~fileAttributeReadonly) o.dwExtractCreation

def finished (v : Volume) (o : Options) (id : Nat) (FileInfo : ByHandleFileInformation) : Volume :=
  if o.bProcessFileTimes || o.bProcessFileAttribs then
    v.change id (·.setBasic (finalInformation o FileInfo))
  else v

/-- The contents of an archived object go to the target that is open. -/
def filled (v : Volume) (o : Options) (h : VolumeHandle) (object : Archived) : Volume :=
  match object.contents with
  | .streams list =>
    (v.change h.id fun file => list.foldl (DiskFile.take v.now) file).finished o h.id object.info
  | .link LinkName => v.linked h LinkName object.name

def extracted (v : Volume) (o : Options) (object : Archived) : Volume :=
  match v.createdTarget o object.name object.info with
  | (.opened h, v') => v'.filled o h object
  | (_, v') => v'

/-- The restore of one object, without archive, buffer and handles. -/
def restored (c : Config Volume VolumeHandle) (v : Volume) (object : Archived) : Volume :=
  if c.included object.name object.info then
    if (v.probed c.options object.name object.info).1 then
      (v.probed c.options object.name object.info).2.extracted c.options object
    else (v.probed c.options object.name object.info).2
  else v

end Volume

/-- Objects without streams that have a name or a place of their own. -/
def Archived.Unnamed (object : Archived) : Prop :=
  ∀ list, object.contents = .streams list → ∀ stream ∈ list, stream.Unnamed

/-- Options by which objects are extracted under their own names, with their links as links. -/
structure ExtractsNames (c : Config Volume VolumeHandle) : Prop where
  restores : c.options.bTestMode = false
  longNames : c.options.bRestoreShortNamesOnly = false
  hardLinks : c.options.bHardLinkSupport = true

/-! ### The restore of a file -/

variable {c : Config Volume VolumeHandle} {s : Session Volume} {v : Volume} {h : VolumeHandle}
  {tail rest : List BYTE}

theorem yields_writeFileHardLinkFromArchive (working : c.system = Volume.system fun _ => none)
    (hardLinks : c.options.bHardLinkSupport = true) (LinkName Target : UnicodeString) {k : Nat}
    (wf : (linkStream LinkName).WellFormed c.dwBufferSize) (short : 2 * LinkName.length ≤ 65534)
    (filled : Filled c s (linkStream LinkName) k rest) (on : OnDisk s v) :
    Yields (writeFileHardLinkFromArchive c (some h) (headerSize + k) Target false) s
      fun hFile s' => hFile = none ∧ OnDisk s' (v.linked h LinkName Target) ∧ Rest c s' rest := by
  have fits := wf.link rfl
  have size := filled.size
  have body := (linkStream LinkName).length_body
  have length : (linkStream LinkName).data.length = 2 * LinkName.length := length_wcharBytes LinkName
  have unnamed : (linkStream LinkName).name.length = 0 := rfl
  have whole : k = (linkStream LinkName).body.length := by omega
  have at_ : Rest c s rest := by
    have at_ := filled.rest
    rwa [whole, List.drop_length, List.nil_append] at at_
  have complete : ((headerSize + k : Nat) : Int) = quadPart ((linkStream LinkName).data.length +
      ((headerSize + 2 * (linkStream LinkName).name.length : Nat) : Int)) := by
    have bound := wf.size
    rw [quadPart_of_lt (by omega) (by omega)]
    omega
  unfold writeFileHardLinkFromArchive
  apply yields_bind_ok (header_run s)
  rw [filled.loaded.header]
  dsimp only
  rw [wf.sizeInt, wf.sizeNat, wf.dataOffset, ← complete]
  have located : Yields (locate c .linkName (headerSize + k)
      (headerSize + 2 * (linkStream LinkName).name.length)
      ((linkStream LinkName).data.length % 2 ^ 16)) s fun _ s' => s' = s := by
    apply (provided_locate .linkName (by omega) fun _ => by
      rw [filled.loaded.header, wf.sizeInt]
      exact complete).yields.mono
    intro _ s' facts
    obtain ⟨_, _, same⟩ := facts
    exact same
  apply yields_bind located
  intro _ _ same
  subst same
  apply yields_bind_ok (bufferAt_run _ _ _)
  have payload := filled.payload wf
  rw [show k - 2 * (linkStream LinkName).name.length = (linkStream LinkName).data.length by omega,
    List.take_length] at payload
  rw [if_neg (by simp), Nat.mod_eq_of_lt (by omega), payload,
    show wchars (linkStream LinkName).data = LinkName from wchars_wcharBytes LinkName]
  apply (yields_linkTarget working hardLinks LinkName Target on).mono
  intro hFile s' facts
  exact ⟨facts.1, facts.2.1, facts.2.2.rest at_⟩

theorem yields_streamLoop_link (working : c.system = Volume.system fun _ => none)
    (quiet : ∀ pos, c.bCancel pos = false) (large : headerSize ≤ c.dwBufferSize)
    (hardLinks : c.options.bHardLinkSupport = true) (boundary : Boundary tail)
    (LinkName Target : UnicodeString) (fuel : Nat) {dwBytesRead : Nat}
    (wf : (linkStream LinkName).WellFormed c.dwBufferSize) (short : 2 * LinkName.length ≤ 65534)
    (ready : Ready c tail [linkStream LinkName] dwBytesRead s) (on : OnDisk s v) :
    Yields (streamLoop c Target (fuel + 2) dwBytesRead (some h) false) s fun r s' =>
      r = ⟨true, none, false⟩ ∧ (∃ n, Ended c tail n s') ∧
        OnDisk s' (v.linked h LinkName Target) := by
  cases ready with
  | stream loaded at_ =>
    apply yields_streamLoop_round quiet large Target (fuel + 1) (some h) false wf loaded at_
    intro k s₁ filled disk₁
    rw [if_pos ⟨rfl, rfl⟩]
    apply yields_bind (yields_writeFileHardLinkFromArchive working hardLinks LinkName Target wf
      short filled (on.same disk₁))
    intro _ s₂ facts
    obtain ⟨rfl, on₂, at₂⟩ := facts
    apply yields_bind (yields_readStreamHeader boundary at₂)
    intro n s₃ facts
    obtain ⟨ready₃, disk₃⟩ := facts
    cases ready₃ with
    | ended ended =>
      apply (yields_streamLoop_ended quiet Target fuel none false ended).mono
      intro r _ facts
      obtain ⟨result, rfl⟩ := facts
      exact ⟨result, ⟨_, ended⟩, on₂.same disk₃⟩

section files

variable {File ShortName : UnicodeString} {FileInfo : ByHandleFileInformation}

theorem yields_openExisting (working : c.system = Volume.system fun _ => none) (on : OnDisk s v) :
    Yields (openExisting c File) s fun hFile s' =>
      hFile = (v.names File).map (VolumeHandle.mk File) ∧ OnDisk s' v ∧ Same s s' := by
  unfold openExisting
  cases named : v.names File with
  | none =>
    apply yields_bind_call working on (v.answer_openFile_none .existing named)
    intro s₁ on₁ same₁
    rw [if_neg fun refused => absurd refused.2 (by decide)]
    exact yields_pure ⟨rfl, on₁, same₁⟩
  | some id =>
    apply yields_bind_call working on (v.answer_openFile .existing named)
    intro s₁ on₁ same₁
    rw [if_neg fun refused => absurd refused.1 (by simp [Reply.handle])]
    exact yields_pure ⟨rfl, on₁, same₁⟩

theorem yields_resetReadonly (working : c.system = Volume.system fun _ => none) (on : OnDisk s v)
    (bIncludeThis : Bool) :
    Yields (resetReadonly c (some h) bIncludeThis (v.existing h.id)) s fun _ s' =>
      OnDisk s' (if bIncludeThis then v.writable h.id else v) ∧ Same s s' := by
  unfold resetReadonly
  cases bIncludeThis with
  | false =>
    rw [if_neg fun both => Bool.false_ne_true both.1, if_neg Bool.false_ne_true]
    exact yields_pure ⟨on, Same.refl s⟩
  | true =>
    rw [if_pos rfl]
    unfold Volume.writable
    by_cases readonly : hasAttribute (v.existing h.id).FileAttributes fileAttributeReadonly = true
    · rw [if_pos ⟨rfl, readonly⟩, if_pos readonly]
      apply yields_bind_call working on (v.answer_setInformation h _)
      intro s₁ on₁ same₁
      exact yields_pure ⟨on₁, same₁⟩
    · rw [if_neg fun both => readonly both.2, if_neg readonly]
      exact yields_pure ⟨on, Same.refl s⟩

theorem yields_probeExisting (working : c.system = Volume.system fun _ => none) (on : OnDisk s v) :
    Yields (probeExisting c File FileInfo) s fun probed s' =>
      probed.1 = (v.probed c.options File FileInfo).1 ∧
        OnDisk s' (v.probed c.options File FileInfo).2 ∧ Same s s' := by
  unfold probeExisting Volume.probed
  apply yields_bind (yields_openExisting working on)
  intro _ s₁ facts
  obtain ⟨rfl, on₁, same₁⟩ := facts
  cases named : v.names File with
  | none => exact yields_pure ⟨rfl, on₁, same₁⟩
  | some id =>
    apply yields_bind_call working on₁ (v.answer_queryInformation ⟨File, id⟩)
    intro s₂ on₂ same₂
    apply yields_bind (yields_resetReadonly working on₂ (h := ⟨File, id⟩) _)
    intro existing s₃ facts
    obtain ⟨on₃, same₃⟩ := facts
    apply yields_bind_call working on₃ rfl
    intro s₄ on₄ same₄
    have same := ((same₁.trans same₂).trans same₃).trans same₄
    change OnDisk s₄ (if overwrites c.options (v.existing id) FileInfo then _ else v) at on₄
    apply yields_pure
    dsimp only
    by_cases allowed : overwrites c.options (v.existing id) FileInfo = true
    · rw [if_pos allowed] at on₄ ⊢
      exact ⟨allowed, on₄, same⟩
    · rw [if_neg allowed] at on₄ ⊢
      exact ⟨Bool.eq_false_of_not_eq_true allowed, on₄, same⟩

theorem Volume.create_openIf (v : Volume) (Name : UnicodeString) (FileAttributes : DWORD) :
    ∃ h, (v.create Name FileAttributes .fileOpenIf).1 = .opened h := by
  unfold create
  cases v.names Name with
  | none => exact ⟨_, rfl⟩
  | some id => exact ⟨_, rfl⟩

theorem Volume.answer_createDirectory {FileAttributes : DWORD} (delete reparse : Bool)
    (opened : (v.create File (FileAttributes ||| fileAttributeDirectory) .fileOpenIf).1 = .opened h) :
    v.answer (.createDirectory File delete FileAttributes reparse) =
      (.opened h, (v.create File (FileAttributes ||| fileAttributeDirectory) .fileOpenIf).2) :=
  Prod.ext opened rfl

theorem yields_createTarget (working : c.system = Volume.system fun _ => none)
    (extracts : ExtractsNames c) (on : OnDisk s v) (existing : FileBasicInformation) :
    Yields (createTarget c File FileInfo true false existing) s fun target s' =>
      target = ((v.createdTarget c.options File FileInfo).1.handle,
        (v.createdTarget c.options File FileInfo).1.handle.isNone) ∧
      OnDisk s' (v.createdTarget c.options File FileInfo).2 ∧ Same s s' := by
  have open_ : ¬(c.options.bTestMode = true ∨ true = false ∨ false = true) := by
    rw [extracts.restores]
    decide
  unfold createTarget Volume.createdTarget
  dsimp only
  rw [if_neg open_]
  by_cases directory : hasAttribute FileInfo.dwFileAttributes fileAttributeDirectory = true
  · rw [if_pos directory, if_pos directory]
    obtain ⟨h, opened⟩ := v.create_openIf File
      ((FileInfo.dwFileAttributes &&& ~~~fileAttributeReadonly) ||| fileAttributeDirectory)
    have created : Yields (createTargetDirectory c File FileInfo
        (hasAttribute existing.FileAttributes fileAttributeReparsePoint)) s fun hFile s' =>
          hFile = some h ∧ OnDisk s' (v.create File ((FileInfo.dwFileAttributes &&&
            ~~~fileAttributeReadonly) ||| fileAttributeDirectory) .fileOpenIf).2 ∧ Same s s' := by
      unfold createTargetDirectory
      apply yields_bind_call working on (Volume.answer_createDirectory true _ opened)
      intro s₁ on₁ same₁
      rw [if_neg fun refused => absurd refused.1 (by simp [Reply.handle])]
      exact yields_pure ⟨rfl, on₁, same₁⟩
    apply yields_bind created
    intro _ s₁ facts
    obtain ⟨rfl, on₁, same₁⟩ := facts
    rw [opened]
    exact yields_pure ⟨rfl, on₁, same₁⟩
  · rw [if_neg directory, if_neg directory]
    apply yields_bind_call working on rfl
    intro s₁ on₁ same₁
    exact yields_pure ⟨rfl, on₁, same₁⟩

theorem yields_callIf (working : c.system = Volume.system fun _ => none) (on : OnDisk s v)
    (condition : Bool) (request : Call VolumeHandle) :
    Yields (callIf c condition request) s fun _ s' =>
      OnDisk s' (if condition then (v.answer request).2 else v) ∧ Same s s' := by
  unfold callIf
  cases condition with
  | false => exact yields_pure ⟨on, Same.refl s⟩
  | true =>
    apply yields_bind_call working on rfl
    intro s₁ on₁ same₁
    exact yields_pure ⟨on₁, same₁⟩

theorem yields_callIf_still (working : c.system = Volume.system fun _ => none) (on : OnDisk s v)
    (condition : Bool) {request : Call VolumeHandle} (still : (v.answer request).2 = v) :
    Yields (callIf c condition request) s fun _ s' => OnDisk s' v ∧ Same s s' := by
  apply (yields_callIf working on condition request).mono
  intro _ s' facts
  rwa [still, ite_self] at facts

theorem yields_prepareTarget (working : c.system = Volume.system fun _ => none) (on : OnDisk s v)
    (existing : FileBasicInformation) :
    Yields (prepareTarget c (some h) FileInfo ShortName false existing) s fun _ s' =>
      OnDisk s' v ∧ Same s s' := by
  unfold prepareTarget
  rw [if_pos ⟨rfl, rfl⟩]
  apply yields_bind (yields_callIf_still working on _ rfl)
  intro _ s₁ facts
  obtain ⟨on₁, same₁⟩ := facts
  apply yields_bind (yields_callIf_still working on₁ _ rfl)
  intro _ s₂ facts
  obtain ⟨on₂, same₂⟩ := facts
  apply (yields_callIf_still working on₂ _ rfl).mono
  intro _ s₃ facts
  obtain ⟨on₃, same₃⟩ := facts
  exact ⟨on₃, (same₁.trans same₂).trans same₃⟩

theorem yields_finishTarget (working : c.system = Volume.system fun _ => none) (on : OnDisk s v) :
    Yields (finishTarget c (some h) FileInfo false) s fun _ s' =>
      OnDisk s' (v.finished c.options h.id FileInfo) ∧ Same s s' := by
  unfold finishTarget
  rw [if_pos ⟨rfl, rfl⟩]
  apply yields_bind_call working on rfl
  intro s₁ on₁ same₁
  apply yields_bind (yields_callIf_still working on₁ _ rfl)
  intro _ s₂ facts
  obtain ⟨on₂, same₂⟩ := facts
  apply (yields_callIf working on₂ _ _).mono
  intro _ s₃ facts
  obtain ⟨on₃, same₃⟩ := facts
  exact ⟨on₃, (same₁.trans same₂).trans same₃⟩

/-- What is left to do when the streams of an object have been read. -/
theorem yields_closing (working : c.system = Volume.system fun _ => none) (hFile : Handle VolumeHandle)
    (bIncludeThis : Bool) {n : Nat} (ended : Ended c tail n s) (on : OnDisk s v) :
    Yields (do
      countRestored c hFile bIncludeThis
      closeOpened c hFile
      pure true) s fun result s' => result = true ∧ (∃ n, Ended c tail n s') ∧ OnDisk s' v := by
  have counted : Yields (countRestored c hFile bIncludeThis) s fun _ s' => OnDisk s' v ∧ Same s s' := by
    unfold countRestored
    split
    · exact yields_of_ok (countFile_run s) ⟨on, rfl, rfl, rfl⟩
    · exact yields_pure ⟨on, Same.refl s⟩
  apply yields_bind counted
  intro _ s₁ facts
  obtain ⟨on₁, same₁⟩ := facts
  have closed : Yields (closeOpened c hFile) s₁ fun _ s' => OnDisk s' v ∧ Same s₁ s' := by
    unfold closeOpened
    cases hFile with
    | none => exact yields_pure ⟨on₁, Same.refl s₁⟩
    | some h =>
      rw [if_pos (show (some h).isSome = true from rfl)]
      apply yields_bind_call working on₁ rfl
      intro s₂ on₂ same₂
      exact yields_pure ⟨on₂, same₂⟩
  apply yields_bind closed
  intro _ s₂ facts
  obtain ⟨on₂, same₂⟩ := facts
  exact yields_pure ⟨rfl, ⟨n, (same₁.trans same₂).ended ended⟩, on₂⟩

/-- The streams of an object that is not extracted are passed over. -/
theorem yields_passedOver (working : c.system = Volume.system fun _ => none)
    (quiet : ∀ pos, c.bCancel pos = false) (large : headerSize ≤ c.dwBufferSize)
    (boundary : Boundary tail) {streams : List Stream} (bIncludeThis : Bool)
    (existing : FileBasicInformation) (wf : ∀ stream ∈ streams, stream.WellFormed c.dwBufferSize)
    (at_ : Rest c s (streams.flatMap Stream.encode ++ tail)) (on : OnDisk s v) :
    Yields (do
      prepareTarget c none FileInfo ShortName true existing
      let r ← writeFileFromArchive c File none true
      if r.result then
        finishTarget c r.hFile FileInfo r.bSeekOnly
        countRestored c r.hFile bIncludeThis
        closeOpened c r.hFile
        pure true
      else pure false) s fun result s' => result = true ∧ (∃ n, Ended c tail n s') ∧ OnDisk s' v := by
  have enough : streams.length < c.fuel := by
    have length := length_streams streams
    have bound := at_.lt_fuel
    omega
  have none_ : (none : Handle VolumeHandle).isSome ≠ true := Bool.false_ne_true
  unfold prepareTarget
  rw [if_neg fun both => none_ both.1]
  apply yields_bind (yields_pure (Q := fun _ s' => s = s') rfl)
  intro _ _ same
  subst same
  have written : Yields (writeFileFromArchive c File none true) s fun r s' =>
      r = ⟨true, none, true⟩ ∧ (∃ n, Ended c tail n s') ∧ s'.disk = s.disk := by
    unfold writeFileFromArchive
    apply yields_bind (yields_readStreamHeader boundary at_)
    intro n s₁ facts
    obtain ⟨ready, disk₁⟩ := facts
    apply (yields_streamLoop_passes quiet large boundary File c.fuel none wf ready enough).mono
    intro r s₂ facts
    obtain ⟨result, ended, disk₂⟩ := facts
    exact ⟨result, ended, disk₂.trans disk₁⟩
  apply yields_bind written
  intro _ s₁ facts
  obtain ⟨rfl, ⟨n, ended⟩, disk₁⟩ := facts
  rw [if_pos rfl]
  unfold finishTarget
  rw [if_neg fun both => none_ both.2]
  apply yields_bind (yields_pure (Q := fun _ s' => s₁ = s') rfl)
  intro _ _ same
  subst same
  exact yields_closing working none bIncludeThis ended (on.same disk₁)

/-- The contents of an extracted object go to its target. -/
theorem yields_filled (working : c.system = Volume.system fun _ => none)
    (quiet : ∀ pos, c.bCancel pos = false) (extracts : ExtractsNames c) (boundary : Boundary tail)
    {object : Archived} (existing : FileBasicInformation) (wf : object.WellFormed c.dwBufferSize)
    (unnamed : object.Unnamed) (at_ : Rest c s (object.contents.list.flatMap Stream.encode ++ tail))
    (on : OnDisk s v) :
    Yields (do
      prepareTarget c (some h) object.info object.shortName false existing
      let r ← writeFileFromArchive c object.name (some h) false
      if r.result then
        finishTarget c r.hFile object.info r.bSeekOnly
        countRestored c r.hFile true
        closeOpened c r.hFile
        pure true
      else pure false) s fun result s' =>
        result = true ∧ (∃ n, Ended c tail n s') ∧ OnDisk s' (v.filled c.options h object) := by
  apply yields_bind (yields_prepareTarget working on existing)
  intro _ s₁ facts
  obtain ⟨on₁, same₁⟩ := facts
  have at₁ := same₁.rest at_
  unfold writeFileFromArchive Volume.filled
  cases contents : object.contents with
  | streams list =>
    rw [contents] at at₁
    change Rest c s₁ (list.flatMap Stream.encode ++ tail) at at₁
    have wf_list := wf.contents.list
    rw [contents] at wf_list
    have enough : list.length < c.fuel := by
      have length := length_streams list
      have bound := at₁.lt_fuel
      omega
    have written : Yields (do
        let dwBytesRead ← readStreamHeader c
        streamLoop c object.name c.fuel dwBytesRead (some h) false) s₁ fun r s' =>
          r = ⟨true, some h, false⟩ ∧ (∃ n, Ended c tail n s') ∧
            OnDisk s' (v.change h.id fun file => list.foldl (DiskFile.take v.now) file) := by
      apply yields_bind (yields_readStreamHeader boundary at₁)
      intro n s₂ facts
      obtain ⟨ready, disk₂⟩ := facts
      exact yields_streamLoop working quiet wf.large boundary object.name c.fuel wf_list
        (unnamed list contents) ready enough (on₁.same disk₂)
    apply yields_bind written
    intro _ s₂ facts
    obtain ⟨rfl, ⟨n, ended⟩, on₂⟩ := facts
    rw [if_pos rfl]
    apply yields_bind (yields_finishTarget working on₂)
    intro _ s₃ facts
    obtain ⟨on₃, same₃⟩ := facts
    exact yields_closing working (some h) true (same₃.ended ended) on₃
  | link LinkName =>
    rw [contents] at at₁
    have wf_link := wf.contents.list
    rw [contents] at wf_link
    have short := wf.contents
    rw [contents] at short
    have written : Yields (do
        let dwBytesRead ← readStreamHeader c
        streamLoop c object.name c.fuel dwBytesRead (some h) false) s₁ fun r s' =>
          r = ⟨true, none, false⟩ ∧ (∃ n, Ended c tail n s') ∧
            OnDisk s' (v.linked h LinkName object.name) := by
      apply yields_bind (yields_readStreamHeader boundary at₁)
      intro n s₂ facts
      obtain ⟨ready, disk₂⟩ := facts
      exact yields_streamLoop_link working quiet wf.large extracts.hardLinks boundary LinkName
        object.name _ (wf_link _ List.mem_cons_self) short.1 ready (on₁.same disk₂)
    apply yields_bind written
    intro _ s₂ facts
    obtain ⟨rfl, ⟨n, ended⟩, on₂⟩ := facts
    rw [if_pos rfl]
    unfold finishTarget
    rw [if_neg fun both => Bool.false_ne_true both.2]
    apply yields_bind (yields_pure (Q := fun _ s' => s₂ = s') rfl)
    intro _ _ same
    subst same
    exact yields_closing working none true ended on₂

end files

/-- The restore of an object reads it and does to the volume what `Volume.restored` says. -/
theorem yields_restoreFile (working : c.system = Volume.system fun _ => none)
    (quiet : ∀ pos, c.bCancel pos = false) (extracts : ExtractsNames c) (boundary : Boundary tail)
    {object : Archived} (wf : object.WellFormed c.dwBufferSize) (unnamed : object.Unnamed)
    (at_ : Rest c s (object.contents.list.flatMap Stream.encode ++ tail)) (on : OnDisk s v) :
    Yields (restoreFile c object.name object.info object.shortName) s fun result s' =>
      result = true ∧ (∃ n, Ended c tail n s') ∧ OnDisk s' (v.restored c object) := by
  have named : restoredName c.options object.name object.info object.shortName =
      (object.name, false) := by
    unfold restoredName
    rw [if_neg fun short => Bool.false_ne_true (extracts.longNames.symm.trans short.1)]
  have passes (existing : FileBasicInformation) :
      createTarget c object.name object.info false false existing = pure (none, true) := by
    unfold createTarget
    dsimp only
    rw [if_pos (.inr (.inl rfl))]
  unfold restoreFile probeIncluded Volume.restored
  rw [named]
  dsimp only
  by_cases included : c.included object.name object.info = true
  · rw [if_pos included, if_pos included]
    apply yields_bind (yields_probeExisting working on)
    intro probed s₁ facts
    obtain ⟨bIncludeThis, existing⟩ := probed
    obtain ⟨include_, on₁, same₁⟩ := facts
    change bIncludeThis = _ at include_
    rw [← include_]
    have at₁ := same₁.rest at_
    cases bIncludeThis with
    | false =>
      rw [passes, if_neg Bool.false_ne_true]
      apply yields_bind (yields_pure (Q := fun target s' => target = (none, true) ∧ s₁ = s') ⟨rfl, rfl⟩)
      intro _ _ facts
      obtain ⟨rfl, rfl⟩ := facts
      exact yields_passedOver working quiet wf.large boundary false existing wf.contents.list at₁ on₁
    | true =>
      rw [if_pos rfl]
      apply yields_bind (yields_createTarget working extracts on₁ existing)
      intro _ s₂ facts
      obtain ⟨rfl, on₂, same₂⟩ := facts
      have at₂ := same₂.rest at₁
      unfold Volume.extracted
      generalize Volume.createdTarget _ _ _ _ = created at on₂ ⊢
      obtain ⟨reply, v'⟩ := created
      cases reply with
      | opened h =>
        exact yields_filled working quiet extracts boundary existing wf unnamed at₂ on₂
      | _ =>
        exact yields_passedOver working quiet wf.large boundary true existing wf.contents.list at₂ on₂
  · rw [if_neg included, if_neg included]
    apply yields_bind (yields_pure
      (Q := fun probed s' => probed = (false, noInformation) ∧ s = s') ⟨rfl, rfl⟩)
    intro _ _ facts
    obtain ⟨rfl, rfl⟩ := facts
    rw [passes]
    apply yields_bind (yields_pure (Q := fun target s' => target = (none, true) ∧ s = s') ⟨rfl, rfl⟩)
    intro _ _ facts
    obtain ⟨rfl, rfl⟩ := facts
    exact yields_passedOver working quiet wf.large boundary false noInformation wf.contents.list at_ on

/-! ### The restore of an archive -/

theorem reading_still : Reading c fun (s : Session Volume) (_ : List (Event VolumeHandle)) s' =>
    s'.disk = s.disk ∧ remaining c s' ≤ remaining c s where
  composes := ⟨fun _ => ⟨rfl, Nat.le_refl _⟩, fun first second =>
    ⟨second.1.trans first.1, second.2.trans first.2⟩⟩
  forward within := within.2
  silent disk fewer := ⟨disk, fewer⟩
  rejected _ _ _ := ⟨rfl, Nat.le_refl _⟩
  fileHeader _ _ := ⟨rfl, Nat.le_refl _⟩

theorem yields_firstHeader {header : Win32StreamId} {more : List BYTE}
    (valid : validFileHeader header = true) (at_ : Rest c s (header.encode ++ more)) :
    Yields (readNextFileHeader c) s fun found s' =>
      found = true ∧ Ended c (header.encode ++ more) headerSize s' ∧ s'.disk = s.disk := by
  apply ((provided_readNextFileHeader valid at_).yields.along
    reading_still.along_readNextFileHeader).mono
  intro found s' facts
  obtain ⟨⟨_, _, found_, ended⟩, _, disk, _⟩ := facts
  exact ⟨found_, ended, disk⟩

theorem Ended.nothing_left {n : Nat} (ended : Ended c [] n s) :
    Rest c s [] ∧ Loaded s ⟨0, 0, 0, 0⟩ := by
  generalize empty : ([] : List BYTE) = tail at ended
  cases ended with
  | nothing at_ cleared => exact ⟨at_, cleared⟩
  | header valid loaded start at_ =>
    have lengths := congrArg List.length empty
    simp only [List.length_nil, List.length_append, Win32StreamId.length_encode, headerSize] at lengths
    omega

theorem yields_noHeader (at_ : Rest c s []) :
    Yields (readNextFileHeader c) s fun found s' => found = false ∧ s'.disk = s.disk := by
  have none : c.archive.readLoop headerSize s.pos headerSize = [] := by
    rw [c.archive.readLoop_eq _ _ _ (Nat.le_refl _), at_.drop, List.take_nil]
  unfold readNextFileHeader
  apply yields_bind_ok (readArchive_run c 0 headerSize s)
  rw [none, if_pos (by decide)]
  exact yields_pure ⟨rfl, rfl⟩

theorem yields_objects (working : c.system = Volume.system fun _ => none)
    (quiet : ∀ pos, c.bCancel pos = false) (extracts : ExtractsNames c) {objects : List Archived}
    (wf : ∀ object ∈ objects, object.WellFormed c.dwBufferSize)
    (unnamed : ∀ object ∈ objects, object.Unnamed) (fuel : Nat) {n : Nat}
    (ended : Ended c (objects.flatMap Archived.encode) n s) (on : OnDisk s v) :
    Yields (directoryTreeLoop c (objects.length + (fuel + 1))) s fun result s' =>
      result = true ∧ OnDisk s' (objects.foldl (Volume.restored c) v) := by
  induction objects generalizing s v n with
  | nil =>
    obtain ⟨at_, cleared⟩ := ended.nothing_left
    have refused : Yields (acceptFileHeader c) s fun found s' => found = false ∧ s'.disk = s.disk := by
      unfold acceptFileHeader
      apply yields_bind_ok (header_run s)
      rw [cleared.header, if_pos (by decide)]
      apply yields_bind_ok (noteRejected_run s)
      exact yields_noHeader at_
    rw [List.length_nil, Nat.zero_add]
    unfold directoryTreeLoop
    apply yields_bind refused
    intro _ s₁ facts
    obtain ⟨rfl, disk₁⟩ := facts
    rw [if_neg Bool.false_ne_true]
    exact yields_pure ⟨rfl, on.same disk₁⟩
  | cons object rest ih =>
    have wf₁ := wf object List.mem_cons_self
    have wf_rest : ∀ other ∈ rest, other.WellFormed c.dwBufferSize :=
      fun other mem => wf other (List.mem_cons_of_mem _ mem)
    have split : (object :: rest).flatMap Archived.encode =
        (fileHeader object.name object.shortName).encode ++ (object.fields ++
          (object.contents.encode ++ rest.flatMap Archived.encode)) := by
      simp [Archived.encode_eq]
    have boundary : Boundary (rest.flatMap Archived.encode) := by
      have boundary := boundary_objects (.inl rfl) wf_rest
      rwa [List.append_nil] at boundary
    obtain ⟨loaded, read, at_⟩ := ended.header_read split
    rw [List.length_cons, Nat.add_right_comm]
    unfold directoryTreeLoop
    apply yields_bind (provided_acceptFileHeader loaded wf₁.valid).yields
    intro _ _ facts
    obtain ⟨_, _, rfl, rfl⟩ := facts
    rw [if_pos rfl]
    obtain ⟨s₁, at₁, disk₁, run⟩ := restoreAccepted_eq wf₁.large wf₁ loaded at_
    rw [← object.contents.encode_list] at at₁
    apply yields_bind (yields_of_after run (yields_restoreFile working quiet extracts boundary wf₁
      (unnamed object List.mem_cons_self) at₁ (on.same disk₁)))
    intro _ s₂ facts
    obtain ⟨rfl, ⟨n₂, ended₂⟩, on₂⟩ := facts
    rw [if_pos rfl]
    exact ih wf_rest (fun other mem => unnamed other (List.mem_cons_of_mem _ mem)) ended₂ on₂

theorem yields_restoreDirectoryTree (working : c.system = Volume.system fun _ => none)
    (quiet : ∀ pos, c.bCancel pos = false) (extracts : ExtractsNames c) {objects : List Archived}
    (archive : c.archive.bytes = objects.flatMap Archived.encode)
    (wf : ∀ object ∈ objects, object.WellFormed c.dwBufferSize)
    (unnamed : ∀ object ∈ objects, object.Unnamed) (v : Volume) :
    Yields (restoreDirectoryTree c) (Session.start v) fun _ s' =>
      OnDisk s' (objects.foldl (Volume.restored c) v) := by
  have on : OnDisk (Session.start v) v := ⟨v.calls, rfl⟩
  have count := length_objects objects
  unfold restoreDirectoryTree
  cases objects with
  | nil =>
    apply yields_bind (yields_noHeader (rest_start archive v))
    intro _ s₁ facts
    obtain ⟨rfl, disk₁⟩ := facts
    rw [if_neg Bool.false_ne_true]
    exact yields_pure (on.same disk₁)
  | cons object rest =>
    have split : c.archive.bytes = (fileHeader object.name object.shortName).encode ++ (object.fields ++
        (object.contents.encode ++ rest.flatMap Archived.encode)) := by
      rw [archive]
      simp [Archived.encode_eq]
    have at_ := rest_start split v
    apply yields_bind (yields_firstHeader (wf object List.mem_cons_self).valid at_)
    intro _ s₁ facts
    obtain ⟨rfl, ended, disk₁⟩ := facts
    rw [← split, archive] at ended
    obtain ⟨fuel, enough⟩ : ∃ fuel, c.fuel = (object :: rest).length + (fuel + 1) :=
      ⟨c.fuel - (object :: rest).length - 1, by
        rw [← archive] at count
        simp only [Config.fuel]
        omega⟩
    rw [if_pos rfl, enough]
    apply (yields_objects working quiet extracts wf unnamed fuel ended (on.same disk₁)).mono
    intro _ s₂ facts
    exact facts.2

def Volume.empty : Volume where
  names _ := none
  files _ := newFile 0 0
  unused := 0
  now := 0
  calls := 0
  fresh _ _ absurd := by cases absurd

/-- A version of the file "a" with this time and this content. -/
def versionOf (ftLastWriteTime : LONGLONG) (data : List BYTE) : Archived where
  name := [0x61]
  info := { noFileInformation with ftLastWriteTime := ftLastWriteTime }
  shortName := []
  contents := .streams [⟨backupData, 0, [], data⟩]

def twoVersions : List Archived := [versionOf 5 [1], versionOf 3 [2]]

theorem versionOf_wellFormed (ftLastWriteTime : LONGLONG) {data : List BYTE}
    (short : data.length ≤ 65536) : (versionOf ftLastWriteTime data).WellFormed 65536 where
  named := List.cons_ne_nil _ _
  nameSize := by simp [versionOf]
  shortSize := by simp [versionOf]
  shortUnits := by simp [versionOf]
  fits := by simp [versionOf, encodeFileHeader, encodeShortName, headerSize, sizeofFileInformation]
  contents := by
    intro stream mem
    obtain rfl := List.mem_singleton.mp mem
    have invalid : backupData ≠ backupInvalid := by decide
    have sparse : backupData ≠ backupSparseBlock := by decide
    have link : backupData ≠ backupLink := by decide
    have twenty : headerSize = 20 := rfl
    refine ⟨invalid, ?_, ?_, fun absurd => (sparse absurd).elim, fun absurd => (link absurd).elim⟩
    · simp [twenty]
    · simp only [List.length_nil]
      omega

theorem versionOf_unnamed (ftLastWriteTime : LONGLONG) (data : List BYTE) :
    (versionOf ftLastWriteTime data).Unnamed := by
  intro list contents stream mem
  cases contents
  obtain rfl := List.mem_singleton.mp mem
  have link : backupData ≠ backupLink := by decide
  have alternate : backupData ≠ backupAlternateData := by decide
  have sparse : backupData ≠ backupSparseBlock := by decide
  exact ⟨link, alternate, sparse⟩

theorem twoVersions_eq {object : Archived} (mem : object ∈ twoVersions) :
    ∃ time data, object = versionOf time data ∧ data.length ≤ 65536 ∧ time ≠ 0 := by
  rcases List.mem_pair.mp mem with rfl | rfl
  · exact ⟨5, [1], rfl, by decide, by decide⟩
  · exact ⟨3, [2], rfl, by decide, by decide⟩

theorem twoVersions_wellFormed : ∀ object ∈ twoVersions, object.WellFormed 65536 := by
  intro object mem
  obtain ⟨time, data, rfl, short, -⟩ := twoVersions_eq mem
  exact versionOf_wellFormed time short

theorem twoVersions_unnamed : ∀ object ∈ twoVersions, object.Unnamed := by
  intro object mem
  obtain ⟨time, data, rfl, -⟩ := twoVersions_eq mem
  exact versionOf_unnamed time data

end StrArc
