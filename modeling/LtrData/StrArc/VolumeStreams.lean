import LtrData.StrArc.TreeFraming
import LtrData.StrArc.Volume
import Mathlib.Tactic.Convert

namespace StrArc

open Traced

/-! ### Calls on a volume on which no call fails -/

def Volume.counted (v : Volume) (n : Nat) : Volume := { v with calls := n }

theorem Volume.create_counted (v : Volume) (n : Nat) (Name : UnicodeString) (FileAttributes : DWORD)
    (disposition : CreateDisposition) :
    (v.counted n).create Name FileAttributes disposition =
      ((v.create Name FileAttributes disposition).1,
        (v.create Name FileAttributes disposition).2.counted n) := by
  unfold create counted
  dsimp only
  cases v.names Name with
  | none => rfl
  | some id => cases disposition <;> rfl

/-- The number of calls has no influence on what a call does. -/
theorem Volume.answer_counted (v : Volume) (n : Nat) (request : Call VolumeHandle) :
    (v.counted n).answer request = ((v.answer request).1, (v.answer request).2.counted n) := by
  cases request with
  | openFile site Name =>
    simp only [answer]
    rw [show (v.counted n).names Name = v.names Name from rfl]
    cases v.names Name <;> rfl
  | createDirectory Name delete FileAttributes reparse =>
    exact v.create_counted n Name (FileAttributes ||| fileAttributeDirectory) .fileOpenIf
  | createFile site Name FileAttributes disposition reparse =>
    exact v.create_counted n Name FileAttributes disposition
  | deleteFile hFile =>
    cases hFile with
    | none => rfl
    | some h =>
      simp only [answer]
      rw [show (v.counted n).names h.Name = v.names h.Name from rfl]
      by_cases own : v.names h.Name = some h.id
      · rw [if_pos own, if_pos own]
        rfl
      · rw [if_neg own, if_neg own]
  | createHardLink hFile Target =>
    cases hFile with
    | none => rfl
    | some h =>
      simp only [answer]
      by_cases known : h.id < v.unused
      · rw [dif_pos known, dif_pos (show h.id < (v.counted n).unused from known)]
        rfl
      · rw [dif_neg known, dif_neg (show ¬h.id < (v.counted n).unused from known)]
  | backupCopyFile source target => cases source <;> cases target <;> rfl
  | queryInformation hFile => cases hFile <;> rfl
  | setInformation hFile => cases hFile <;> rfl
  | deviceIoControl hFile => cases hFile <;> rfl
  | setShortFileName hFile => cases hFile <;> rfl
  | setFilePointer hFile => cases hFile <;> rfl
  | setEndOfFile hFile => cases hFile <;> rfl
  | backupWrite hFile => cases hFile <;> rfl
  | writeFile hFile => cases hFile <;> rfl
  | close hFile => cases hFile <;> rfl
  | getFileInformation hFile => cases hFile <;> rfl

section answers

variable (v : Volume) (h : VolumeHandle)

theorem Volume.answer_backupWrite (continued : Bool) (data : List BYTE) :
    v.answer (.backupWrite (some h) continued data) =
      (.success, v.change h.id (·.backupWrite v.now continued data)) := rfl

theorem Volume.answer_setInformation (info : FileBasicInformation) :
    v.answer (.setInformation (some h) info) = (.success, v.change h.id (·.setBasic info)) := rfl

/-- What a query says of a file. -/
def Volume.existing (v : Volume) (id : Nat) : FileBasicInformation :=
  { (v.files id).basic with
    FileAttributes := reportedAttributes (v.files id).basic.FileAttributes }

theorem Volume.answer_queryInformation :
    v.answer (.queryInformation (some h)) = (.information (v.existing h.id), v) := rfl

theorem Volume.answer_deleteFile : v.answer (.deleteFile (some h)) =
    if v.names h.Name = some h.id then (.success, v.remove h.Name)
    else (.failed errorFileNotFound, v) := rfl

theorem Volume.answer_openFile {Name : UnicodeString} {id : Nat} (site : OpenSite)
    (named : v.names Name = some id) : v.answer (.openFile site Name) = (.opened ⟨Name, id⟩, v) := by
  simp only [answer, named]

theorem Volume.answer_openFile_none {Name : UnicodeString} (site : OpenSite)
    (unnamed : v.names Name = none) :
    v.answer (.openFile site Name) = (.failed errorFileNotFound, v) := by
  simp only [answer, unnamed]

theorem Volume.answer_createHardLink (Target : UnicodeString) (known : h.id < v.unused) :
    v.answer (.createHardLink (some h) Target) = (.success, v.link Target h.id known) := by
  simp only [answer, dif_pos known]

end answers

/-- The session stands on this volume, however many calls have been made. -/
def OnDisk (s : Session Volume) (v : Volume) : Prop := ∃ n, s.disk = v.counted n

section calls

variable {c : Config Volume VolumeHandle} {s : Session Volume} {v : Volume}

theorem OnDisk.same {s' : Session Volume} (on : OnDisk s v) (same : s'.disk = s.disk) :
    OnDisk s' v := by
  obtain ⟨n, disk⟩ := on
  exact ⟨n, same.trans disk⟩

theorem yields_call (working : c.system = Volume.system fun _ => none) (on : OnDisk s v)
    (request : Call VolumeHandle) :
    Yields (call c request) s fun reply s' =>
      reply = (v.answer request).1 ∧ OnDisk s' (v.answer request).2 ∧ Same s s' := by
  obtain ⟨n, disk⟩ := on
  have answered : c.system request s.disk =
      ((v.answer request).1, (v.answer request).2.counted (n + 1)) := by
    rw [working, disk]
    exact v.answer_counted (n + 1) request
  refine yields_of_ok (call_run c request s) ⟨?_, ⟨n + 1, ?_⟩, rfl, rfl, rfl⟩
  · rw [answered]
  · show (c.system request s.disk).2 = _
    rw [answered]

theorem yields_bind_call {α : Type} {f : Reply VolumeHandle → Restore Volume VolumeHandle α}
    {Q : α → Session Volume → Prop} (working : c.system = Volume.system fun _ => none)
    (on : OnDisk s v) {request : Call VolumeHandle} {reply : Reply VolumeHandle} {v' : Volume}
    (answered : v.answer request = (reply, v'))
    (next : ∀ s', OnDisk s' v' → Same s s' → Yields (f reply) s' Q) :
    Yields (call c request >>= f) s Q := by
  apply yields_bind (yields_call working on request)
  intro reply' s' facts
  obtain ⟨rfl, on', same⟩ := facts
  rw [answered] at on' ⊢
  exact next s' on' same

theorem isSuccess_success : (Reply.success : Reply VolumeHandle).isSuccess = true := rfl

end calls

@[simp] theorem Volume.change_change (v : Volume) (id : Nat) (f g : DiskFile → DiskFile) :
    (v.change id f).change id g = v.change id fun file => g (f file) := by
  unfold change
  simp only [Function.update_self, Function.update_idem]

/-! ### What a stream makes of a file -/

/-- The bytes of a stream written to a file. Only those of a data stream become its content. -/
def DiskFile.stored (file : DiskFile) (now : LONGLONG) (isData : Bool) (bytes : List BYTE) :
    DiskFile :=
  if isData then { file.written now bytes with inData := true } else { file with inData := false }

theorem DiskFile.stored_more (file : DiskFile) (now : LONGLONG) (isData : Bool)
    (bytes more : List BYTE) :
    (file.stored now isData bytes).backupWrite now true more =
      file.stored now isData (bytes ++ more) := by
  cases isData with
  | false => rfl
  | true => simp [stored, backupWrite, written, BitVec.or_assoc]

def DiskFile.take (now : LONGLONG) (file : DiskFile) (stream : Stream) : DiskFile :=
  file.stored now (stream.dwStreamId = backupData) stream.data

variable {c : Config Volume VolumeHandle} {s : Session Volume} {v : Volume} {stream : Stream}

theorem DiskFile.backupWrite_first (wf : stream.WellFormed c.dwBufferSize) {k : Nat}
    (named : 2 * stream.name.length ≤ k) (file : DiskFile) (now : LONGLONG) :
    file.backupWrite now false (stream.header.encode ++ stream.body.take k) =
      file.stored now (stream.dwStreamId = backupData)
        (stream.data.take (k - 2 * stream.name.length)) := by
  have payload : (stream.header.encode ++ stream.body.take k).drop
      (headerSize + stream.header.nameSize) = stream.data.take (k - 2 * stream.name.length) := by
    rw [wf.nameSize, ← Win32StreamId.length_encode stream.header, List.drop_append,
      List.drop_of_length_le (by omega), Nat.add_sub_cancel_left, List.nil_append, Stream.body,
      List.take_append, List.take_of_length_le (by simpa using named), List.drop_append,
      length_wcharBytes, List.drop_of_length_le (by simp), Nat.sub_self, List.drop_zero,
      List.nil_append]
  unfold backupWrite stored
  rw [if_neg Bool.false_ne_true]
  dsimp only
  rw [Win32StreamId.decode_encode, payload]
  by_cases isData : stream.dwStreamId = backupData
  · rw [if_pos (show stream.header.dwStreamId = backupData from isData),
      if_pos (by simpa using isData)]
  · rw [if_neg (show ¬stream.header.dwStreamId = backupData from isData),
      if_neg (by simpa using isData)]

/-! ### Reading without a call -/

theorem yields_readBlock {α : Type} {f : Nat → Restore Volume VolumeHandle α}
    {Q : α → Session Volume → Prop} {xs rest : List BYTE} (at_ : Rest c s (xs ++ rest))
    (next : ∀ s', Rest c s' (xs.drop c.dwBufferSize ++ rest) →
      s'.Buffer = s.Buffer.write 0 (xs.take c.dwBufferSize) → s'.disk = s.disk →
      Yields (f (xs.take c.dwBufferSize).length) s' Q) :
    Yields (readArchive c 0 (if (xs.length : Int) > c.dwBufferSize then c.dwBufferSize
      else lowPart xs.length) >>= f) s Q := by
  rw [← List.take_append_drop c.dwBufferSize xs, List.append_assoc] at at_
  rw [take_block]
  have data : c.archive.readLoop (xs.take c.dwBufferSize).length s.pos
      (xs.take c.dwBufferSize).length = xs.take c.dwBufferSize := by
    rw [c.archive.readLoop_eq _ _ _ (Nat.le_refl _), at_.drop, List.take_left]
  have total := at_.length
  rw [List.length_append] at total
  apply yields_bind_ok (readArchive_run c 0 _ s)
  rw [data]
  refine next _ ⟨?_, ?_⟩ ?_ rfl
  · simp only [Session.afterRead, data]
    omega
  · simp only [Session.afterRead, data]
    rw [← List.drop_drop, at_.drop, List.drop_left]
  · simp only [Session.afterRead, data]

/-- Runs that make no call. -/
def Still {α : Type} (x : Restore Volume VolumeHandle α) (s : Session Volume) : Prop :=
  Along (fun _ => True) (fun s _ s' => s'.disk = s.disk) (fun _ => True) x s fun _ _ _ => True

theorem still_composes :
    Composes fun (s : Session Volume) (_ : List (Event VolumeHandle)) (s' : Session Volume) =>
      s'.disk = s.disk :=
  ⟨fun _ => rfl, fun first second => second.trans first⟩

theorem still_bind {α β : Type} {x : Restore Volume VolumeHandle α}
    {f : α → Restore Volume VolumeHandle β} (first : Still x s) (next : ∀ a s', Still (f a) s') :
    Still (x >>= f) s := by
  have run : Along (fun _ => True) (fun s _ s' => s'.disk = s.disk) (fun _ => True) (x >>= f) s
      fun _ _ _ => True := along_bind still_composes first fun _ a s' _ _ => next a s'
  exact run

theorem still_pure {α : Type} {a : α} : Still (pure a : Restore Volume VolumeHandle α) s :=
  along_pure still_composes trivial

theorem still_of_ok {α : Type} {x : Restore Volume VolumeHandle α} {s' : Session Volume}
    {t : List (Event VolumeHandle)} {a : α} (run : x s = .ok t a s') (disk : s'.disk = s.disk) :
    Still x s := along_of_ok run fun _ => ⟨disk, trivial⟩

theorem still_locate (position : Position) (dwBytesRead offset length : Nat) :
    Still (locate c position dwBytesRead offset length) s := by
  by_cases inside : offset + length ≤ c.dwBufferSize
  · exact still_of_ok (by simp only [locate, inside, if_true]; rfl) rfl
  · exact along_of_error (by simp only [locate, inside, if_false]; rfl) fun _ => ⟨rfl, trivial⟩

theorem still_readStreamHeader : Still (readStreamHeader c) s := by
  unfold readStreamHeader
  apply still_bind (still_of_ok (readArchive_run c 0 headerSize s) rfl)
  intro n s'
  split
  · exact still_bind (still_of_ok (clearHeader_run s') rfl) fun _ _ => still_pure
  · exact still_pure

theorem still_fillEntireBuffer (dwBytesRead : Nat) : Still (fillEntireBuffer c dwBytesRead) s := by
  have first : ∀ s, Still (fillFirstBlock c dwBytesRead) s := by
    intro s
    unfold fillFirstBlock
    apply still_bind (still_of_ok (header_run s) rfl)
    intro h s₁
    dsimp only
    split
    · generalize (if quadPart _ > _ then _ else lowPart _) = size
      split
      · apply still_bind (still_of_ok (readArchive_run c _ _ s₁) rfl)
        intro n s₂
        split
        · exact along_raise still_composes trivial
        · exact still_pure
      · exact still_pure
    · exact still_pure
  have name : ∀ n s, Still (showName c n) s := by
    intro n s
    unfold showName
    apply still_bind (still_of_ok (header_run s) rfl)
    intro h s₁
    split
    · exact still_locate _ _ _ _
    · exact still_pure
  have data : ∀ n s, Still (showData c n) s := by
    intro n s
    unfold showData
    apply still_bind (still_of_ok (header_run s) rfl)
    intro h s₁
    split
    · exact still_locate _ _ _ _
    · split
      · exact still_locate _ _ _ _
      · exact still_pure
  unfold fillEntireBuffer
  apply still_bind (first s)
  intro filled s₁
  refine still_bind ?_ fun _ _ => still_pure
  unfold showHeader
  split
  · exact still_bind (name _ _) fun _ _ => data _ _
  · exact still_pure

theorem yields_still {α : Type} {x : Restore Volume VolumeHandle α}
    {Q : α → Session Volume → Prop} (h : Yields x s Q) (still : Still x s) :
    Yields x s fun a s' => Q a s' ∧ s'.disk = s.disk := by
  apply (h.along still).mono
  intro a s' facts
  obtain ⟨value, _, disk⟩ := facts
  exact ⟨value, disk⟩

theorem yields_readStreamHeader {streams : List Stream} {tail : List BYTE}
    (boundary : Boundary tail) (at_ : Rest c s (streams.flatMap Stream.encode ++ tail)) :
    Yields (readStreamHeader c) s fun n s' => Ready c tail streams n s' ∧ s'.disk = s.disk := by
  apply (yields_still (provided_readStreamHeader boundary at_).yields still_readStreamHeader).mono
  intro n s' facts
  obtain ⟨⟨_, _, ready⟩, disk⟩ := facts
  exact ⟨ready, disk⟩

theorem yields_fillEntireBuffer (large : headerSize ≤ c.dwBufferSize)
    (wf : stream.WellFormed c.dwBufferSize) {rest : List BYTE} (loaded : Loaded s stream.header)
    (at_ : Rest c s (stream.body ++ rest)) :
    Yields (fillEntireBuffer c headerSize) s fun filled s' => ∃ k, Filled c s' stream k rest ∧
      filled = (headerSize + k, ((stream.body.drop k).length : Int)) ∧ s'.disk = s.disk := by
  apply (yields_still (provided_fillEntireBuffer large wf loaded at_).yields
    (still_fillEntireBuffer headerSize)).mono
  intro filled s' facts
  obtain ⟨⟨_, k, _, held, same⟩, disk⟩ := facts
  exact ⟨k, held, same, disk⟩

/-! ### The streams of a file -/

section streams

variable {h : VolumeHandle} {tail rest : List BYTE}

theorem yields_dataStreamLoop (working : c.system = Volume.system fun _ => none)
    (quiet : ∀ pos, c.bCancel pos = false) (large : headerSize ≤ c.dwBufferSize) (isData : Bool)
    (fuel : Nat) {xs bytes : List BYTE} (at_ : Rest c s (xs ++ rest)) (enough : xs.length < fuel)
    (on : OnDisk s (v.change h.id (·.stored v.now isData bytes))) :
    Yields (dataStreamLoop c (some h) false fuel xs.length) s fun r s' => Rest c s' rest ∧
      r = ⟨true, some h, false⟩ ∧ OnDisk s' (v.change h.id (·.stored v.now isData (bytes ++ xs))) := by
  have twenty : headerSize = 20 := rfl
  induction fuel generalizing s xs bytes with
  | zero => omega
  | succ fuel ih =>
    unfold dataStreamLoop
    split
    · apply yields_bind_ok (cancelled_run c s)
      rw [quiet, if_neg Bool.false_ne_true]
      apply yields_readBlock at_
      intro s₁ at₁ buffer disk₁
      have taken := List.length_take (i := c.dwBufferSize) (l := xs)
      have left := List.length_drop (i := c.dwBufferSize) (l := xs)
      rw [if_neg (by omega), left_block, if_neg Bool.false_ne_true]
      apply yields_bind_ok (bufferAt_run 0 _ s₁)
      rw [buffer, Cells.read_write_same]
      apply yields_bind_call working (on.same disk₁) (Volume.answer_backupWrite _ h _ _)
      intro s₂ on₂ same
      rw [Volume.change_change, show (v.change h.id _).now = v.now from rfl] at on₂
      simp only [DiskFile.stored_more] at on₂
      rw [if_pos isSuccess_success]
      apply (ih (same.rest at₁) (by omega) on₂).mono
      intro r s' facts
      obtain ⟨at', result, on'⟩ := facts
      rw [List.append_assoc, List.take_append_drop] at on'
      exact ⟨at', result, on'⟩
    · have empty : xs = [] := by
        apply List.eq_nil_of_length_eq_zero
        omega
      subst empty
      rw [List.append_nil]
      exact yields_pure ⟨at_, rfl, on⟩

/-- What is only passed over is read and makes no call. -/
theorem yields_dataStreamLoop_passes (quiet : ∀ pos, c.bCancel pos = false)
    (large : headerSize ≤ c.dwBufferSize) (hFile : Handle VolumeHandle) (fuel : Nat)
    {xs : List BYTE} (at_ : Rest c s (xs ++ rest)) (enough : xs.length < fuel) :
    Yields (dataStreamLoop c hFile true fuel xs.length) s fun r s' => Rest c s' rest ∧
      r = ⟨true, hFile, true⟩ ∧ s'.disk = s.disk := by
  have twenty : headerSize = 20 := rfl
  induction fuel generalizing s xs with
  | zero => omega
  | succ fuel ih =>
    unfold dataStreamLoop
    split
    · apply yields_bind_ok (cancelled_run c s)
      rw [quiet, if_neg Bool.false_ne_true]
      apply yields_readBlock at_
      intro s₁ at₁ buffer disk₁
      have taken := List.length_take (i := c.dwBufferSize) (l := xs)
      have left := List.length_drop (i := c.dwBufferSize) (l := xs)
      rw [if_neg (by omega), left_block, if_pos rfl]
      apply (ih at₁ (by omega)).mono
      intro r s' facts
      exact ⟨facts.1, facts.2.1, facts.2.2.trans disk₁⟩
    · have empty : xs = [] := by
        apply List.eq_nil_of_length_eq_zero
        omega
      subst empty
      exact yields_pure ⟨at_, rfl, rfl⟩

/-- Streams that go through the one handle of their file. -/
def Stream.Unnamed (stream : Stream) : Prop :=
  stream.dwStreamId ≠ backupLink ∧ stream.dwStreamId ≠ backupAlternateData ∧
    stream.dwStreamId ≠ backupSparseBlock

theorem yields_writeFileDataStreamFromArchive (working : c.system = Volume.system fun _ => none)
    (quiet : ∀ pos, c.bCancel pos = false) (large : headerSize ≤ c.dwBufferSize)
    (wf : stream.WellFormed c.dwBufferSize) (unnamed : stream.Unnamed) {k : Nat}
    (filled : Filled c s stream k rest) (on : OnDisk s v) :
    Yields (writeFileDataStreamFromArchive c (some h) (headerSize + k) (stream.body.drop k).length
      false) s fun r s' => Rest c s' rest ∧ r = ⟨true, some h, false⟩ ∧
        OnDisk s' (v.change h.id (·.take v.now stream)) := by
  have seek : seekSparseBlock c (some h) (headerSize + k) false s = .ok [] false s := by
    unfold seekSparseBlock
    rw [bind_eq_of_ok (header_run s), filled.loaded.header,
      if_neg fun sparse => unnamed.2.2 sparse.2.1]
    rfl
  have payload := filled.payload wf
  unfold writeFileDataStreamFromArchive
  apply yields_bind_ok seek
  rw [if_neg Bool.false_ne_true]
  apply yields_bind_ok (bufferAt_run 0 _ s)
  rw [filled.buffer]
  apply yields_bind_call working on (v.answer_backupWrite h _ _)
  intro s₁ on₁ same
  simp only [DiskFile.backupWrite_first wf (filled.name_fits wf)] at on₁
  rw [if_pos isSuccess_success]
  have at₁ := same.rest filled.rest
  apply (yields_dataStreamLoop working quiet large _ c.fuel at₁ at₁.lt_fuel on₁).mono
  intro r s' facts
  obtain ⟨at', result, on'⟩ := facts
  rw [filled.left wf, List.take_append_drop] at on'
  exact ⟨at', result, on'⟩

theorem yields_writeFileDataStreamFromArchive_passes (quiet : ∀ pos, c.bCancel pos = false)
    (large : headerSize ≤ c.dwBufferSize) (hFile : Handle VolumeHandle) {k : Nat}
    (filled : Filled c s stream k rest) :
    Yields (writeFileDataStreamFromArchive c hFile (headerSize + k) (stream.body.drop k).length
      true) s fun r s' => Rest c s' rest ∧ r = ⟨true, hFile, true⟩ ∧ s'.disk = s.disk := by
  have seek : seekSparseBlock c hFile (headerSize + k) true s = .ok [] true s := by
    unfold seekSparseBlock
    rw [bind_eq_of_ok (header_run s), if_neg fun sparse => by cases sparse.1]
    rfl
  unfold writeFileDataStreamFromArchive
  apply yields_bind_ok seek
  rw [if_pos rfl]
  exact yields_dataStreamLoop_passes quiet large hFile c.fuel filled.rest filled.rest.lt_fuel

theorem yields_streamLoop_ended (quiet : ∀ pos, c.bCancel pos = false) (File : UnicodeString)
    (fuel : Nat) {dwBytesRead : Nat} (hFile : Handle VolumeHandle) (bSeekOnly : Bool)
    (ended : Ended c tail dwBytesRead s) :
    Yields (streamLoop c File (fuel + 1) dwBytesRead hFile bSeekOnly) s fun r s' =>
      r = ⟨true, hFile, bSeekOnly⟩ ∧ s' = s := by
  unfold streamLoop
  apply yields_bind_ok (cancelled_run c s)
  rw [quiet, if_neg Bool.false_ne_true]
  cases ended with
  | nothing at_ cleared =>
    rw [if_pos rfl]
    exact yields_pure ⟨rfl, rfl⟩
  | header valid loaded start at_ =>
    rw [if_neg (by decide), if_neg (Nat.lt_irrefl _)]
    apply yields_bind_ok (header_run s)
    rw [loaded.header, if_pos (isNewFileHeader_of_valid valid)]
    exact yields_pure ⟨rfl, rfl⟩

/-- The round of the stream loop that reads the stream at hand. -/
theorem yields_streamLoop_round {Q : StreamResult VolumeHandle → Session Volume → Prop}
    (quiet : ∀ pos, c.bCancel pos = false) (large : headerSize ≤ c.dwBufferSize)
    (File : UnicodeString) (fuel : Nat) (hFile : Handle VolumeHandle) (bSeekOnly : Bool)
    (wf : stream.WellFormed c.dwBufferSize) (loaded : Loaded s stream.header)
    (at_ : Rest c s (stream.body ++ rest))
    (next : ∀ k s', Filled c s' stream k rest → s'.disk = s.disk →
      Yields (if stream.dwStreamId = backupLink ∧ bSeekOnly = false then do
          let hFile ← writeFileHardLinkFromArchive c hFile (headerSize + k) File bSeekOnly
          let dwBytesRead ← readStreamHeader c
          streamLoop c File fuel dwBytesRead hFile bSeekOnly
        else if bSeekOnly = false ∧ stream.dwStreamId = backupAlternateData then do
          let more ← writeFileAlternateStreamsFromArchive c (headerSize + k)
            (stream.body.drop k).length File bSeekOnly
          streamLoop c File fuel (if more then headerSize else 0) hFile bSeekOnly
        else do
          let r ← writeFileDataStreamFromArchive c hFile (headerSize + k)
            (stream.body.drop k).length bSeekOnly
          let dwBytesRead ← readStreamHeader c
          if r.result then streamLoop c File fuel dwBytesRead r.hFile r.bSeekOnly
          else pure r) s' Q) :
    Yields (streamLoop c File (fuel + 1) headerSize hFile bSeekOnly) s Q := by
  unfold streamLoop
  apply yields_bind_ok (cancelled_run c s)
  rw [quiet, if_neg Bool.false_ne_true, if_neg (by decide), if_neg (Nat.lt_irrefl _)]
  apply yields_bind_ok (header_run s)
  rw [loaded.header, wf.continues, if_neg Bool.false_ne_true]
  apply yields_bind (yields_fillEntireBuffer large wf loaded at_)
  intro _ s₁ facts
  obtain ⟨k, filled, rfl, disk₁⟩ := facts
  apply yields_bind_ok (header_run s₁)
  have id : stream.header.dwStreamId = stream.dwStreamId := rfl
  rw [filled.loaded.header, id]
  convert next k s₁ filled disk₁ using 2

theorem Volume.change_id (v : Volume) (id : Nat) : v.change id (fun file => file) = v := by
  unfold change
  rw [Function.update_eq_self]

theorem yields_streamLoop (working : c.system = Volume.system fun _ => none)
    (quiet : ∀ pos, c.bCancel pos = false) (large : headerSize ≤ c.dwBufferSize)
    (boundary : Boundary tail) (File : UnicodeString) (fuel : Nat) {streams : List Stream}
    {dwBytesRead : Nat} (wf : ∀ stream ∈ streams, stream.WellFormed c.dwBufferSize)
    (unnamed : ∀ stream ∈ streams, stream.Unnamed) (ready : Ready c tail streams dwBytesRead s)
    (enough : streams.length < fuel) (on : OnDisk s v) :
    Yields (streamLoop c File fuel dwBytesRead (some h) false) s fun r s' =>
      r = ⟨true, some h, false⟩ ∧ (∃ n, Ended c tail n s') ∧
        OnDisk s' (v.change h.id fun file => streams.foldl (DiskFile.take v.now) file) := by
  induction fuel generalizing s v streams dwBytesRead with
  | zero => omega
  | succ fuel ih =>
    cases ready with
    | ended ended =>
      apply (yields_streamLoop_ended quiet File fuel (some h) false ended).mono
      intro r _ facts
      obtain ⟨result, rfl⟩ := facts
      refine ⟨result, ⟨_, ended⟩, ?_⟩
      simp only [List.foldl_nil, Volume.change_id]
      exact on
    | @stream _ stream rest loaded at_ =>
      have wf₁ := wf stream List.mem_cons_self
      have unnamed₁ := unnamed stream List.mem_cons_self
      apply yields_streamLoop_round quiet large File fuel (some h) false wf₁ loaded at_
      intro k s₁ filled disk₁
      rw [if_neg fun link => unnamed₁.1 link.1, if_neg fun alternate => unnamed₁.2.1 alternate.2]
      apply yields_bind (yields_writeFileDataStreamFromArchive working quiet large wf₁ unnamed₁
        filled (on.same disk₁))
      intro r s₂ facts
      obtain ⟨at₂, rfl, on₂⟩ := facts
      apply yields_bind (yields_readStreamHeader boundary at₂)
      intro n s₃ facts
      obtain ⟨ready₃, disk₃⟩ := facts
      rw [if_pos rfl]
      apply (ih (fun other mem => wf other (List.mem_cons_of_mem _ mem))
        (fun other mem => unnamed other (List.mem_cons_of_mem _ mem)) ready₃ (by simpa using enough)
        (on₂.same disk₃)).mono
      intro r s₄ facts
      obtain ⟨result, ended, on₄⟩ := facts
      rw [Volume.change_change] at on₄
      exact ⟨result, ended, on₄⟩

theorem yields_streamLoop_passes (quiet : ∀ pos, c.bCancel pos = false)
    (large : headerSize ≤ c.dwBufferSize) (boundary : Boundary tail) (File : UnicodeString)
    (fuel : Nat) (hFile : Handle VolumeHandle) {streams : List Stream} {dwBytesRead : Nat}
    (wf : ∀ stream ∈ streams, stream.WellFormed c.dwBufferSize)
    (ready : Ready c tail streams dwBytesRead s) (enough : streams.length < fuel) :
    Yields (streamLoop c File fuel dwBytesRead hFile true) s fun r s' =>
      r = ⟨true, hFile, true⟩ ∧ (∃ n, Ended c tail n s') ∧ s'.disk = s.disk := by
  induction fuel generalizing s streams dwBytesRead with
  | zero => omega
  | succ fuel ih =>
    cases ready with
    | ended ended =>
      apply (yields_streamLoop_ended quiet File fuel hFile true ended).mono
      intro r _ facts
      obtain ⟨result, rfl⟩ := facts
      exact ⟨result, ⟨_, ended⟩, rfl⟩
    | @stream _ stream rest loaded at_ =>
      have wf₁ := wf stream List.mem_cons_self
      apply yields_streamLoop_round quiet large File fuel hFile true wf₁ loaded at_
      intro k s₁ filled disk₁
      have seeks : ¬true = false := Bool.noConfusion
      rw [if_neg fun link => seeks link.2, if_neg fun alternate => seeks alternate.1]
      apply yields_bind (yields_writeFileDataStreamFromArchive_passes quiet large hFile filled)
      intro r s₂ facts
      obtain ⟨at₂, rfl, disk₂⟩ := facts
      apply yields_bind (yields_readStreamHeader boundary at₂)
      intro n s₃ facts
      obtain ⟨ready₃, disk₃⟩ := facts
      rw [if_pos rfl]
      apply (ih (fun other mem => wf other (List.mem_cons_of_mem _ mem)) ready₃
        (by simpa using enough)).mono
      intro r s₄ facts
      obtain ⟨result, ended, disk₄⟩ := facts
      exact ⟨result, ended, disk₄.trans (disk₃.trans (disk₂.trans disk₁))⟩

/-! ### Hard links -/

/-- The link that takes the place of a target that has been created under its name. -/
def Volume.linked (v : Volume) (h : VolumeHandle) (LinkName Target : UnicodeString) : Volume :=
  let v := if v.names h.Name = some h.id then v.remove h.Name else v
  match named : v.names LinkName with
  | some id => v.link Target id (v.fresh LinkName id named)
  | none => v

theorem Volume.linked_some {v v' : Volume} {h : VolumeHandle} {LinkName Target : UnicodeString}
    {id : Nat} (removed : (if v.names h.Name = some h.id then v.remove h.Name else v) = v')
    (named : v'.names LinkName = some id) :
    v.linked h LinkName Target = v'.link Target id (v'.fresh LinkName id named) := by
  subst removed
  unfold linked
  dsimp only
  split
  · next other =>
    rw [named] at other
    cases other
    rfl
  · next none =>
    rw [named] at none
    cases none

theorem Volume.linked_none {v v' : Volume} {h : VolumeHandle} {LinkName Target : UnicodeString}
    (removed : (if v.names h.Name = some h.id then v.remove h.Name else v) = v')
    (unnamed : v'.names LinkName = none) : v.linked h LinkName Target = v' := by
  subst removed
  unfold linked
  dsimp only
  split
  · next some =>
    rw [unnamed] at some
    cases some
  · rfl

theorem yields_linkTarget (working : c.system = Volume.system fun _ => none)
    (hardLinks : c.options.bHardLinkSupport = true) (LinkName Target : UnicodeString)
    (on : OnDisk s v) :
    Yields (linkTarget c (some h) LinkName Target) s fun hFile s' =>
      hFile = none ∧ OnDisk s' (v.linked h LinkName Target) ∧ Same s s' := by
  obtain ⟨v', removed⟩ : ∃ v', (if v.names h.Name = some h.id then v.remove h.Name else v) = v' :=
    ⟨_, rfl⟩
  unfold linkTarget
  rw [if_pos hardLinks]
  have remove : Yields (removeTemporary c (some h)) s fun _ s' => OnDisk s' v' ∧ Same s s' := by
    unfold removeTemporary
    apply yields_bind (yields_call working on _)
    intro reply s₁ facts
    obtain ⟨-, on₁, same₁⟩ := facts
    rw [Volume.answer_deleteFile] at on₁
    have deleted : OnDisk s₁ v' := by
      rw [← removed]
      split
      · next own =>
        rw [if_pos own] at on₁
        exact on₁
      · next other =>
        rw [if_neg other] at on₁
        exact on₁
    apply yields_bind_call working deleted rfl
    intro s₂ on₂ same₂
    exact yields_pure ⟨on₂, same₁.trans same₂⟩
  apply yields_bind remove
  intro _ s₁ facts
  obtain ⟨on₁, same₁⟩ := facts
  cases named : v'.names LinkName with
  | none =>
    rw [Volume.linked_none removed named]
    apply yields_bind_call working on₁ (v'.answer_openFile_none .linkSource named)
    intro s₂ on₂ same₂
    exact yields_pure ⟨rfl, on₂, same₁.trans same₂⟩
  | some id =>
    rw [Volume.linked_some removed named]
    apply yields_bind_call working on₁ (v'.answer_openFile .linkSource named)
    intro s₂ on₂ same₂
    apply yields_bind_call working on₂
      (v'.answer_createHardLink ⟨LinkName, id⟩ Target (v'.fresh LinkName id named))
    intro s₃ on₃ same₃
    apply yields_bind_call working on₃ rfl
    intro s₄ on₄ same₄
    rw [if_pos isSuccess_success]
    apply yields_bind_ok (countFile_run s₄)
    have same := ((same₁.trans same₂).trans same₃).trans same₄
    exact yields_pure ⟨rfl, on₄, same.pos, same.headerPos, same.buffer⟩

end streams

end StrArc
