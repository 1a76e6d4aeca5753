import LtrData.StrArc.Framing

namespace StrArc

open Traced

variable {σ H : Type} [DecidableEq H] {c : Config σ H} {s : Session σ} {kept : Event H → Prop}

theorem provided_dataStreamLoop (quiet : ∀ pos, c.bCancel pos = false)
    (large : headerSize ≤ c.dwBufferSize) (hFile : Handle H) (bSeekOnly : Bool)
    (step : bSeekOnly = false → InStep kept) (fuel : Nat) {xs rest : List BYTE}
    (at_ : Rest c s (xs ++ rest)) (enough : xs.length < fuel) :
    Provided kept LinkWhole (dataStreamLoop c hFile bSeekOnly fuel xs.length) s fun t r s' =>
      Rest c s' rest ∧ r = ⟨true, hFile, bSeekOnly⟩ ∧
        (bSeekOnly = false → ∀ (p : Delivered H) Name bytes, p.hFile = hFile →
          (p.add (.stream Name bytes)).run t = p.add (.stream Name (bytes ++ xs))) := by
  have twenty : headerSize = 20 := rfl
  induction fuel generalizing s xs with
  | zero => omega
  | succ fuel ih =>
    unfold dataStreamLoop
    split
    · apply provided_bind_ok (cancelled_run c s)
      intro _
      rw [quiet, if_neg Bool.false_ne_true]
      apply provided_readBlock at_
      intro s₁ at₁ buffer
      have taken := List.length_take (i := c.dwBufferSize) (l := xs)
      have left := List.length_drop (i := c.dwBufferSize) (l := xs)
      rw [if_neg (by omega), left_block]
      cases bSeekOnly with
      | true =>
        rw [if_pos rfl]
        refine (ih at₁ (by omega)).mono fun t r s' h => ⟨h.1, h.2.1, fun seek => ?_⟩
        cases seek
      | false =>
        rw [if_neg Bool.false_ne_true]
        apply provided_bind_ok (bufferAt_run 0 _ s₁)
        intro _
        rw [buffer, Cells.read_write_same]
        apply provided_bind (provided_call _)
        intro _ reply s₂ facts
        rcases facts with ⟨rfl, held, same⟩
        rw [if_pos ((step rfl).continued _ _ _ held)]
        refine (ih (same.rest at₁) (by omega)).mono fun t r s' h =>
          ⟨h.1, h.2.1, fun seek p Name bytes opened => ?_⟩
        have rest := h.2.2 seek p Name (bytes ++ xs.take c.dwBufferSize) opened
        simp only [List.append_assoc, List.take_append_drop] at rest
        simp [Delivered.step, opened, Delivery.extend, rest]
    · have empty : xs = [] := by
        apply List.eq_nil_of_length_eq_zero
        omega
      subst empty
      exact provided_pure ⟨at_, rfl, fun _ p Name bytes _ => by simp⟩

theorem provided_seekSparseBlock (hFile : Handle H) (bSeekOnly : Bool)
    (step : bSeekOnly = false → InStep kept) {stream : Stream} {k : Nat} {rest : List BYTE}
    (wf : stream.WellFormed c.dwBufferSize) (filled : Filled c s stream k rest) :
    Provided kept LinkWhole (seekSparseBlock c hFile (headerSize + k) bSeekOnly) s fun t seek s' =>
      Silent t ∧ Same s s' ∧ (bSeekOnly = true → seek = true) ∧
        (seek = true → bSeekOnly = true ∨ Passes kept) ∧
        ((∀ e, kept e → Succeeded e) → seek = bSeekOnly) := by
  unfold seekSparseBlock
  apply provided_bind_ok (header_run s)
  intro _
  rw [filled.loaded.header, wf.nameSize]
  split
  · next sparse =>
    obtain ⟨rfl, id, -⟩ := sparse
    apply provided_bind (provided_locate .startPosition (wf.sparse id) fun absurd => by cases absurd)
    intro t _ _ facts
    rcases facts with ⟨silent, rfl⟩
    apply provided_bind_ok (bufferAt_run _ _ _)
    intro _
    apply provided_bind (provided_call _)
    intro _ sought s₁ facts
    rcases facts with ⟨rfl, heldSought, same⟩
    apply provided_bind (provided_call _)
    intro _ cut s₂ facts
    rcases facts with ⟨rfl, heldCut, same'⟩
    refine provided_pure ⟨?_, same.trans same', fun seek => (by cases seek), ?_, ?_⟩
    · intro p
      simp [silent p, Delivered.step]
    · intro failed
      right
      rcases (Bool.or_eq_true _ _).mp failed with one | one
      · apply (step rfl).passes_of_failed heldSought
        simpa [Succeeded] using one
      · apply (step rfl).passes_of_failed heldCut
        simpa [Succeeded] using one
    · intro all
      have first : sought.isSuccess = true := all _ heldSought
      have second : cut.isSuccess = true := all _ heldCut
      rw [first, second]
      rfl
  · exact provided_pure ⟨silent_nil, Same.refl s, id, fun seek => .inl seek, fun _ => rfl⟩

/-- A data stream is consumed as a whole whatever fails, and delivered as a whole if nothing does. -/
theorem provided_writeFileDataStreamFromArchive (quiet : ∀ pos, c.bCancel pos = false)
    (large : headerSize ≤ c.dwBufferSize) (hFile : Handle H) (bSeekOnly : Bool)
    (step : bSeekOnly = false → InStep kept) {stream : Stream} {k : Nat} {rest : List BYTE}
    (wf : stream.WellFormed c.dwBufferSize) (filled : Filled c s stream k rest) :
    Provided kept LinkWhole (writeFileDataStreamFromArchive c hFile (headerSize + k)
      (stream.body.drop k).length bSeekOnly) s fun t r s' =>
        Rest c s' rest ∧ r.result = true ∧ (bSeekOnly = true → r.bSeekOnly = true) ∧
          (r.bSeekOnly = true → bSeekOnly = true ∨ Passes kept) ∧
          ((∀ e, kept e → Succeeded e) → bSeekOnly = false →
            r = ⟨true, hFile, false⟩ ∧
              ∀ p : Delivered H, p.hFile = hFile → p.run t = p.add (.stream p.Name stream.encode)) := by
  unfold writeFileDataStreamFromArchive
  apply provided_bind (provided_seekSparseBlock hFile bSeekOnly step wf filled)
  intro t seek s₁ facts
  rcases facts with ⟨silent, same, stays, passes, kept_seek⟩
  have filled₁ := same.filled filled
  cases seek with
  | true =>
    rw [if_pos rfl]
    apply (provided_dataStreamLoop quiet large hFile true (fun absurd => by cases absurd) c.fuel
      filled₁.rest filled₁.rest.lt_fuel).mono
    intro t' r s' facts
    rcases facts with ⟨at', rfl, -⟩
    refine ⟨at', rfl, fun _ => rfl, fun _ => passes rfl, fun all none => ?_⟩
    have same := kept_seek all
    rw [none] at same
    cases same
  | false =>
    have open_ : bSeekOnly = false := by
      cases bSeekOnly with
      | true => exact absurd (stays rfl) Bool.false_ne_true
      | false => rfl
    have step_ := step open_
    rw [if_neg Bool.false_ne_true]
    apply provided_bind_ok (bufferAt_run 0 _ s₁)
    intro _
    rw [filled₁.buffer]
    apply provided_bind (provided_call _)
    intro _ reply s₂ facts
    rcases facts with ⟨rfl, held, same₂⟩
    have at₂ := same₂.rest filled₁.rest
    by_cases success : reply.isSuccess = true
    · rw [if_pos success]
      apply (provided_dataStreamLoop quiet large hFile false (fun _ => step_) c.fuel at₂ at₂.lt_fuel).mono
      intro t' r s' facts
      rcases facts with ⟨at', rfl, writes⟩
      refine ⟨at', rfl, stays, fun none => (by cases none), fun _ _ => ⟨rfl, fun p opened => ?_⟩⟩
      have rest := writes rfl p p.Name (stream.header.encode ++ stream.body.take k) opened
      rw [List.append_assoc, List.take_append_drop] at rest
      simp only [List.nil_append, Delivered.run_append, silent p, Delivered.run_cons,
        Delivered.run_nil, Delivered.step, opened, if_true, rest]
      rfl
    · have failed : Passes kept := step_.passes_of_failed held success
      rw [if_neg success]
      apply provided_bind (harmless_removeTemporary hFile)
      intro t' _ s₃ facts
      rcases facts with ⟨-, same₃, -⟩
      have at₃ := same₃.rest at₂
      apply (provided_dataStreamLoop quiet large none true (fun absurd => by cases absurd) c.fuel at₃
        at₃.lt_fuel).mono
      intro t' r s' facts
      rcases facts with ⟨at', rfl, -⟩
      exact ⟨at', rfl, fun _ => rfl, fun _ => .inr failed, fun all _ => absurd (all _ held) success⟩

theorem provided_copyInsteadOfLink (hFile : Handle H) (LinkName Target : UnicodeString) :
    Provided kept LinkWhole (copyInsteadOfLink c hFile LinkName Target) s fun t _ s' => Same s s' ∧
      ∀ p : Delivered H, (p.run t).list = p.list ++ [.link LinkName] := by
  unfold copyInsteadOfLink
  apply provided_bind (provided_call _)
  intro _ opened s₁ facts
  rcases facts with ⟨rfl, -, same₁⟩
  split
  · exact provided_pure ⟨same₁, fun p => by simp [Delivered.step]⟩
  · next hSource _ =>
    apply provided_bind (provided_call _)
    intro _ created s₂ facts
    rcases facts with ⟨rfl, -, same₂⟩
    have same₂ := same₁.trans same₂
    split
    · exact provided_pure ⟨same₂, fun p => by simp [Delivered.step, Delivered.opened]⟩
    · next hTarget _ =>
      apply provided_bind (harmless_call (.backupCopyFile _ _) fun _ _ => rfl)
      intro copying copied s₃ facts
      rcases facts with ⟨silent₃, same₃, -⟩
      have same₃ := same₂.trans same₃
      split
      · apply provided_bind (harmless_call (.close _) fun _ _ => rfl)
        intro closing _ s₄ facts
        rcases facts with ⟨silent₄, same₄, -⟩
        refine provided_pure ⟨same₃.trans same₄, fun p => ?_⟩
        simp [Delivered.step, Delivered.opened, silent₃ _, silent₄ _]
      · apply provided_bind (harmless_removeTemporary _)
        intro removing _ s₄ facts
        rcases facts with ⟨silent₄, same₄, -⟩
        apply provided_bind (harmless_call (.close _) fun _ _ => rfl)
        intro closing _ s₅ facts
        rcases facts with ⟨silent₅, same₅, -⟩
        refine provided_pure ⟨(same₃.trans same₄).trans same₅, fun p => ?_⟩
        simp [Delivered.step, Delivered.opened, silent₃ _, silent₄ _, silent₅ _]

theorem provided_linkTarget (hFile : Handle H) (LinkName Target : UnicodeString) :
    Provided kept LinkWhole (linkTarget c hFile LinkName Target) s fun t _ s' => Same s s' ∧
      ((∀ e, kept e → Succeeded e) →
        ∀ p : Delivered H, (p.run t).list = p.list ++ [.link LinkName]) := by
  unfold linkTarget
  split
  · apply provided_bind (harmless_removeTemporary hFile)
    intro removing _ s₁ facts
    rcases facts with ⟨silent₁, same₁, -⟩
    apply provided_bind (provided_call _)
    intro _ opened s₂ facts
    rcases facts with ⟨rfl, -, same₂⟩
    have same₂ := same₁.trans same₂
    split
    · refine provided_pure ⟨same₂, fun _ p => ?_⟩
      simp [Delivered.step, silent₁ _]
    · next hSource _ =>
      apply provided_bind (provided_call _)
      intro _ linked s₃ facts
      rcases facts with ⟨rfl, held, same₃⟩
      apply provided_bind (harmless_call (.close _) fun _ _ => rfl)
      intro closing _ s₄ facts
      rcases facts with ⟨silent₄, same₄, -⟩
      have same₄ := (same₂.trans same₃).trans same₄
      split
      · apply provided_bind_ok (countFile_run s₄)
        intro _
        refine provided_pure ⟨⟨same₄.pos, same₄.headerPos, same₄.buffer⟩, fun _ p => ?_⟩
        simp [Delivered.step, silent₁ _, silent₄ _]
      · next failed =>
        apply (provided_copyInsteadOfLink none LinkName Target).mono
        intro t _ s₅ facts
        rcases facts with ⟨same₅, -⟩
        exact ⟨same₄.trans same₅, fun all => absurd (all _ held) failed⟩
  · exact (provided_copyInsteadOfLink hFile LinkName Target).mono fun _ _ _ h => ⟨h.1, fun _ => h.2⟩

theorem provided_writeFileHardLinkFromArchive (hFile : Handle H) (Target : UnicodeString)
    {stream : Stream} {k : Nat} {rest : List BYTE} (wf : stream.WellFormed c.dwBufferSize)
    (link : stream.dwStreamId = backupLink) (filled : Filled c s stream k rest) :
    Provided kept LinkWhole (writeFileHardLinkFromArchive c hFile (headerSize + k) Target false) s
      fun t _ s' => Rest c s' rest ∧
        ((∀ e, kept e → Succeeded e) → stream.data.length < 2 ^ 16 →
          ∀ p : Delivered H, (p.run t).list = p.list ++ [.link (wchars stream.data)]) := by
  have fits := wf.link link
  have size := filled.size
  have body := stream.length_body
  have whole : k = stream.body.length := by
    omega
  have at_ : Rest c s rest := by
    have at_ := filled.rest
    rwa [whole, List.drop_length, List.nil_append] at at_
  have complete : ((headerSize + k : Nat) : Int) =
      quadPart (stream.data.length + ((headerSize + 2 * stream.name.length : Nat) : Int)) := by
    have bound := wf.size
    rw [quadPart_of_lt (by omega) (by omega)]
    omega
  unfold writeFileHardLinkFromArchive
  apply provided_bind_ok (header_run s)
  intro _
  rw [filled.loaded.header]
  dsimp only
  rw [wf.sizeInt, wf.sizeNat, wf.dataOffset, ← complete]
  have whole : Position.linkName = Position.linkName → ((headerSize + k : Nat) : Int) =
      quadPart (s.header.Size.toInt + ((headerSize + 2 * stream.name.length : Nat) : Int)) := by
    rw [filled.loaded.header, wf.sizeInt]
    exact fun _ => complete
  apply provided_bind (provided_locate .linkName (by omega) whole)
  intro t _ s₁ facts
  rcases facts with ⟨silent, rfl⟩
  apply provided_bind_ok (bufferAt_run _ _ _)
  intro _
  rw [if_neg (by simp)]
  apply (provided_linkTarget hFile _ Target).mono
  intro t' _ s' facts
  rcases facts with ⟨same, links⟩
  refine ⟨same.rest at_, fun all bound p => ?_⟩
  have data := filled.payload wf
  have whole_data : k - 2 * stream.name.length = stream.data.length := by
    omega
  rw [whole_data, List.take_length] at data
  rw [Nat.mod_eq_of_lt bound, data] at links
  simp only [Delivered.run_append, silent p, List.nil_append, links all p]

/-- The complete name of an alternate stream fits the path buffer. -/
def Stream.Storable (File : UnicodeString) (stream : Stream) : Prop :=
  2 * (File.length + stream.name.length) ≤ fullPathMaximum

instance (File : UnicodeString) (stream : Stream) : Decidable (stream.Storable File) :=
  inferInstanceAs (Decidable (_ ≤ _))

theorem provided_alternateWriteLoop (quiet : ∀ pos, c.bCancel pos = false)
    (large : headerSize ≤ c.dwBufferSize) (hStream : Handle H) (fuel : Nat) {offset size : Nat}
    {ys xs rest : List BYTE} (buffer : s.Buffer.read offset size = ys) (at_ : Rest c s (xs ++ rest))
    (enough : xs.length < fuel) :
    Provided kept LinkWhole (alternateWriteLoop c hStream fuel offset size xs.length) s fun t _ s' =>
      Rest c s' rest ∧ ((∀ e, kept e → Succeeded e) →
        ∀ (p : Delivered H) Name bytes, p.hFile = hStream →
          (p.add (.alternate Name bytes)).run t = p.add (.alternate Name (bytes ++ (ys ++ xs)))) := by
  have twenty : headerSize = 20 := rfl
  induction fuel generalizing s offset size ys xs with
  | zero => omega
  | succ fuel ih =>
    have length : ys.length = size := by
      rw [← buffer, Cells.length_read]
    unfold alternateWriteLoop
    apply provided_bind_ok (bufferAt_run offset size s)
    intro _
    rw [buffer]
    apply provided_bind (provided_call _)
    intro _ written s₁ facts
    rcases facts with ⟨rfl, held, same⟩
    have at₁ := same.rest at_
    split
    · next failed =>
      apply provided_bind (harmless_call (.deleteFile hStream) fun _ _ => rfl)
      intro t₂ _ s₂ facts
      rcases facts with ⟨-, same₂, -⟩
      have at₂ := same₂.rest at₁
      apply (provided_skipLoop quiet large c.fuel at₂ at₂.lt_fuel).mono
      intro t₃ _ s₃ facts
      rcases facts with ⟨-, at₃⟩
      refine ⟨at₃, fun all => absurd ?_ failed⟩
      have complete : written = .written ys.length := all _ held
      rw [complete, length]
      rfl
    · split
      · next none =>
        have empty : xs = [] := by
          apply List.eq_nil_of_length_eq_zero
          omega
        subst empty
        refine provided_pure ⟨at₁, fun _ p Name bytes opened => ?_⟩
        simp [Delivered.step, opened, Delivery.extend]
      · next some =>
        dsimp only
        have block := take_block (c := c) xs
        have taken := List.length_take (i := c.dwBufferSize) (l := xs)
        have left := List.length_drop (i := c.dwBufferSize) (l := xs)
        have fits : locateBlock c (xs.length : Int) (if (xs.length : Int) > c.dwBufferSize then
            c.dwBufferSize else lowPart xs.length) s₁ =
            .ok [.nextBlock xs.length (xs.take c.dwBufferSize).length] () s₁ := by
          rw [block, locateBlock, if_pos (by omega)]
        apply provided_bind_ok fits
        intro _
        apply provided_readBlock at₁
        intro s₂ at₂ buffer₂
        rw [block, if_neg (fun differ => differ rfl), left_block]
        have next : s₂.Buffer.read 0 (xs.take c.dwBufferSize).length = xs.take c.dwBufferSize := by
          rw [buffer₂, Cells.read_write_same]
        apply (ih next at₂ (by omega)).mono
        intro t₃ _ s₃ facts
        rcases facts with ⟨at₃, writes⟩
        refine ⟨at₃, fun all p Name bytes opened => ?_⟩
        have rest := writes all p Name (bytes ++ ys) opened
        simp only [List.append_assoc, List.take_append_drop] at rest
        simp [Delivered.step, opened, Delivery.extend, rest]

theorem provided_writeData (quiet : ∀ pos, c.bCancel pos = false)
    (large : headerSize ≤ c.dwBufferSize) (hStream : Handle H) (bSeekOnly : Bool)
    {stream : Stream} {k : Nat} {rest : List BYTE} (wf : stream.WellFormed c.dwBufferSize)
    (filled : Filled c s stream k rest) :
    Provided kept LinkWhole (writeData c hStream (headerSize + k) (stream.body.drop k).length bSeekOnly) s
      fun t _ s' => Rest c s' rest ∧ ((∀ e, kept e → Succeeded e) → bSeekOnly = false →
        ∀ (p : Delivered H) Name, p.hFile = hStream →
          (p.add (.alternate Name [])).run t = p.add (.alternate Name stream.written)) := by
  have name := filled.name_fits wf
  have room := filled.size
  have dword := c.isDword
  unfold writeData
  apply provided_bind_ok (header_run s)
  intro _
  rw [filled.loaded.header, wf.sizeInt, wf.dataOffset]
  split
  · next goes =>
    dsimp only
    rw [dwordSub_of_le (by omega) (by omega), Nat.add_sub_add_left]
    apply provided_bind (provided_locate .payload (by omega) nofun)
    intro t _ s₁ facts
    rcases facts with ⟨silent, rfl⟩
    rw [filled.left wf]
    have at_ := filled.rest
    rw [filled.left wf] at at_
    apply provided_bind (provided_alternateWriteLoop quiet large hStream c.fuel
      (filled.payload wf) at_ at_.lt_fuel)
    intro t' _ s₂ facts
    rcases facts with ⟨at₂, writes⟩
    refine provided_pure ⟨at₂, fun all _ p Name opened => ?_⟩
    have rest := writes all p Name [] opened
    rw [List.take_append_drop, List.nil_append] at rest
    have normal : stream.dwStreamAttributes = streamNormalAttribute := goes.2.2
    rw [Stream.written, if_pos normal]
    simp only [List.nil_append, List.append_nil, Delivered.run_append, silent _, rest]
  · next skips =>
    apply provided_bind (provided_skipLoop quiet large c.fuel filled.rest filled.rest.lt_fuel)
    intro t _ s₁ facts
    rcases facts with ⟨rfl, at₁⟩
    refine provided_pure ⟨at₁, fun _ none p Name _ => ?_⟩
    have nothing : stream.written = [] := by
      by_cases normal : stream.dwStreamAttributes = streamNormalAttribute
      · rw [Stream.written, if_pos normal]
        by_contra some
        have positive := List.length_pos_iff.mpr some
        exact skips ⟨none, by omega, normal⟩
      · rw [Stream.written, if_neg normal]
    rw [nothing]
    rfl

theorem provided_writeStream (quiet : ∀ pos, c.bCancel pos = false)
    (large : headerSize ≤ c.dwBufferSize) (hStream : Handle H) (bSeekOnly : Bool)
    {stream : Stream} {k : Nat} {rest : List BYTE} (wf : stream.WellFormed c.dwBufferSize)
    (filled : Filled c s stream k rest) :
    Provided kept LinkWhole (writeStream c hStream (headerSize + k) (stream.body.drop k).length bSeekOnly) s
      fun t _ s' => Rest c s' rest ∧ ((∀ e, kept e → Succeeded e) → bSeekOnly = false →
        ∀ (p : Delivered H) Name, p.hFile = hStream →
          (p.add (.alternate Name [])).run t = p.add (.alternate Name stream.written)) := by
  unfold writeStream
  apply provided_bind_ok (header_run s)
  intro _
  split
  · apply provided_bind (harmless_call (.deviceIoControl hStream .setSparse) fun _ _ => rfl)
    intro t _ s₁ facts
    rcases facts with ⟨silent, same, -⟩
    apply (provided_writeData quiet large hStream bSeekOnly wf (same.filled filled)).mono
    intro t' _ s₂ facts
    rcases facts with ⟨at₂, writes⟩
    refine ⟨at₂, fun all none p Name opened => ?_⟩
    simp only [List.nil_append, Delivered.run_append, silent _, writes all none p Name opened]
  · exact provided_writeData quiet large hStream bSeekOnly wf filled

theorem provided_createStream (step : InStep kept) (File : UnicodeString) (bSeekOnly : Bool)
    {stream : Stream} {k : Nat} {rest : List BYTE} (wf : stream.WellFormed c.dwBufferSize)
    (filled : Filled c s stream k rest)
    (named : Passes kept ∨ 2 * (File.length + stream.name.length) ≤ fullPathMaximum) :
    Provided kept LinkWhole (createStream c (headerSize + k) File bSeekOnly) s fun t created s' =>
      Same s s' ∧ (created.2 = true → bSeekOnly = true ∨ Passes kept) ∧
        ((∀ e, kept e → Succeeded e) → bSeekOnly = false →
          2 * (File.length + stream.name.length) ≤ fullPathMaximum → created.2 = false ∧
            ∀ p : Delivered H, p.run t = (Delivered.mk created.1 (File ++ stream.name) p.list).add
              (.alternate (File ++ stream.name) [])) := by
  have fits := wf.fits
  have name := filled.name_fits wf
  have front : s.Buffer.read headerSize (2 * stream.name.length) = wcharBytes stream.name := by
    have back := Cells.drop_read s.Buffer 0 (Nat.le_add_right headerSize k)
    rw [filled.buffer, List.drop_left' stream.header.length_encode, Nat.zero_add,
      Nat.add_sub_cancel_left] at back
    rw [← Cells.take_read _ _ name, ← back, List.take_take, Nat.min_eq_left name, Stream.body,
      List.take_left' (length_wcharBytes _)]
  unfold createStream
  apply provided_bind_ok (header_run s)
  intro _
  rw [filled.loaded.header, wf.nameSize]
  have least := Nat.mod_le (2 * stream.name.length) (2 ^ 16)
  apply provided_bind (provided_locate .streamName (by omega) fun absurd => by cases absurd)
  intro t _ s₁ facts
  rcases facts with ⟨silent, rfl⟩
  apply provided_bind_ok (bufferAt_run _ _ s₁)
  intro _
  apply provided_bind (provided_call _)
  intro _ created s₂ facts
  rcases facts with ⟨rfl, held, same⟩
  have appended (short : 2 * (File.length + stream.name.length) ≤ fullPathMaximum) :
      rtlAppendUnicodeString fullPathMaximum File (wchars (s₁.Buffer.read headerSize
        (2 * stream.name.length % 2 ^ 16))) = some (File ++ stream.name) := by
    have small : 2 * stream.name.length % 2 ^ 16 = 2 * stream.name.length := by
      simp only [fullPathMaximum] at short
      omega
    rw [small, front, wchars_wcharBytes, rtlAppendUnicodeString, if_pos short]
  refine provided_pure ⟨same, fun seek => ?_, fun all none short => ?_⟩
  · by_cases already : bSeekOnly = true
    · exact .inl already
    right
    rcases named with passes | short
    · exact passes
    · rw [appended short] at seek held
      simp only [already, Option.isNone_some, Bool.or_false, Bool.false_or] at seek
      apply step.passes_of_failed held
      intro facts
      rcases facts with ⟨h, opened⟩
      rw [opened] at seek
      exact absurd seek (by simp [Reply.handle])
  · obtain ⟨h, opened⟩ : ∃ h, created = .opened h := all _ held
    subst opened
    rw [appended short]
    refine ⟨by simp [none, Reply.handle], fun p => ?_⟩
    simp [silent p, Delivered.step, Delivered.opened]

/-- How the header loop of the alternate streams is left, with these streams still to come. -/
inductive Exits (c : Config σ H) (kept : Event H → Prop) (tail : List BYTE) (bSeekOnly : Bool) :
    List Stream → AlternateExit H → Session σ → Prop
  | done {s : Session σ} {result : Bool} (ended : Ended c tail (if result then headerSize else 0) s) :
      Exits c kept tail bSeekOnly [] (.done result) s
  | stream {s : Session σ} {stream : Stream} {rest : List Stream} {k : Nat} {hStream : Handle H}
      {seek : Bool} (named : stream.name ≠ [])
      (filled : Filled c s stream k (rest.flatMap Stream.encode ++ tail))
      (seeks : seek = true → Passes kept)
      (writes : (∀ e, kept e → Succeeded e) → bSeekOnly = false → seek = false) :
      Exits c kept tail bSeekOnly (stream :: rest)
        (.stream hStream (headerSize + k) (stream.body.drop k).length seek) s

/-- Behind the last stream the header loop closes its stream and stops. -/
theorem provided_alternateHeaderLoop_ended {tail : List BYTE} (boundary : Boundary tail) (fuel : Nat)
    (hStream : Handle H) (bSeekOnly : Bool) (at_ : Rest c s tail) :
    Provided kept LinkWhole (alternateHeaderLoop c (fuel + 1) hStream bSeekOnly) s fun t exit s' =>
      Silent t ∧ Exits c kept tail bSeekOnly [] exit s' := by
  unfold alternateHeaderLoop
  have header : Rest c s (([] : List Stream).flatMap Stream.encode ++ tail) := at_
  apply provided_bind (provided_readStreamHeader boundary header)
  intro _ n s₁ facts
  rcases facts with ⟨rfl, ready⟩
  cases ready with
  | ended ended =>
    cases ended with
    | nothing at₁ cleared =>
      rw [if_pos rfl]
      apply provided_bind (harmless_closeOpened hStream)
      intro t _ s₂ facts
      rcases facts with ⟨silent, same, -⟩
      exact provided_pure ⟨by simpa using silent, .done (same.ended (.nothing at₁ cleared))⟩
    | header valid loaded start at₁ =>
      rw [if_neg (by decide), if_neg (fun differ => differ rfl)]
      apply provided_bind_ok (header_run s₁)
      intro _
      rw [loaded.header, if_pos (isNewFileHeader_of_valid valid)]
      apply provided_bind (harmless_closeOpened hStream)
      intro t _ s₂ facts
      rcases facts with ⟨silent, same, -⟩
      exact provided_pure ⟨by simpa using silent, .done (same.ended (.header valid loaded start at₁))⟩

/-- Passing over unnamed streams that cannot be written stays in step only as long as they end in
    the first block. -/
theorem provided_alternateHeaderLoop (quiet : ∀ pos, c.bCancel pos = false)
    (large : headerSize ≤ c.dwBufferSize) (step : InStep kept) {tail : List BYTE}
    (boundary : Boundary tail) (fuel : Nat) {streams : List Stream} (hStream : Handle H)
    (bSeekOnly : Bool) (seeks : bSeekOnly = true → Passes kept)
    (wf : ∀ stream ∈ streams, stream.WellFormed c.dwBufferSize)
    (at_ : Rest c s (streams.flatMap Stream.encode ++ tail)) (enough : streams.length < fuel) :
    Provided kept LinkWhole (alternateHeaderLoop c fuel hStream bSeekOnly) s fun t exit s' =>
      ∃ left, left <:+ streams ∧ Exits c kept tail bSeekOnly left exit s' ∧
        ((∀ e, kept e → Succeeded e) → bSeekOnly = false →
          ∀ (p : Delivered H) File, p.hFile = hStream →
            (p.run t).list ++ alternateDeliveries File p.Name left =
              p.list ++ alternateDeliveries File p.Name streams) := by
  have twenty : headerSize = 20 := rfl
  induction fuel generalizing s streams hStream bSeekOnly with
  | zero => omega
  | succ fuel ih =>
    rcases streams with _ | ⟨stream, rest⟩
    · apply (provided_alternateHeaderLoop_ended boundary fuel hStream bSeekOnly at_).mono
      intro t exit s' facts
      rcases facts with ⟨silent, exits⟩
      exact ⟨[], List.suffix_refl _, exits, fun _ _ p File _ => by rw [silent p]⟩
    unfold alternateHeaderLoop
    apply provided_bind (provided_readStreamHeader boundary at_)
    intro _ n s₁ facts
    rcases facts with ⟨rfl, ready⟩
    cases ready with
    | stream loaded at₁ =>
      have wf₁ := wf stream List.mem_cons_self
      have wf_rest : ∀ other ∈ rest, other.WellFormed c.dwBufferSize :=
        fun other mem => wf other (List.mem_cons_of_mem _ mem)
      have suffix := List.suffix_cons stream rest
      have enough_rest : rest.length < fuel := by
        simpa using enough
      rw [if_neg (by omega), if_neg (fun differ => differ rfl)]
      apply provided_bind_ok (header_run s₁)
      intro _
      rw [loaded.header, wf₁.continues, if_neg Bool.false_ne_true]
      apply provided_bind (provided_fillEntireBuffer large wf₁ loaded at₁)
      intro t _ s₂ facts
      rcases facts with ⟨k, silent, filled, rfl⟩
      apply provided_bind_ok (header_run s₂)
      intro _
      rw [filled.loaded.header]
      split
      · next positive =>
        refine provided_pure ⟨stream :: rest, List.suffix_refl _, .stream (wf₁.named.mp positive)
          filled seeks fun _ => id, fun _ _ p File _ => ?_⟩
        simp [silent p]
      · next unnamed =>
        have nameless : stream.name = [] := by
          by_contra named
          exact unnamed (wf₁.named.mpr named)
        cases bSeekOnly with
        | true =>
          rw [if_pos rfl]
          have noted : note (.passedOver stream.header (stream.body.drop k).length) s₂ =
            .ok [(.passedOver stream.header (stream.body.drop k).length : Event H)] () s₂ := rfl
          apply provided_bind_ok noted
          intro held
          have none := seeks rfl _ _ (held _ (List.mem_singleton_self _))
          have empty : stream.body.drop k = [] := by
            apply List.eq_nil_of_length_eq_zero
            omega
          have at₂ := filled.rest
          rw [empty, List.nil_append] at at₂
          apply (ih hStream true seeks wf_rest at₂ enough_rest).mono
          intro t' exit s' facts
          rcases facts with ⟨left, within, exits, -⟩
          exact ⟨left, within.trans suffix, exits, fun _ none => by cases none⟩
        | false =>
          rw [if_neg Bool.false_ne_true]
          apply provided_bind (provided_writeFileDataStreamFromArchive quiet large hStream false
            (fun _ => step) wf₁ filled)
          intro t' r s₃ facts
          rcases facts with ⟨at₃, result, -, passes, writes⟩
          rw [if_pos result]
          have seeks' : r.bSeekOnly = true → Passes kept :=
            fun seek => (passes seek).resolve_left Bool.false_ne_true
          apply (ih r.hFile r.bSeekOnly seeks' wf_rest at₃ enough_rest).mono
          intro t'' exit s' facts
          rcases facts with ⟨left, within, exits, delivers⟩
          refine ⟨left, within.trans suffix, ?_, fun all _ p File opened => ?_⟩
          · cases exits with
            | done ended => exact .done ended
            | stream named filled seeks writes' =>
              refine .stream named filled seeks fun all _ => writes' all ?_
              rw [(writes all rfl).1]
          · obtain ⟨same, adds⟩ := writes all rfl
            have rest := delivers all (by rw [same]) (p.add (.stream p.Name stream.encode)) File
              (by rw [same]; exact opened)
            simp only [List.nil_append, Delivered.run_append, silent p, adds p opened]
            rw [Delivered.add_Name] at rest
            rw [rest]
            simp [alternateDeliveries, nameless]

/-- A first alternate stream and the streams behind it. -/
def Storables (File : UnicodeString) (stream : Stream) (rest : List Stream) : Prop :=
  stream.Storable File ∧ ∀ other ∈ rest, other.name ≠ [] → other.Storable File

theorem Storables.suffix {File : UnicodeString} {stream other : Stream} {rest others : List Stream}
    (storables : Storables File stream rest) (within : other :: others <:+ rest)
    (named : other.name ≠ []) : Storables File other others :=
  ⟨storables.2 other (within.subset List.mem_cons_self) named,
    fun last mem => storables.2 last (within.subset (List.mem_cons_of_mem _ mem))⟩

theorem provided_alternateLoop (quiet : ∀ pos, c.bCancel pos = false)
    (large : headerSize ≤ c.dwBufferSize) (step : InStep kept) {tail : List BYTE}
    (boundary : Boundary tail) (File : UnicodeString) (fuel : Nat) {stream : Stream}
    {rest : List Stream} {k : Nat} (bSeekOnly : Bool) (seeks : bSeekOnly = true → Passes kept)
    (names : Passes kept ∨ Storables File stream rest)
    (wf : ∀ other ∈ stream :: rest, other.WellFormed c.dwBufferSize)
    (filled : Filled c s stream k (rest.flatMap Stream.encode ++ tail))
    (enough : rest.length < fuel) :
    Provided kept LinkWhole (alternateLoop c File fuel (headerSize + k) (stream.body.drop k).length bSeekOnly)
      s fun t more s' => Ended c tail (if more then headerSize else 0) s' ∧
        ((∀ e, kept e → Succeeded e) → bSeekOnly = false → Storables File stream rest →
          ∀ p : Delivered H, (p.run t).list =
            p.list ++ .alternate (File ++ stream.name) stream.written ::
              alternateDeliveries File (File ++ stream.name) rest) := by
  induction fuel generalizing s stream rest k bSeekOnly with
  | zero => omega
  | succ fuel ih =>
    have wf₁ := wf stream List.mem_cons_self
    have wf_rest : ∀ other ∈ rest, other.WellFormed c.dwBufferSize :=
      fun other mem => wf other (List.mem_cons_of_mem _ mem)
    unfold alternateLoop
    apply provided_bind (provided_createStream step File bSeekOnly wf₁ filled
      (names.imp_right fun storables => storables.1))
    intro t₁ created s₁ facts
    rcases facts with ⟨same, seeks₁, creates⟩
    have seeks₁ : created.2 = true → Passes kept := fun seek => (seeks₁ seek).elim seeks id
    apply provided_bind (provided_writeStream quiet large created.1 created.2 wf₁ (same.filled filled))
    intro t₂ _ s₂ facts
    rcases facts with ⟨at₂, writes⟩
    have within : rest.length < c.fuel := by
      have length := length_streams rest
      have bound := at₂.lt_fuel
      omega
    apply provided_bind (provided_alternateHeaderLoop quiet large step boundary c.fuel created.1
      created.2 seeks₁ wf_rest at₂ within)
    intro t₃ exit s₃ facts
    rcases facts with ⟨left, suffix, exits, passes⟩
    have delivers (all : ∀ e, kept e → Succeeded e) (none : bSeekOnly = false)
        (storables : Storables File stream rest) (p : Delivered H) :
        (((p.run t₁).run t₂).run t₃).list ++
            alternateDeliveries File (File ++ stream.name) left =
          p.list ++ .alternate (File ++ stream.name) stream.written ::
            alternateDeliveries File (File ++ stream.name) rest := by
      obtain ⟨open_, adds⟩ := creates all none storables.1
      rw [adds p, writes all open_ _ (File ++ stream.name) rfl]
      have rest := passes all open_ ((Delivered.mk created.1 (File ++ stream.name) p.list).add
        (.alternate (File ++ stream.name) stream.written)) File rfl
      rw [Delivered.add_Name] at rest
      rw [rest]
      simp
    cases exits with
    | done ended =>
      refine provided_pure ⟨ended, fun all none storables p => ?_⟩
      have rest := delivers all none storables p
      simpa only [alternateDeliveries, List.append_nil, Delivered.run_append] using rest
    | @stream s₃ other others k' hStream seek named filled' seeks' writes' =>
      apply provided_bind (harmless_call (.close hStream) fun _ _ => rfl)
      intro t₄ _ s₄ facts
      rcases facts with ⟨silent, same₄, -⟩
      have shorter : others.length < fuel := by
        have length := suffix.length_le
        rw [List.length_cons] at length
        omega
      apply (ih seek seeks' (names.imp_right fun storables => storables.suffix suffix named)
        (fun last mem => wf_rest last (suffix.subset mem)) (same₄.filled filled') shorter).mono
      intro t₅ more s₅ facts
      rcases facts with ⟨ended, delivers'⟩
      refine ⟨ended, fun all none storables p => ?_⟩
      have first := delivers all none storables p
      have second := delivers' all (writes' all (creates all none storables.1).1)
        (storables.suffix suffix named) (((p.run t₁).run t₂).run t₃)
      simp only [alternateDeliveries, if_neg named] at first
      simp only [Delivered.run_append, silent _, second, first]

/-- Streams that are delivered as they are when no call fails. A link stands alone. -/
def Restorable (File : UnicodeString) : List Stream → Prop
  | [] => True
  | stream :: rest =>
    if stream.dwStreamId = backupLink then rest = [] ∧ stream.data.length < 2 ^ 16
    else if stream.dwStreamId = backupAlternateData then Storables File stream rest
    else Restorable File rest

omit [DecidableEq H] in
theorem provided_streamLoop_ended (quiet : ∀ pos, c.bCancel pos = false) {tail : List BYTE}
    (File : UnicodeString) (fuel : Nat) {dwBytesRead : Nat} (hFile : Handle H) (bSeekOnly : Bool)
    (ended : Ended c tail dwBytesRead s) :
    Provided kept LinkWhole (streamLoop c File (fuel + 1) dwBytesRead hFile bSeekOnly) s fun t r s' =>
      t = [] ∧ r.result = true ∧ s' = s := by
  unfold streamLoop
  apply provided_bind_ok (cancelled_run c s)
  intro _
  rw [quiet, if_neg Bool.false_ne_true]
  cases ended with
  | nothing at_ cleared =>
    rw [if_pos rfl]
    exact provided_pure ⟨rfl, rfl, rfl⟩
  | header valid loaded start at_ =>
    rw [if_neg (by decide), if_neg (Nat.lt_irrefl _)]
    apply provided_bind_ok (header_run s)
    intro _
    rw [loaded.header, if_pos (isNewFileHeader_of_valid valid)]
    exact provided_pure ⟨rfl, rfl, rfl⟩

/-- The streams of a file are consumed as a whole whatever fails. -/
theorem provided_streamLoop (quiet : ∀ pos, c.bCancel pos = false)
    (large : headerSize ≤ c.dwBufferSize) {tail : List BYTE} (boundary : Boundary tail)
    (File : UnicodeString) (fuel : Nat) {streams : List Stream} {dwBytesRead : Nat}
    (hFile : Handle H) (bSeekOnly : Bool) (step : bSeekOnly = false → InStep kept)
    (names : bSeekOnly = false → Passes kept ∨ Restorable File streams)
    (wf : ∀ stream ∈ streams, stream.WellFormed c.dwBufferSize)
    (ready : Ready c tail streams dwBytesRead s) (enough : streams.length < fuel) :
    Provided kept LinkWhole (streamLoop c File fuel dwBytesRead hFile bSeekOnly) s fun t r s' =>
      r.result = true ∧ (∃ n, Ended c tail n s') ∧
        ((∀ e, kept e → Succeeded e) → bSeekOnly = false → Restorable File streams →
          ∀ p : Delivered H, (streams ≠ [] → p.hFile = hFile ∧ p.Name = File) →
            (p.run t).list = p.list ++ streamDeliveries File streams) := by
  induction fuel generalizing s streams dwBytesRead hFile bSeekOnly with
  | zero => omega
  | succ fuel ih =>
    cases ready with
    | ended ended =>
      apply (provided_streamLoop_ended quiet File fuel hFile bSeekOnly ended).mono
      intro t r _ facts
      rcases facts with ⟨rfl, result, rfl⟩
      exact ⟨result, ⟨_, ended⟩, fun _ _ _ p _ => by simp [streamDeliveries]⟩
    | @stream _ stream rest loaded at_ =>
      have wf₁ := wf stream List.mem_cons_self
      have wf_rest : ∀ other ∈ rest, other.WellFormed c.dwBufferSize :=
        fun other mem => wf other (List.mem_cons_of_mem _ mem)
      have enough_rest : rest.length < fuel := by
        simpa using enough
      unfold streamLoop
      apply provided_bind_ok (cancelled_run c s)
      intro _
      rw [quiet, if_neg Bool.false_ne_true, if_neg (by decide), if_neg (Nat.lt_irrefl _)]
      apply provided_bind_ok (header_run s)
      intro _
      rw [loaded.header, wf₁.continues, if_neg Bool.false_ne_true]
      apply provided_bind (provided_fillEntireBuffer large wf₁ loaded at_)
      intro t₁ _ s₁ facts
      rcases facts with ⟨k, silent, filled, rfl⟩
      apply provided_bind_ok (header_run s₁)
      intro _
      rw [filled.loaded.header]
      have id : stream.header.dwStreamId = stream.dwStreamId := rfl
      rw [id]
      split
      · next link =>
        obtain ⟨link, rfl⟩ := link
        have alone : Restorable File (stream :: rest) → rest = [] ∧ stream.data.length < 2 ^ 16 := by
          intro restorable
          rwa [Restorable, if_pos link] at restorable
        apply provided_bind (provided_writeFileHardLinkFromArchive hFile File wf₁ link filled)
        intro t₂ hLeft s₂ facts
        rcases facts with ⟨at₂, links⟩
        apply provided_bind (provided_readStreamHeader boundary at₂)
        intro _ n s₃ facts
        rcases facts with ⟨rfl, ready⟩
        have names_rest : Passes kept ∨ Restorable File rest := by
          refine (names rfl).imp_right fun restorable => ?_
          rw [(alone restorable).1]
          trivial
        apply (ih hLeft false step (fun _ => names_rest) wf_rest ready enough_rest).mono
        intro t₃ r s₄ facts
        rcases facts with ⟨result, ended, delivers⟩
        refine ⟨result, ended, fun all _ restorable p _ => ?_⟩
        obtain ⟨rfl, bound⟩ := alone restorable
        have nothing := delivers all rfl trivial (p.run t₂) fun some => absurd rfl some
        simp only [List.nil_append, Delivered.run_append, silent _, nothing, links all bound p,
          streamDeliveries, if_pos link, List.append_nil]
      · next notLink =>
        split
        · next alternate =>
          obtain ⟨rfl, alternate⟩ := alternate
          have other : ¬ stream.dwStreamId = backupLink := fun link => notLink ⟨link, rfl⟩
          have storables : Restorable File (stream :: rest) → Storables File stream rest := by
            intro restorable
            rwa [Restorable, if_neg other, if_pos alternate] at restorable
          have within : rest.length < c.fuel := by
            have length := length_streams rest
            have bound := filled.rest.length
            simp only [List.length_append] at bound
            simp only [Config.fuel]
            omega
          apply provided_bind (provided_alternateLoop quiet large (step rfl) boundary File c.fuel false
            (fun seek => by cases seek) ((names rfl).imp_right storables) wf filled within)
          intro t₂ more s₂ facts
          rcases facts with ⟨ended, delivers⟩
          obtain ⟨fuel, rfl⟩ : ∃ n, fuel = n + 1 := ⟨fuel - 1, by omega⟩
          apply (provided_streamLoop_ended quiet File fuel hFile false ended).mono
          intro t₃ r _ facts
          rcases facts with ⟨rfl, result, rfl⟩
          refine ⟨result, ⟨_, ended⟩, fun all _ restorable p _ => ?_⟩
          simp only [List.nil_append, List.append_nil, Delivered.run_append, silent _,
            delivers all rfl (storables restorable), streamDeliveries, if_neg other, if_pos alternate]
        · next data =>
          apply provided_bind (provided_writeFileDataStreamFromArchive quiet large hFile bSeekOnly step
            wf₁ filled)
          intro t₂ r s₂ facts
          rcases facts with ⟨at₂, result, stays, -, writes⟩
          apply provided_bind (provided_readStreamHeader boundary at₂)
          intro _ n s₃ facts
          rcases facts with ⟨rfl, ready⟩
          rw [if_pos result]
          have plain (none : bSeekOnly = false) :
              ¬ stream.dwStreamId = backupLink ∧ ¬ stream.dwStreamId = backupAlternateData :=
            ⟨fun link => notLink ⟨link, none⟩, fun alternate => data ⟨none, alternate⟩⟩
          have restorable_rest (none : bSeekOnly = false)
              (restorable : Restorable File (stream :: rest)) : Restorable File rest := by
            rwa [Restorable, if_neg (plain none).1, if_neg (plain none).2] at restorable
          have stays_open (open_ : r.bSeekOnly = false) : bSeekOnly = false := by
            cases bSeekOnly with
            | true => exact absurd (stays rfl) (by rw [open_]; exact Bool.false_ne_true)
            | false => rfl
          have names_rest (open_ : r.bSeekOnly = false) : Passes kept ∨ Restorable File rest :=
            (names (stays_open open_)).imp_right (restorable_rest (stays_open open_))
          apply (ih r.hFile r.bSeekOnly (step ∘ stays_open) names_rest wf_rest ready enough_rest).mono
          intro t₃ r' s₄ facts
          rcases facts with ⟨result', ended, delivers⟩
          refine ⟨result', ended, fun all none restorable p opened => ?_⟩
          obtain ⟨opened, named⟩ := opened (List.cons_ne_nil _ _)
          obtain ⟨same, adds⟩ := writes all none
          have rest_delivers := delivers all (by rw [same]) (restorable_rest none restorable)
            (p.add (.stream File stream.encode)) fun _ => by
              rw [same]
              exact ⟨opened, named⟩
          have first := adds p opened
          rw [named] at first
          simp only [List.nil_append, Delivered.run_append, silent _, first, rest_delivers,
            streamDeliveries, if_neg (plain none).1, if_neg (plain none).2, Delivered.add_list,
            List.append_assoc, List.singleton_append]

end StrArc
