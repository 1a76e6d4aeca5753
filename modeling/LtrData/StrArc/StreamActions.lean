import LtrData.StrArc.Actions

namespace StrArc

variable {σ H : Type} {c : Config σ H} {K : H → Prop} {N : UnicodeString → Prop} {s : Session σ}

theorem readStreamHeader_acts :
    Acting c K N (readStreamHeader c) s fun n s' =>
      n ≤ headerSize ∧ remaining c s' + n = remaining c s := by
  unfold readStreamHeader
  apply acting_bind (acting_readArchive 0 headerSize)
  intro n s' _ facts
  rcases facts with ⟨size, left, -⟩
  have bound : n ≤ headerSize := by omega
  split
  · exact acting_silent (clearHeader_run s') rfl (Nat.le_refl _) id (acting_pure ⟨bound, left⟩)
  · exact acting_pure ⟨bound, left⟩

theorem remaining_lt_fuel (c : Config σ H) (s : Session σ) : remaining c s < c.fuel := by
  simp only [remaining, Config.fuel]
  omega

theorem skipLoop_acts (fuel : Nat) (BytesToRead : Int) (enough : remaining c s < fuel) :
    Acting c K N (skipLoop c fuel BytesToRead) s fun _ _ => True := by
  induction fuel generalizing s BytesToRead with
  | zero => omega
  | succ fuel ih =>
    unfold skipLoop
    split
    · apply acting_cancelled
      split
      · exact acting_pure trivial
      · apply acting_bind (acting_readArchive 0 _)
        intro n s' _ facts
        rcases facts with ⟨-, left, -⟩
        split
        · exact acting_raise (by decide)
        · exact ih _ (by omega)
    · exact acting_pure trivial

theorem skipArchive_acts (BytesToRead : Int) :
    Acting c K N (skipArchive c BytesToRead) s fun _ _ => True := by
  exact skipLoop_acts _ _ (remaining_lt_fuel c s)

theorem fillFirstBlock_acts :
    Acting c K N (fillFirstBlock c headerSize) s fun filled s' =>
      filled.1 = headerSize + firstBlock c.dwBufferSize s.header ∧ s'.header = s.header ∧
        filled.2 = quadPart (s.header.dataOffset + s.header.Size.toInt - headerSize) -
          firstBlock c.dwBufferSize s.header := by
  unfold fillFirstBlock
  apply acting_header
  by_cases positive : quadPart (s.header.dataOffset + s.header.Size.toInt - headerSize) > 0
  · have size := firstBlock_of_pos c.dwBufferSize positive
    simp only [positive, if_true, ← size]
    split
    · apply acting_bind (acting_readArchive _ _)
      intro n s' _ facts
      rcases facts with ⟨-, -, same⟩
      split
      · exact acting_raise (by decide)
      · next done =>
        rw [not_not] at done
        exact acting_pure ⟨by rw [done], same (Nat.le_refl _), by rw [done]⟩
    · next none =>
      have zero : firstBlock c.dwBufferSize s.header = 0 := by omega
      exact acting_pure ⟨by rw [zero, Nat.add_zero], rfl, by simp [zero]⟩
  · have zero := firstBlock_of_nonpos c.dwBufferSize positive
    simp only [positive, if_false]
    exact acting_pure ⟨by rw [zero, Nat.add_zero], rfl, by simp [zero]⟩

theorem showName_acts {dwBytesRead : Nat}
    (filled : dwBytesRead = headerSize + firstBlock c.dwBufferSize s.header) :
    Acting c K N (showName c dwBytesRead) s fun _ s' => s' = s := by
  unfold showName
  apply acting_header
  split
  · exact (acting_locate .shownName rfl filled (by simp)).mono fun _ _ _ h => h.1
  · exact acting_pure rfl

theorem showData_acts {dwBytesRead : Nat}
    (filled : dwBytesRead = headerSize + firstBlock c.dwBufferSize s.header) :
    Acting c K N (showData c dwBytesRead) s fun _ s' => s' = s := by
  unfold showData
  apply acting_header
  split
  · exact (acting_locate .shownStart rfl filled (by simp)).mono fun _ _ _ h => h.1
  · split
    · exact (acting_locate .shownTarget rfl filled (by simp)).mono fun _ _ _ h => h.1
    · exact acting_pure rfl

theorem showHeader_acts {dwBytesRead : Nat}
    (filled : dwBytesRead = headerSize + firstBlock c.dwBufferSize s.header) :
    Acting c K N (showHeader c dwBytesRead) s fun _ s' => s' = s := by
  unfold showHeader
  split
  · apply acting_bind (showName_acts filled)
    rintro _ _ _ rfl
    exact showData_acts filled
  · exact acting_pure rfl

theorem fillEntireBuffer_acts :
    Acting c K N (fillEntireBuffer c headerSize) s fun filled s' =>
      filled.1 = headerSize + firstBlock c.dwBufferSize s.header ∧ s'.header = s.header ∧
        filled.2 = quadPart (s.header.dataOffset + s.header.Size.toInt - headerSize) -
          firstBlock c.dwBufferSize s.header := by
  unfold fillEntireBuffer
  apply acting_bind fillFirstBlock_acts
  intro filled s' _ facts
  rcases facts with ⟨size, same, left⟩
  apply acting_bind (showHeader_acts (by rw [size, same]))
  rintro _ _ _ rfl
  exact acting_pure ⟨size, same, left⟩

theorem removeTemporary_acts {hFile : Handle H} (on : On K hFile) :
    Acting c K N (removeTemporary c hFile) s fun _ _ => True := by
  unfold removeTemporary
  apply acting_bind (acting_call (.deleteFile hFile) on)
  intro _ s' _ _
  apply acting_bind (acting_call (.close hFile) trivial)
  intro _ s'' _ _
  exact acting_pure trivial

theorem removeOpened_acts {hFile : Handle H} (on : On K hFile) :
    Acting c K N (removeOpened c hFile) s fun _ _ => True := by
  unfold removeOpened
  split
  · exact removeTemporary_acts on
  · exact acting_pure trivial

theorem closeOpened_acts (hFile : Handle H) :
    Acting c K N (closeOpened c hFile) s fun _ _ => True := by
  unfold closeOpened
  split
  · apply acting_bind (acting_call (.close hFile) trivial)
    intro _ _ _ _
    exact acting_pure trivial
  · exact acting_pure trivial

theorem copyInsteadOfLink_acts {hFile : Handle H} (on : On K hFile) (LinkName Target : UnicodeString) :
    Acting c K N (copyInsteadOfLink c hFile LinkName Target) s fun hFile' _ => On K hFile' := by
  unfold copyInsteadOfLink
  apply acting_bind (acting_call (.openFile .copySource LinkName) trivial)
  intro opened s' _ _
  split
  · exact acting_pure on
  · next hSource _ =>
    apply acting_bind (acting_call (.createFile .copyTarget Target _ _ _) trivial)
    intro created s'' _ facts
    rcases facts with ⟨target, -⟩
    split
    · exact acting_pure (on_none K)
    · next hTarget opens =>
      have on : On K (some hTarget) := opens ▸ target rfl
      apply acting_bind (acting_call (.backupCopyFile (some hSource) (some hTarget)) on)
      intro copied _ _ _
      split
      · apply acting_bind (acting_call (.close (some hSource)) trivial)
        intro _ _ _ _
        exact acting_pure on
      · apply acting_bind (removeTemporary_acts on)
        intro _ _ _ _
        apply acting_bind (acting_call (.close (some hSource)) trivial)
        intro _ _ _ _
        exact acting_pure (on_none K)

theorem linkTarget_acts {hFile : Handle H} (on : On K hFile) (LinkName : UnicodeString)
    {Target : UnicodeString} (named : N Target) :
    Acting c K N (linkTarget c hFile LinkName Target) s fun hFile' _ => On K hFile' := by
  unfold linkTarget
  split
  · apply acting_bind (removeTemporary_acts on)
    intro _ _ _ _
    apply acting_bind (acting_call (.openFile .linkSource LinkName) trivial)
    intro opened _ _ _
    split
    · exact acting_pure (on_none K)
    · next hSource _ =>
      apply acting_bind (acting_call (.createHardLink (some hSource) Target) named)
      intro linked _ _ _
      apply acting_bind (acting_call (.close (some hSource)) trivial)
      intro _ _ _ _
      split
      · apply acting_bind acting_countFile
        intro _ _ _ _
        exact acting_pure (on_none K)
      · exact copyInsteadOfLink_acts (on_none K) LinkName Target
  · exact copyInsteadOfLink_acts on LinkName Target

theorem writeFileHardLinkFromArchive_acts {hFile : Handle H} (on : On K hFile) {dwBytesRead : Nat}
    (filled : dwBytesRead = headerSize + firstBlock c.dwBufferSize s.header)
    {Target : UnicodeString} {bSeekOnly : Bool} (named : bSeekOnly = false → N Target) :
    Acting c K N (writeFileHardLinkFromArchive c hFile dwBytesRead Target bSeekOnly) s
      fun hFile' _ => On K hFile' := by
  unfold writeFileHardLinkFromArchive
  apply acting_header
  apply acting_bind (acting_locate .linkName rfl filled (by simp))
  intro _ _ _ facts
  rcases facts with ⟨rfl, -⟩
  apply acting_bufferAt
  split
  · exact acting_pure on
  · next write =>
    rw [Bool.not_eq_true, Bool.or_eq_false_iff] at write
    exact linkTarget_acts on _ (named write.1)

/-- What is left of a target when its streams are written, or given up. -/
def Left (K : H → Prop) (bSeekOnly : Bool) (r : StreamResult H) : Prop :=
  On K r.hFile ∧ (r.bSeekOnly = false → bSeekOnly = false)

theorem dataStreamLoop_acts (fuel : Nat) {hFile : Handle H} (on : On K hFile) (bSeekOnly : Bool)
    (BytesToRead : Int) (enough : remaining c s < fuel) :
    Acting c K N (dataStreamLoop c hFile bSeekOnly fuel BytesToRead) s
      fun r _ => Left K bSeekOnly r := by
  induction fuel generalizing s BytesToRead with
  | zero => omega
  | succ fuel ih =>
    have removed (s : Session σ) :
        Acting c K N (do removeOpened c hFile; pure (StreamResult.mk false hFile bSeekOnly)) s
          fun r _ => Left K bSeekOnly r := by
      apply acting_bind (removeOpened_acts on)
      intro _ _ _ _
      exact acting_pure ⟨on, id⟩
    unfold dataStreamLoop
    split
    · apply acting_cancelled
      split
      · exact removed s
      · apply acting_bind (acting_readArchive 0 _)
        intro n s' _ facts
        rcases facts with ⟨-, left, -⟩
        split
        · exact acting_raise (by decide)
        · split
          · exact ih _ (by omega)
          · apply acting_bufferAt
            apply acting_bind (acting_call (.backupWrite hFile true _) on)
            intro written s'' fewer _
            split
            · exact ih _ (by omega)
            · exact removed s''
    · exact acting_pure ⟨on, id⟩

theorem seekSparseBlock_acts {hFile : Handle H} (on : On K hFile) {dwBytesRead : Nat}
    (filled : dwBytesRead = headerSize + firstBlock c.dwBufferSize s.header) (bSeekOnly : Bool) :
    Acting c K N (seekSparseBlock c hFile dwBytesRead bSeekOnly) s
      fun bSeekOnly' _ => bSeekOnly' = false → bSeekOnly = false := by
  unfold seekSparseBlock
  apply acting_header
  split
  · next write =>
    apply acting_bind (acting_locate .startPosition rfl filled (by simp))
    intro _ _ _ facts
    rcases facts with ⟨rfl, -⟩
    apply acting_bufferAt
    apply acting_bind (acting_call (.setFilePointer hFile _) on)
    intro _ _ _ _
    apply acting_bind (acting_call (.setEndOfFile hFile) on)
    intro _ _ _ _
    exact acting_pure fun _ => write.1
  · exact acting_pure id

theorem writeFileDataStreamFromArchive_acts {hFile : Handle H} (on : On K hFile) {dwBytesRead : Nat}
    (filled : dwBytesRead = headerSize + firstBlock c.dwBufferSize s.header) (BytesToRead : Int)
    (bSeekOnly : Bool) :
    Acting c K N (writeFileDataStreamFromArchive c hFile dwBytesRead BytesToRead bSeekOnly) s
      fun r _ => Left K bSeekOnly r := by
  unfold writeFileDataStreamFromArchive
  apply acting_bind (seekSparseBlock_acts on filled bSeekOnly)
  intro bSeekOnly' s₁ _ weaker
  split
  · next seek =>
    apply (dataStreamLoop_acts _ on bSeekOnly' _ (remaining_lt_fuel c s₁)).mono
    exact fun r _ _ left => ⟨left.1, fun write => weaker (left.2 write)⟩
  · next write =>
    rw [Bool.not_eq_true] at write
    apply acting_bufferAt
    apply acting_bind (acting_call (.backupWrite hFile false _) on)
    intro written s₂ _ _
    split
    · apply (dataStreamLoop_acts _ on false _ (remaining_lt_fuel c s₂)).mono
      exact fun r _ _ left => ⟨left.1, fun _ => weaker write⟩
    · apply acting_bind (removeTemporary_acts on)
      intro _ s₃ _ _
      apply (dataStreamLoop_acts _ (on_none K) true _ (remaining_lt_fuel c s₃)).mono
      exact fun r _ _ left => ⟨left.1, fun _ => weaker write⟩

theorem dataOffset_lt (h : Win32StreamId) : h.dataOffset < 2 ^ 32 := Nat.mod_lt _ (by norm_num)

theorem firstBlock_le (h : Win32StreamId) (large : headerSize ≤ c.dwBufferSize) :
    headerSize + firstBlock c.dwBufferSize h ≤ c.dwBufferSize := by
  have dword := c.isDword
  have room := dwordSub_of_le large dword
  unfold firstBlock
  dsimp only
  rw [room]
  split
  · split
    · omega
    · rw [lowPart]
      omega
  · omega

theorem left_of_payload {h : Win32StreamId} (large : headerSize ≤ c.dwBufferSize)
    (size : 0 < h.Size.toInt)
    (inside : h.dataOffset + dwordSub (headerSize + firstBlock c.dwBufferSize h) h.dataOffset ≤
      c.dwBufferSize) :
    -19 ≤ quadPart (h.dataOffset + h.Size.toInt - headerSize) - firstBlock c.dwBufferSize h := by
  have dword := c.isDword
  have offset := dataOffset_lt h
  have upper := BitVec.toInt_lt (x := h.Size)
  have filled := firstBlock_le (c := c) h large
  by_cases fits : (h.dataOffset : Int) + h.Size.toInt - headerSize < 2 ^ 63
  · have quad := quadPart_of_lt (x := h.dataOffset + h.Size.toInt - headerSize)
      (by simp only [headerSize]; omega) fits
    by_cases positive : quadPart (h.dataOffset + h.Size.toInt - headerSize) > 0
    · rw [firstBlock_of_pos _ positive, dwordSub_of_le large dword]
      split
      · omega
      · rw [lowPart]
        omega
    · rw [firstBlock_of_nonpos _ positive, quad]
      simp only [headerSize]
      omega
  · have quad := quadPart_of_ge (x := h.dataOffset + h.Size.toInt - headerSize)
      (by omega) (by simp only [headerSize] at *; omega)
    rw [firstBlock_of_nonpos _ (by simp only [headerSize] at *; omega)] at inside
    rw [dwordSub_of_lt (by simp only [headerSize] at *; omega) offset] at inside
    simp only [headerSize] at *
    omega

theorem alternateWriteLoop_acts (fuel : Nat) {hStream : Handle H} (on : On K hStream)
    (data size : Nat) (BytesToRead : Int)
    (enough : headerSize ≤ c.dwBufferSize → c.dwBufferSize < 2 ^ 32 - 19 →
      remaining c s < fuel ∧ -19 ≤ BytesToRead) :
    Acting c K N (alternateWriteLoop c hStream fuel data size BytesToRead) s fun _ _ => True := by
  induction fuel generalizing s data size BytesToRead with
  | zero =>
    apply acting_outOfFuel
    intro lower upper
    have none := (enough lower upper).1
    omega
  | succ fuel ih =>
    unfold alternateWriteLoop
    apply acting_bufferAt
    apply acting_bind (acting_call (.writeFile hStream _) on)
    intro written s₁ _ _
    split
    · apply acting_bind (acting_call (.deleteFile hStream) on)
      intro _ s₂ _ _
      exact skipArchive_acts _
    · split
      · exact acting_pure trivial
      · next notDone =>
        generalize block : (if BytesToRead > (c.dwBufferSize : Int) then c.dwBufferSize
          else lowPart BytesToRead) = next
        apply acting_bind (acting_locateBlock notDone block.symm)
        intro _ _ _ facts
        rcases facts with ⟨rfl, inside⟩
        apply acting_bind (acting_readArchive 0 _)
        intro n s₃ _ facts
        rcases facts with ⟨-, left, -⟩
        split
        · exact acting_raise (by decide)
        · next whole =>
          rw [not_not] at whole
          apply ih
          intro lower upper
          have more := enough lower upper
          have dword := c.isDword
          simp only [headerSize] at lower
          split at block
          · omega
          · rw [lowPart] at block
            omega

/-- What is known where the header loop of an alternate stream is left for another stream: its
    first block is in the buffer, and its header has been read. -/
def Followed (c : Config σ H) (K : H → Prop) (before : Nat) (bSeekOnly : Bool) :
    AlternateExit H → Session σ → Prop
  | .done result, s => result = true → remaining c s < before
  | .stream hStream dwBytesRead BytesToRead bSeekOnly', s =>
    On K hStream ∧ dwBytesRead = headerSize + firstBlock c.dwBufferSize s.header ∧
      BytesToRead = quadPart (s.header.dataOffset + s.header.Size.toInt - headerSize) -
        firstBlock c.dwBufferSize s.header ∧
      (bSeekOnly' = false → bSeekOnly = false) ∧ remaining c s < before

theorem alternateHeaderLoop_acts (fuel : Nat) {hStream : Handle H} (on : On K hStream)
    (bSeekOnly : Bool) (enough : remaining c s < fuel) {before : Nat} (start : remaining c s ≤ before) :
    Acting c K N (alternateHeaderLoop c fuel hStream bSeekOnly) s
      (Followed c K before bSeekOnly) := by
  induction fuel generalizing s hStream bSeekOnly with
  | zero => omega
  | succ fuel ih =>
    unfold alternateHeaderLoop
    apply acting_bind readStreamHeader_acts
    intro n s₁ _ facts
    rcases facts with ⟨bound, left⟩
    split
    · apply acting_bind (closeOpened_acts hStream)
      intro _ _ _ _
      exact acting_pure fun absurd => by cases absurd
    split
    · apply acting_bind (closeOpened_acts hStream)
      intro _ _ _ _
      exact acting_raise (by decide)
    next whole =>
    rw [not_not] at whole
    subst whole
    have fewer : remaining c s₁ < before := by
      simp only [headerSize] at left
      omega
    have enough : remaining c s₁ < fuel := by
      simp only [headerSize] at left
      omega
    apply acting_header
    split
    · apply acting_bind (closeOpened_acts hStream)
      intro _ s₂ _ _
      exact acting_pure fun _ => by omega
    · apply acting_bind fillEntireBuffer_acts
      intro filled s₂ _ facts
      rcases facts with ⟨size, same, rest⟩
      apply acting_header
      split
      · exact acting_pure ⟨on, by rw [size, same], by rw [rest, same], id, by omega⟩
      · next unnamed =>
        split
        · apply acting_bind (acting_passedOver (by omega) _)
          rintro _ _ _ rfl
          exact ih on bSeekOnly (by omega) (by omega)
        · next write =>
          rw [Bool.not_eq_true] at write
          apply acting_bind
            (writeFileDataStreamFromArchive_acts on (by rw [size, same]) filled.2 bSeekOnly)
          intro r s₃ _ facts
          rcases facts with ⟨on', weaker⟩
          split
          · apply (ih on' r.bSeekOnly (by omega) (by omega)).mono
            rintro (result | ⟨hNext, dwBytesRead, BytesToRead, bSeekOnly'⟩) s₄ _ followed
            · exact followed
            · exact ⟨followed.1, followed.2.1, followed.2.2.1, fun _ => write, followed.2.2.2.2⟩
          · apply acting_bind (acting_call (.deleteFile r.hFile) on')
            intro _ _ _ _
            apply acting_bind (closeOpened_acts r.hFile)
            intro _ _ _ _
            exact acting_pure fun absurd => by cases absurd

theorem createStream_acts {dwBytesRead : Nat}
    (filled : dwBytesRead = headerSize + firstBlock c.dwBufferSize s.header) (File : UnicodeString)
    (bSeekOnly : Bool) :
    Acting c K N (createStream c dwBytesRead File bSeekOnly) s fun created s' =>
      On K created.1 ∧ (created.2 = false → bSeekOnly = false) ∧ s'.header = s.header := by
  unfold createStream
  apply acting_header
  apply acting_bind (acting_locate .streamName rfl filled (by simp))
  intro _ _ _ facts
  rcases facts with ⟨rfl, -⟩
  apply acting_bufferAt
  apply acting_bind (acting_call (.createFile .stream _ _ _ _) trivial)
  intro created s₁ _ facts
  rcases facts with ⟨opens, same, -⟩
  refine acting_pure ⟨opens rfl, ?_, by rw [Session.header, same, Session.header]⟩
  intro write
  simp only [Bool.or_eq_false_iff] at write
  exact write.1.1

theorem writeStream_acts {hStream : Handle H} (on : On K hStream) {dwBytesRead : Nat}
    (filled : dwBytesRead = headerSize + firstBlock c.dwBufferSize s.header) {BytesToRead : Int}
    (left : BytesToRead = quadPart (s.header.dataOffset + s.header.Size.toInt - headerSize) -
      firstBlock c.dwBufferSize s.header) (bSeekOnly : Bool) :
    Acting c K N (writeStream c hStream dwBytesRead BytesToRead bSeekOnly) s fun _ _ => True := by
  unfold writeStream
  apply acting_header
  have data (s' : Session σ) (same : s'.header = s.header) : Acting c K N
      (writeData c hStream dwBytesRead BytesToRead bSeekOnly) s' fun _ _ => True := by
    unfold writeData
    apply acting_header
    rw [same]
    split
    · next sized =>
      apply acting_bind (acting_locate .payload (by rw [same]; rfl) (by rw [filled, same])
        (fun _ => by rw [same]; exact sized.2.1))
      intro _ _ _ facts
      rcases facts with ⟨rfl, inside⟩
      rw [filled] at inside
      apply acting_bind (alternateWriteLoop_acts _ on _ _ _ ?_)
      · intro _ _ _ _
        exact acting_pure trivial
      · intro lower _
        exact ⟨remaining_lt_fuel c _, left ▸ left_of_payload lower sized.2.1 inside⟩
    · apply acting_bind (skipArchive_acts _)
      intro _ _ _ _
      exact acting_pure trivial
  split
  · apply acting_bind (acting_call (.deviceIoControl hStream .setSparse) on)
    intro _ s' _ facts
    rcases facts with ⟨-, same, -⟩
    exact data s' (by rw [Session.header, same, Session.header])
  · exact data s rfl

theorem alternateLoop_acts (fuel : Nat) (File : UnicodeString) {dwBytesRead : Nat}
    (filled : dwBytesRead = headerSize + firstBlock c.dwBufferSize s.header) {BytesToRead : Int}
    (left : BytesToRead = quadPart (s.header.dataOffset + s.header.Size.toInt - headerSize) -
      firstBlock c.dwBufferSize s.header) (bSeekOnly : Bool) (enough : remaining c s < fuel)
    {before : Nat} (start : remaining c s ≤ before) :
    Acting c K N (alternateLoop c File fuel dwBytesRead BytesToRead bSeekOnly) s
      fun more s' => more = true → remaining c s' < before := by
  induction fuel generalizing s dwBytesRead BytesToRead bSeekOnly with
  | zero => omega
  | succ fuel ih =>
    unfold alternateLoop
    apply acting_bind (createStream_acts filled File bSeekOnly)
    intro created s₁ _ facts
    rcases facts with ⟨on, -, same⟩
    apply acting_bind (writeStream_acts on (by rw [filled, same]) (by rw [left, same]) created.2)
    intro _ s₂ _ _
    apply acting_bind
      (alternateHeaderLoop_acts _ on created.2 (remaining_lt_fuel c s₂) (Nat.le_refl _))
    rintro (result | ⟨hNext, dwBytesRead, BytesToRead, bSeekOnly⟩) s₃ _ followed
    · exact acting_pure fun more => by
        have fewer := followed more
        omega
    · obtain ⟨_, filled, left, -, fewer⟩ := followed
      apply acting_bind (acting_call (.close hNext) trivial)
      intro _ s₄ _ facts
      rcases facts with ⟨-, same, pos⟩
      have header : s₄.header = s₃.header := by rw [Session.header, same, Session.header]
      have size : remaining c s₄ = remaining c s₃ := by rw [remaining, pos, remaining]
      exact ih (by rw [filled, header]) (by rw [left, header]) bSeekOnly (by omega) (by omega)

theorem streamLoop_acts (fuel : Nat) (File : UnicodeString) {dwBytesRead : Nat}
    (header : dwBytesRead ≤ headerSize) {hFile : Handle H} (on : On K hFile) {bSeekOnly : Bool}
    (named : bSeekOnly = false → N File)
    (enough : remaining c s + 1 < fuel ∨ dwBytesRead = 0 ∧ 0 < fuel) :
    Acting c K N (streamLoop c File fuel dwBytesRead hFile bSeekOnly) s
      fun r _ => Left K bSeekOnly r := by
  induction fuel generalizing s dwBytesRead hFile bSeekOnly with
  | zero => omega
  | succ fuel ih =>
    unfold streamLoop
    apply acting_cancelled
    split
    · apply acting_bind (removeOpened_acts on)
      intro _ _ _ _
      exact acting_pure ⟨on, id⟩
    split
    · exact acting_pure ⟨on, id⟩
    split
    · exact acting_raise (by decide)
    next whole =>
    have whole : dwBytesRead = headerSize := by omega
    subst whole
    have enough : remaining c s + 1 < fuel + 1 := by
      simp only [headerSize] at enough
      omega
    apply acting_header
    split
    · exact acting_pure ⟨on, id⟩
    apply acting_bind fillEntireBuffer_acts
    intro filled s₁ _ facts
    rcases facts with ⟨size, same, left⟩
    have size : filled.1 = headerSize + firstBlock c.dwBufferSize s₁.header := by rw [size, same]
    have left : filled.2 = quadPart (s₁.header.dataOffset + s₁.header.Size.toInt - headerSize) -
        firstBlock c.dwBufferSize s₁.header := by rw [left, same]
    apply acting_header
    split
    · apply acting_bind (writeFileHardLinkFromArchive_acts on size named)
      intro hFile' s₂ _ on'
      apply acting_bind readStreamHeader_acts
      intro n s₃ _ facts
      rcases facts with ⟨bound, taken⟩
      exact ih bound on' named (by omega)
    · split
      · apply acting_bind
          (alternateLoop_acts _ File size left bSeekOnly (remaining_lt_fuel c s₁) (Nat.le_refl _))
        intro more s₂ _ fewer
        refine ih (by split <;> simp [headerSize]) on named ?_
        split
        · next isMore =>
          have fewer := fewer isMore
          omega
        · omega
      · apply acting_bind (writeFileDataStreamFromArchive_acts on size filled.2 bSeekOnly)
        intro r s₂ _ facts
        rcases facts with ⟨on', weaker⟩
        apply acting_bind readStreamHeader_acts
        intro n s₃ _ facts
        rcases facts with ⟨bound, taken⟩
        split
        · apply (ih bound on' (fun write => named (weaker write)) (by omega)).mono
          exact fun r' _ _ left' => ⟨left'.1, fun write => weaker (left'.2 write)⟩
        · exact acting_pure ⟨on', weaker⟩

theorem writeFileFromArchive_acts (File : UnicodeString) {hFile : Handle H} (on : On K hFile)
    {bSeekOnly : Bool} (named : bSeekOnly = false → N File) :
    Acting c K N (writeFileFromArchive c File hFile bSeekOnly) s fun r _ => Left K bSeekOnly r := by
  unfold writeFileFromArchive
  apply acting_bind readStreamHeader_acts
  intro n s₁ _ facts
  rcases facts with ⟨bound, -⟩
  apply streamLoop_acts _ File bound on named
  left
  simp only [remaining, Config.fuel]
  omega

end StrArc
