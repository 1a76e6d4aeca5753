import LtrData.StrArc.Belonging
import LtrData.StrArc.CopyPipe

namespace StrArc

open Traced

variable {σ H : Type} {c : Config σ H} {s : Session σ}

/-- Nothing fails but BackupWrite, and no object gets the handle `h`. -/
def OnlyWritesFail (h : H) (e : Event H) : Prop :=
  match e with
  | .call (.backupWrite ..) _ => True
  | e => Succeeded e ∧ Opens (· ≠ h) e

def NoneRefused (t : List (Event H)) : Prop :=
  ∀ hFile continued data reply, .call (.backupWrite hFile continued data) reply ∈ t →
    reply.isSuccess = true

/-- A later block of a stream of the file itself is refused. -/
def RefusedLater (h : H) (t : List (Event H)) : Prop :=
  ∃ data reply, .call (.backupWrite (some h) true data) reply ∈ t ∧ reply.isSuccess = false

/-- Neither a block nor the end of the file that `h` is open on. -/
def SparesFile (h : H) : Event H → Prop
  | .call (.backupWrite hFile ..) _ => hFile ≠ some h
  | .call (.close hFile) _ => hFile ≠ some h
  | _ => True

/-- What is done for one stream or more of the file that `h` is open on. -/
structure Own (h : H) (t : List (Event H)) (result : Bool) : Prop where
  refused : result = false ↔ RefusedLater h t
  closes : ∀ reply, .call (.close (some h)) reply ∈ t → ¬ NoneRefused t

theorem own_of_spares {h : H} {t : List (Event H)} (spares : ∀ e ∈ t, SparesFile h e) : Own h t true := by
  refine ⟨⟨fun absurd => (by cases absurd), ?_⟩, fun reply mem => ?_⟩
  · intro facts
    rcases facts with ⟨data, reply, mem, -⟩
    exact absurd rfl (spares _ mem)
  · exact absurd rfl (spares _ mem)

theorem own_accepted {h : H} {reply : Reply H} (accepted : reply.isSuccess = true) (continued : Bool)
    (data : List BYTE) : Own h [.call (.backupWrite (some h) continued data) reply] true := by
  refine ⟨⟨fun absurd => (by cases absurd), ?_⟩, fun reply mem => ?_⟩
  · intro facts
    rcases facts with ⟨data', reply', mem, refused⟩
    simp only [List.mem_singleton, Event.call.injEq] at mem
    rw [mem.2, accepted] at refused
    cases refused
  · simp at mem

theorem own_givenUp {h : H} {reply : Reply H} (refused : ¬ reply.isSuccess = true) (data : List BYTE)
    (deleted closed : Reply H) :
    Own h [.call (.backupWrite (some h) false data) reply, .call (.deleteFile (some h)) deleted,
      .call (.close (some h)) closed] true := by
  refine ⟨⟨fun absurd => (by cases absurd), ?_⟩, fun _ _ none => ?_⟩
  · intro facts
    rcases facts with ⟨data', reply', mem, -⟩
    simp at mem
  · exact refused (none _ _ _ _ List.mem_cons_self)

theorem own_refused {h : H} {data : List BYTE} {reply : Reply H} {t : List (Event H)}
    (mem : .call (.backupWrite (some h) true data) reply ∈ t) (refused : ¬ reply.isSuccess = true) :
    Own h t false := by
  refine ⟨⟨fun _ => ⟨data, reply, mem, eq_false_of_ne_true refused⟩, fun _ => rfl⟩, fun _ _ none => ?_⟩
  exact refused (none _ _ _ _ mem)

theorem Own.append {h : H} {t t' : List (Event H)} {result : Bool} (first : Own h t true)
    (second : Own h t' result) : Own h (t ++ t') result := by
  refine ⟨⟨fun failed => ?_, ?_⟩, fun reply mem none => ?_⟩
  · obtain ⟨data, reply, mem, refused⟩ := second.refused.mp failed
    exact ⟨data, reply, List.mem_append_right t mem, refused⟩
  · intro facts
    rcases facts with ⟨data, reply, mem, refused⟩
    rcases List.mem_append.mp mem with mem | mem
    · exact absurd (first.refused.mpr ⟨data, reply, mem, refused⟩) (by decide)
    · exact second.refused.mpr ⟨data, reply, mem, refused⟩
  · rcases List.mem_append.mp mem with mem | mem
    · exact first.closes reply mem fun _ _ _ _ mem => none _ _ _ _ (List.mem_append_left t' mem)
    · exact second.closes reply mem fun _ _ _ _ mem => none _ _ _ _ (List.mem_append_right t mem)

theorem Own.append_any {h : H} {t : List (Event H)} (own : Own h t false) (t' : List (Event H)) :
    Own h (t ++ t') false := by
  obtain ⟨data, reply, mem, refused⟩ := own.refused.mp rfl
  exact own_refused (List.mem_append_left t' mem) (by simp [refused])

/-- The run leaves the file that `h` is open on as it is. -/
def Sparing {α : Type} (h : H) (x : Restore σ H α) (s : Session σ) (Q : α → Session σ → Prop) : Prop :=
  Along (OnlyWritesFail h) (fun _ t _ => ∀ e ∈ t, SparesFile h e) (fun _ => True) x s fun _ => Q

section Sparing

variable {α β : Type} {h : H} {x : Restore σ H α} {f : α → Restore σ H β}

theorem sparing_pure {a : α} {Q : α → Session σ → Prop} (holds : Q a s) :
    Sparing h (pure a : Restore σ H α) s Q := along_pure (composes_made _) holds

theorem sparing_raise {e : XError} {Q : α → Session σ → Prop} :
    Sparing h (raise e : Restore σ H α) s Q := along_raise (composes_made _) trivial

theorem sparing_bind {Q : α → Session σ → Prop} {Q' : β → Session σ → Prop} (first : Sparing h x s Q)
    (next : ∀ a s', Q a s' → Sparing h (f a) s' Q') : Sparing h (x >>= f) s Q' :=
  along_bind (composes_made _) first fun _ a s' _ => next a s'

theorem sparing_silent {a : α} {s' : Session σ} (run : x s = .ok [] a s') {Q : β → Session σ → Prop}
    (next : Sparing h (f a) s' Q) : Sparing h (x >>= f) s Q :=
  along_bind_ok (composes_made _) run (by simp) next

theorem Sparing.mono {Q Q' : α → Session σ → Prop} (spares : Sparing h x s Q)
    (weaker : ∀ a s', Q a s' → Q' a s') : Sparing h x s Q' :=
  Along.mono spares fun _ a s' _ => weaker a s'

theorem Sparing.along {Q : α → Session σ → Prop} (spares : Sparing h x s Q) :
    Along (OnlyWritesFail h) (fun _ _ _ => True) (fun _ => True) x s fun t a s' =>
      (∀ e ∈ t, SparesFile h e) ∧ Q a s' :=
  Ensures.mono spares (fun _ _ _ both all => ⟨trivial, both all⟩) fun _ _ _ _ _ => ⟨trivial, trivial⟩

theorem sparing_header {f : Win32StreamId → Restore σ H β} {Q : β → Session σ → Prop}
    (next : Sparing h (f s.header) s Q) : Sparing h (header >>= f) s Q :=
  sparing_silent (header_run s) next

theorem sparing_bufferAt {f : List BYTE → Restore σ H β} {Q : β → Session σ → Prop}
    {offset length : Nat} (next : Sparing h (f (s.Buffer.read offset length)) s Q) :
    Sparing h (bufferAt offset length >>= f) s Q := sparing_silent (bufferAt_run offset length s) next

theorem sparing_call (request : Call H) (other : ∀ reply, SparesFile h (.call request reply)) :
    Sparing h (call c request) s fun reply s' =>
      (request.creates → On (· ≠ h) reply.handle) ∧ s'.Buffer = s.Buffer := by
  refine along_of_ok (call_run c request s) fun all => ⟨?_, fun creates h' opened => ?_, rfl⟩
  · simpa using other _
  · have kept := all _ (List.mem_singleton_self _)
    cases request <;> try cases creates
    all_goals
      cases reply : (c.system _ s.disk).1 <;> rw [reply] at opened kept <;>
        simp only [Reply.handle, Option.some.injEq, reduceCtorEq] at opened
      subst opened
      exact kept.2 rfl

theorem sparing_note (e : Event H) (other : SparesFile h e) :
    Sparing h (note e : Restore σ H Unit) s fun _ s' => s' = s :=
  along_of_ok rfl fun _ => ⟨by simpa using other, rfl⟩

theorem sparing_locate (position : Position) (dwBytesRead offset length : Nat) :
    Sparing h (locate c position dwBytesRead offset length) s fun _ s' => s' = s := by
  by_cases inside : offset + length ≤ c.dwBufferSize
  · exact along_of_ok (by simp only [locate, inside, if_true]; rfl) fun _ => ⟨by simp [SparesFile], rfl⟩
  · exact along_of_error (by simp only [locate, inside, if_false]; rfl) fun _ => ⟨by simp [SparesFile], trivial⟩

theorem sparing_locateBlock (BytesToRead : Int) (size : Nat) :
    Sparing h (locateBlock c BytesToRead size) s fun _ s' => s' = s := by
  by_cases inside : size ≤ c.dwBufferSize
  · exact along_of_ok (by simp only [locateBlock, inside, if_true]; rfl) fun _ => ⟨by simp [SparesFile], rfl⟩
  · exact along_of_error (by simp only [locateBlock, inside, if_false]; rfl) fun _ =>
      ⟨by simp [SparesFile], trivial⟩

theorem sparing_readArchive (lpBuf dwSize : Nat) :
    Sparing h (readArchive c lpBuf dwSize) s fun _ _ => True :=
  along_of_ok (readArchive_run c lpBuf dwSize s) fun _ => ⟨by simp, trivial⟩

theorem sparing_readStreamHeader : Sparing h (readStreamHeader c) s fun _ _ => True := by
  unfold readStreamHeader
  apply sparing_silent (readArchive_run c 0 headerSize s)
  split
  · apply sparing_silent (clearHeader_run _)
    exact sparing_pure trivial
  · exact sparing_pure trivial

theorem sparing_skipArchive (BytesToRead : Int) : Sparing h (skipArchive c BytesToRead) s fun _ _ => True := by
  unfold skipArchive
  induction c.fuel generalizing s BytesToRead with
  | zero => exact sparing_raise
  | succ fuel ih =>
    unfold skipLoop
    split
    · apply sparing_silent (cancelled_run c s)
      split
      · exact sparing_pure trivial
      · apply sparing_bind (sparing_readArchive 0 _)
        intro n s₁ _
        split
        · exact sparing_raise
        · exact ih _
    · exact sparing_pure trivial

theorem sparing_showHeader (dwBytesRead : Nat) : Sparing h (showHeader c dwBytesRead) s fun _ _ => True := by
  have located {position : Position} {offset length : Nat} {s : Session σ} :
      Sparing h (locate c position dwBytesRead offset length) s fun _ _ => True :=
    (sparing_locate position dwBytesRead offset length).mono fun _ _ _ => trivial
  have name : Sparing h (showName c dwBytesRead) s fun _ _ => True := by
    unfold showName
    apply sparing_header
    split
    · exact located
    · exact sparing_pure trivial
  unfold showHeader
  split
  · apply sparing_bind name
    intro _ s' _
    unfold showData
    apply sparing_header
    split
    · exact located
    · split
      · exact located
      · exact sparing_pure trivial
  · exact sparing_pure trivial

theorem sparing_fillEntireBuffer (dwBytesRead : Nat) :
    Sparing h (fillEntireBuffer c dwBytesRead) s fun _ _ => True := by
  have first : Sparing h (fillFirstBlock c dwBytesRead) s fun _ _ => True := by
    unfold fillFirstBlock
    apply sparing_header
    dsimp only
    split
    · generalize (ite ((_ : Int) > _) (dwordSub _ _) (lowPart _)) = size
      split
      · apply sparing_bind (sparing_readArchive dwBytesRead size)
        intro n s₁ _
        split
        · exact sparing_raise
        · exact sparing_pure trivial
      · exact sparing_pure trivial
    · exact sparing_pure trivial
  unfold fillEntireBuffer
  apply sparing_bind first
  intro filled s₁ _
  apply sparing_bind (sparing_showHeader filled.1)
  intro _ _ _
  exact sparing_pure trivial

variable {hFile : Handle H}

theorem spares_of_on (on : On (· ≠ h) hFile) : hFile ≠ some h := fun same => on h same rfl

theorem sparing_removeTemporary (on : On (· ≠ h) hFile) :
    Sparing h (removeTemporary c hFile) s fun _ _ => True := by
  unfold removeTemporary
  apply sparing_bind (sparing_call (.deleteFile hFile) fun _ => trivial)
  intro _ s₁ _
  apply sparing_bind (sparing_call (.close hFile) fun _ => spares_of_on on)
  intro _ _ _
  exact sparing_pure trivial

theorem sparing_closeOpened (on : On (· ≠ h) hFile) :
    Sparing h (closeOpened c hFile) s fun _ s' => s'.Buffer = s.Buffer := by
  unfold closeOpened
  split
  · apply sparing_bind (sparing_call (.close hFile) fun _ => spares_of_on on)
    intro _ s₁ same
    exact sparing_pure same.2
  · exact sparing_pure rfl

/-- A stream that is passed over is passed over as a whole. -/
def Passed (hFile : Handle H) (bSeekOnly : Bool) (r : StreamResult H) : Prop :=
  bSeekOnly = true → r = ⟨true, hFile, true⟩

theorem sparing_dataStreamLoop (quiet : ∀ pos, c.bCancel pos = false) (on : On (· ≠ h) hFile)
    (bSeekOnly : Bool) (fuel : Nat) (BytesToRead : Int) :
    Sparing h (dataStreamLoop c hFile bSeekOnly fuel BytesToRead) s fun r _ =>
      On (· ≠ h) r.hFile ∧ Passed hFile bSeekOnly r := by
  induction fuel generalizing s BytesToRead with
  | zero => exact sparing_raise
  | succ fuel ih =>
    unfold dataStreamLoop
    split
    · apply sparing_silent (cancelled_run c s)
      rw [quiet, if_neg Bool.false_ne_true]
      apply sparing_bind (sparing_readArchive 0 _)
      intro n s₁ _
      split
      · exact sparing_raise
      · split
        · exact ih _
        · next write =>
          apply sparing_bufferAt
          apply sparing_bind (sparing_call (.backupWrite hFile true _) fun _ => spares_of_on on)
          intro written s₂ _
          split
          · exact ih _
          · unfold removeOpened
            split
            · apply sparing_bind (sparing_removeTemporary on)
              intro _ _ _
              exact sparing_pure ⟨on, fun seek => absurd seek write⟩
            · exact sparing_pure ⟨on, fun seek => absurd seek write⟩
    · refine sparing_pure ⟨on, fun seek => ?_⟩
      rw [seek]

theorem sparing_seekSparseBlock (hFile : Handle H) (dwBytesRead : Nat) (bSeekOnly : Bool) :
    Sparing h (seekSparseBlock c hFile dwBytesRead bSeekOnly) s fun seek _ =>
      bSeekOnly = true → seek = true := by
  unfold seekSparseBlock
  apply sparing_header
  split
  · next write =>
    apply sparing_bind (sparing_locate .startPosition _ _ _)
    rintro _ _ rfl
    apply sparing_bufferAt
    apply sparing_bind (sparing_call (.setFilePointer hFile _) fun _ => trivial)
    intro _ s₁ _
    apply sparing_bind (sparing_call (.setEndOfFile hFile) fun _ => trivial)
    intro _ s₂ _
    refine sparing_pure fun seek => ?_
    rw [write.1] at seek
    cases seek
  · exact sparing_pure id

theorem sparing_writeFileDataStreamFromArchive (quiet : ∀ pos, c.bCancel pos = false)
    (on : On (· ≠ h) hFile) (dwBytesRead : Nat) (BytesToRead : Int) (bSeekOnly : Bool) :
    Sparing h (writeFileDataStreamFromArchive c hFile dwBytesRead BytesToRead bSeekOnly) s fun r _ =>
      On (· ≠ h) r.hFile ∧ Passed hFile bSeekOnly r := by
  unfold writeFileDataStreamFromArchive
  apply sparing_bind (sparing_seekSparseBlock hFile dwBytesRead bSeekOnly)
  intro seek s₁ stays
  split
  · next seeks =>
    rw [seeks]
    exact (sparing_dataStreamLoop quiet on true _ _).mono fun r _ passed =>
      ⟨passed.1, fun _ => passed.2 rfl⟩
  · next write =>
    have open_ (seek_only : bSeekOnly = true) : False := write (stays seek_only)
    apply sparing_bufferAt
    apply sparing_bind (sparing_call (.backupWrite hFile false _) fun _ => spares_of_on on)
    intro written s₂ _
    split
    · exact (sparing_dataStreamLoop quiet on false _ _).mono fun r _ passed =>
        ⟨passed.1, fun seek => (open_ seek).elim⟩
    · apply sparing_bind (sparing_removeTemporary on)
      intro _ s₃ _
      exact (sparing_dataStreamLoop quiet (on_none _) true _ _).mono fun r _ passed =>
        ⟨passed.1, fun seek => (open_ seek).elim⟩

theorem sparing_alternateWriteLoop (fuel data size : Nat) (BytesToRead : Int) :
    Sparing h (alternateWriteLoop c hFile fuel data size BytesToRead) s fun _ _ => True := by
  induction fuel generalizing s data size BytesToRead with
  | zero => exact sparing_raise
  | succ fuel ih =>
    unfold alternateWriteLoop
    apply sparing_bufferAt
    apply sparing_bind (sparing_call (.writeFile hFile _) fun _ => trivial)
    intro written s₁ _
    split
    · apply sparing_bind (sparing_call (.deleteFile hFile) fun _ => trivial)
      intro _ s₂ _
      exact sparing_skipArchive _
    · split
      · exact sparing_pure trivial
      · dsimp only
        generalize (ite ((_ : Int) > _) c.dwBufferSize (lowPart _)) = next
        apply sparing_bind (sparing_locateBlock BytesToRead next)
        intro _ s₂ _
        apply sparing_bind (sparing_readArchive 0 next)
        intro n s₃ _
        split
        · exact sparing_raise
        · exact ih _ _ _

theorem sparing_writeStream (dwBytesRead : Nat) (BytesToRead : Int) (bSeekOnly : Bool) :
    Sparing h (writeStream c hFile dwBytesRead BytesToRead bSeekOnly) s fun _ _ => True := by
  have data (s : Session σ) :
      Sparing h (writeData c hFile dwBytesRead BytesToRead bSeekOnly) s fun _ _ => True := by
    unfold writeData
    apply sparing_header
    split
    · apply sparing_bind (sparing_locate .payload _ _ _)
      intro _ s₁ _
      apply sparing_bind (sparing_alternateWriteLoop _ _ _ _)
      intro _ _ _
      exact sparing_pure trivial
    · apply sparing_bind (sparing_skipArchive _)
      intro _ _ _
      exact sparing_pure trivial
  unfold writeStream
  apply sparing_header
  split
  · apply sparing_bind (sparing_call (.deviceIoControl hFile .setSparse) fun _ => trivial)
    intro _ s₁ _
    exact data s₁
  · exact data s

theorem sparing_createStream (dwBytesRead : Nat) (File : UnicodeString) (bSeekOnly : Bool) :
    Sparing h (createStream c dwBytesRead File bSeekOnly) s fun created _ => On (· ≠ h) created.1 := by
  unfold createStream
  apply sparing_header
  apply sparing_bind (sparing_locate .streamName _ _ _)
  intro _ s₁ _
  apply sparing_bufferAt
  apply sparing_bind (sparing_call (.createFile .stream _ _ _ _) fun _ => trivial)
  intro created s₂ opens
  exact sparing_pure (opens.1 rfl)

/-- The header loop is left with another handle, or where the next object begins. -/
def LeftAt (h : H) : AlternateExit H → Session σ → Prop
  | .done result, s => result = true → isNewFileHeader s.header = true
  | .stream hStream .., _ => On (· ≠ h) hStream

theorem sparing_alternateHeaderLoop (quiet : ∀ pos, c.bCancel pos = false) (fuel : Nat)
    (on : On (· ≠ h) hFile) (bSeekOnly : Bool) :
    Sparing h (alternateHeaderLoop c fuel hFile bSeekOnly) s (LeftAt h) := by
  induction fuel generalizing s hFile bSeekOnly with
  | zero => exact sparing_raise
  | succ fuel ih =>
    unfold alternateHeaderLoop
    apply sparing_bind sparing_readStreamHeader
    intro n s₁ _
    split
    · apply sparing_bind (sparing_closeOpened on)
      intro _ _ _
      exact sparing_pure fun absurd => by cases absurd
    · split
      · apply sparing_bind (sparing_closeOpened on)
        intro _ _ _
        exact sparing_raise
      · apply sparing_header
        split
        · next new =>
          apply sparing_bind (sparing_closeOpened on)
          intro _ s₂ same
          refine sparing_pure fun _ => ?_
          rw [Session.header, same]
          exact new
        · apply sparing_bind (sparing_fillEntireBuffer n)
          intro filled s₂ _
          apply sparing_header
          split
          · exact sparing_pure on
          · split
            · apply sparing_bind (sparing_note (.passedOver _ _) trivial)
              intro _ s₃ _
              exact ih on bSeekOnly
            · apply sparing_bind (sparing_writeFileDataStreamFromArchive quiet on filled.1 filled.2 bSeekOnly)
              intro r s₃ facts
              rcases facts with ⟨on', -⟩
              split
              · exact ih on' r.bSeekOnly
              · apply sparing_bind (sparing_call (.deleteFile r.hFile) fun _ => trivial)
                intro _ s₄ _
                apply sparing_bind (sparing_closeOpened on')
                intro _ _ _
                exact sparing_pure fun absurd => by cases absurd

theorem sparing_alternateLoop (quiet : ∀ pos, c.bCancel pos = false) (File : UnicodeString) (fuel : Nat)
    (dwBytesRead : Nat) (BytesToRead : Int) (bSeekOnly : Bool) :
    Sparing h (alternateLoop c File fuel dwBytesRead BytesToRead bSeekOnly) s fun more s' =>
      more = true → isNewFileHeader s'.header = true := by
  induction fuel generalizing s dwBytesRead BytesToRead bSeekOnly with
  | zero => exact sparing_raise
  | succ fuel ih =>
    unfold alternateLoop
    apply sparing_bind (sparing_createStream dwBytesRead File bSeekOnly)
    intro created s₁ on
    apply sparing_bind (sparing_writeStream dwBytesRead BytesToRead created.2)
    intro _ s₂ _
    apply sparing_bind (sparing_alternateHeaderLoop quiet c.fuel on created.2)
    intro exit s₃ left
    cases exit with
    | done result => exact sparing_pure left
    | stream hStream dwBytesRead BytesToRead bSeekOnly =>
      apply sparing_bind (sparing_call (.close hStream) fun _ => spares_of_on left)
      intro _ s₄ _
      exact ih dwBytesRead BytesToRead bSeekOnly

theorem sparing_streamLoop (quiet : ∀ pos, c.bCancel pos = false) (File : UnicodeString) (fuel : Nat)
    (dwBytesRead : Nat) :
    Sparing h (streamLoop c File fuel dwBytesRead none true) s fun r _ => r.result = true := by
  induction fuel generalizing s dwBytesRead with
  | zero => exact sparing_raise
  | succ fuel ih =>
    unfold streamLoop
    apply sparing_silent (cancelled_run c s)
    rw [quiet, if_neg Bool.false_ne_true]
    split
    · exact sparing_pure rfl
    · split
      · exact sparing_raise
      · apply sparing_header
        split
        · exact sparing_pure rfl
        · apply sparing_bind (sparing_fillEntireBuffer dwBytesRead)
          intro filled s₁ _
          apply sparing_header
          rw [if_neg (by simp), if_neg (by simp)]
          apply sparing_bind
            (sparing_writeFileDataStreamFromArchive quiet (on_none _) filled.1 filled.2 true)
          intro r s₂ facts
          rcases facts with ⟨-, passed⟩
          obtain rfl := passed rfl
          apply sparing_bind sparing_readStreamHeader
          intro n s₃ _
          rw [if_pos rfl]
          exact ih n

theorem sparing_streamLoop_ended (quiet : ∀ pos, c.bCancel pos = false) (File : UnicodeString)
    (fuel : Nat) (hFile : Handle H) (bSeekOnly : Bool) {more : Bool}
    (new : more = true → isNewFileHeader s.header = true) :
    Sparing h (streamLoop c File fuel (if more then headerSize else 0) hFile bSeekOnly) s fun r _ =>
      r.result = true := by
  cases fuel with
  | zero => exact sparing_raise
  | succ fuel =>
    unfold streamLoop
    apply sparing_silent (cancelled_run c s)
    rw [quiet, if_neg Bool.false_ne_true]
    cases more with
    | false => exact sparing_pure rfl
    | true =>
      rw [if_pos rfl, if_neg (by decide), if_neg (by decide)]
      apply sparing_header
      rw [if_pos (new rfl)]
      exact sparing_pure rfl

end Sparing

theorem provided_removeTemporary {kept : Event H → Prop} (hFile : Handle H) :
    Provided kept LinkWhole (removeTemporary c hFile) s fun t _ s' => Same s s' ∧ ∃ deleted closed,
      t = [.call (.deleteFile hFile) deleted, .call (.close hFile) closed] := by
  unfold removeTemporary
  apply provided_bind (provided_call _)
  intro _ deleted s₁ facts
  rcases facts with ⟨rfl, -, same⟩
  apply provided_bind (provided_call _)
  intro _ closed s₂ facts
  rcases facts with ⟨rfl, -, same'⟩
  exact provided_pure ⟨same.trans same', deleted, closed, rfl⟩

section Own

variable [DecidableEq H] {h : H}

theorem provided_own_dataStreamLoop (quiet : ∀ pos, c.bCancel pos = false)
    (large : headerSize ≤ c.dwBufferSize) (fuel : Nat) {xs rest : List BYTE}
    (at_ : Rest c s (xs ++ rest)) (enough : xs.length < fuel) :
    Provided (OnlyWritesFail h) LinkWhole (dataStreamLoop c (some h) false fuel xs.length) s fun t r s' =>
      Own h t r.result ∧ (r.result = true → r = ⟨true, some h, false⟩ ∧ Rest c s' rest) := by
  have twenty : headerSize = 20 := rfl
  induction fuel generalizing s xs with
  | zero => omega
  | succ fuel ih =>
    unfold dataStreamLoop
    split
    · apply provided_bind_ok (cancelled_run c s)
      intro _
      rw [quiet, if_neg Bool.false_ne_true]
      apply provided_readBlock at_
      intro s₁ at₁ buffer
      have taken := List.length_take (i := c.dwBufferSize) (l := xs)
      have left := List.length_drop (i := c.dwBufferSize) (l := xs)
      rw [if_neg (by omega), left_block, if_neg Bool.false_ne_true]
      apply provided_bind_ok (bufferAt_run 0 _ s₁)
      intro _
      apply provided_bind (provided_call _)
      intro _ reply s₂ facts
      rcases facts with ⟨rfl, -, same⟩
      by_cases accepted : reply.isSuccess = true
      · rw [if_pos accepted]
        apply (ih (same.rest at₁) (by omega)).mono
        intro t r s' facts
        rcases facts with ⟨own, ends⟩
        exact ⟨(own_accepted accepted true _).append own, ends⟩
      · rw [if_neg accepted]
        rw [removeOpened, Option.isSome_some, if_pos rfl]
        apply provided_bind (harmless_removeTemporary (some h))
        intro t _ s₃ _
        refine provided_pure ⟨own_refused List.mem_cons_self accepted, fun absurd => by cases absurd⟩
    · have empty : xs = [] := by
        apply List.eq_nil_of_length_eq_zero
        omega
      subst empty
      exact provided_pure ⟨own_of_spares (by simp), fun _ => ⟨rfl, at_⟩⟩

theorem provided_own_seekSparseBlock {stream : Stream} {k : Nat} {rest : List BYTE}
    (wf : stream.WellFormed c.dwBufferSize) (filled : Filled c s stream k rest) :
    Provided (OnlyWritesFail h) LinkWhole (seekSparseBlock c (some h) (headerSize + k) false) s
      fun t seek s' => (seek = false ∧ Same s s') ∧ ∀ e ∈ t, SparesFile h e := by
  have sought : Provided (OnlyWritesFail h) LinkWhole
      (seekSparseBlock c (some h) (headerSize + k) false) s fun _ seek s' => seek = false ∧ Same s s' := by
    unfold seekSparseBlock
    apply provided_bind_ok (header_run s)
    intro _
    rw [filled.loaded.header, wf.nameSize]
    split
    · next sparse =>
      obtain ⟨-, id, -⟩ := sparse
      apply provided_bind (provided_locate .startPosition (wf.sparse id) nofun)
      intro t _ _ facts
      rcases facts with ⟨-, rfl⟩
      apply provided_bind_ok (bufferAt_run _ _ _)
      intro _
      apply provided_bind (provided_call _)
      intro _ sought s₁ facts
      rcases facts with ⟨rfl, heldSought, same⟩
      apply provided_bind (provided_call _)
      intro _ cut s₂ facts
      rcases facts with ⟨rfl, heldCut, same'⟩
      have first : sought.isSuccess = true := heldSought.1
      have second : cut.isSuccess = true := heldCut.1
      exact provided_pure ⟨by rw [first, second]; rfl, same.trans same'⟩
    · exact provided_pure ⟨rfl, Same.refl s⟩
  apply (sought.and (sparing_seekSparseBlock (h := h) (some h) (headerSize + k) false) fun _ => id).mono
  intro t seek s' facts
  rcases facts with ⟨value, spares, -⟩
  exact ⟨value, spares⟩

/-- A stream of the file is written as a whole, or the file is given up. -/
theorem provided_own_writeFileDataStreamFromArchive (quiet : ∀ pos, c.bCancel pos = false)
    (large : headerSize ≤ c.dwBufferSize) {stream : Stream} {k : Nat} {rest : List BYTE}
    (wf : stream.WellFormed c.dwBufferSize) (filled : Filled c s stream k rest) :
    Provided (OnlyWritesFail h) LinkWhole (writeFileDataStreamFromArchive c (some h) (headerSize + k)
      (stream.body.drop k).length false) s fun t r s' => Own h t r.result ∧
        (r.result = true → r = ⟨true, some h, false⟩ ∧ Rest c s' rest ∨ r = ⟨true, none, true⟩) := by
  unfold writeFileDataStreamFromArchive
  apply provided_bind (provided_own_seekSparseBlock wf filled)
  intro t _ s₁ facts
  rcases facts with ⟨⟨rfl, same⟩, spares⟩
  have filled₁ := same.filled filled
  rw [if_neg Bool.false_ne_true]
  apply provided_bind_ok (bufferAt_run 0 _ s₁)
  intro _
  apply provided_bind (provided_call _)
  intro _ reply s₂ facts
  rcases facts with ⟨rfl, -, same₂⟩
  have at₂ := same₂.rest filled₁.rest
  by_cases accepted : reply.isSuccess = true
  · rw [if_pos accepted]
    apply (provided_own_dataStreamLoop quiet large c.fuel at₂ at₂.lt_fuel).mono
    intro t' r s' facts
    rcases facts with ⟨own, ends⟩
    exact ⟨(own_of_spares spares).append ((own_accepted accepted false _).append own),
      fun more => .inl (ends more)⟩
  · rw [if_neg accepted]
    apply provided_bind (provided_removeTemporary (some h))
    intro _ _ s₃ facts
    rcases facts with ⟨same₃, deleted, closed, rfl⟩
    have at₃ := same₃.rest at₂
    apply ((provided_dataStreamLoop quiet large none true (fun absurd => by cases absurd) c.fuel at₃
      at₃.lt_fuel).and (sparing_dataStreamLoop quiet (on_none (· ≠ h)) true c.fuel _) fun _ => id).mono
    intro t' r s' facts
    rcases facts with ⟨⟨at', rfl, -⟩, spares', -⟩
    refine ⟨(own_of_spares spares).append ?_, fun _ => .inr rfl⟩
    exact (own_givenUp accepted _ deleted closed).append (own_of_spares spares')

/-- BackupRead delivers the streams of a file without links, and only a later block that is
    refused ends it. -/
theorem own_streamLoop (quiet : ∀ pos, c.bCancel pos = false) (large : headerSize ≤ c.dwBufferSize)
    {tail : List BYTE} (boundary : Boundary tail) (File : UnicodeString) (fuel : Nat)
    {streams : List Stream} {dwBytesRead : Nat}
    (plain : ∀ stream ∈ streams, stream.dwStreamId ≠ backupLink)
    (wf : ∀ stream ∈ streams, stream.WellFormed c.dwBufferSize)
    (ready : Ready c tail streams dwBytesRead s) :
    Along (OnlyWritesFail h) (fun _ _ _ => True) (fun _ => True)
      (streamLoop c File fuel dwBytesRead (some h) false) s fun t r _ => Own h t r.result := by
  induction fuel generalizing s streams dwBytesRead with
  | zero => exact along_raise composes_true trivial
  | succ fuel ih =>
    cases ready with
    | ended ended =>
      apply (provided_streamLoop_ended quiet File fuel (some h) false ended).along.mono
      rintro _ r _ - ⟨rfl, result, -⟩
      rw [result]
      exact own_of_spares (by simp)
    | @stream _ stream rest loaded at_ =>
      have wf₁ := wf stream List.mem_cons_self
      have wf_rest : ∀ other ∈ rest, other.WellFormed c.dwBufferSize :=
        fun other mem => wf other (List.mem_cons_of_mem _ mem)
      have plain_rest : ∀ other ∈ rest, other.dwStreamId ≠ backupLink :=
        fun other mem => plain other (List.mem_cons_of_mem _ mem)
      have noLink : stream.header.dwStreamId ≠ backupLink := plain stream List.mem_cons_self
      unfold streamLoop
      apply along_bind_ok composes_true (cancelled_run c s) trivial
      rw [quiet, if_neg Bool.false_ne_true, if_neg (by decide), if_neg (Nat.lt_irrefl _)]
      apply along_bind_ok composes_true (header_run s) trivial
      rw [loaded.header, wf₁.continues, if_neg Bool.false_ne_true]
      apply along_bind composes_true ((provided_fillEntireBuffer large wf₁ loaded at_).and
        (sparing_fillEntireBuffer (h := h) headerSize) fun _ => id).along
      rintro t₁ _ s₁ - ⟨⟨k, -, filled, rfl⟩, spares₁, -⟩
      apply along_bind_ok composes_true (header_run s₁) trivial
      rw [filled.loaded.header, if_neg fun link => noLink link.1]
      split
      · apply along_bind composes_true (sparing_alternateLoop quiet File c.fuel _ _ false).along
        rintro t₂ more s₂ - ⟨spares₂, new⟩
        apply (sparing_streamLoop_ended quiet File fuel (some h) false new).along.mono
        rintro t₃ r s₃ - ⟨spares₃, result⟩
        rw [result]
        exact (own_of_spares spares₁).append
          ((own_of_spares spares₂).append (own_of_spares spares₃))
      · apply along_bind composes_true
          (provided_own_writeFileDataStreamFromArchive quiet large wf₁ filled).along
        rintro t₂ r s₂ - ⟨block, goes⟩
        have own := (own_of_spares spares₁).append block
        by_cases result : r.result = true
        · rw [result] at own
          rcases goes result with ⟨rfl, at₂⟩ | rfl
          · apply along_bind composes_true (provided_readStreamHeader boundary at₂).along
            rintro _ n s₃ - ⟨rfl, ready⟩
            apply (ih plain_rest wf_rest ready).mono
            rintro t₃ r s₄ - own'
            simpa using own.append own'
          · apply along_bind composes_true sparing_readStreamHeader.along
            rintro t₃ n s₃ - ⟨spares₃, -⟩
            apply (sparing_streamLoop quiet File fuel n).along.mono
            rintro t₄ r s₄ - ⟨spares₄, result⟩
            rw [result]
            simpa using own.append ((own_of_spares spares₃).append (own_of_spares spares₄))
        · apply along_bind composes_true sparing_readStreamHeader.along
          intro t₃ n s₃ _ _
          rw [if_neg result]
          refine along_pure composes_true ?_
          rw [eq_false_of_ne_true result] at own ⊢
          simpa using own.append_any t₃

theorem own_writeFileFromArchive (quiet : ∀ pos, c.bCancel pos = false)
    (large : headerSize ≤ c.dwBufferSize) {tail : List BYTE} (boundary : Boundary tail)
    (File : UnicodeString) {streams : List Stream}
    (plain : ∀ stream ∈ streams, stream.dwStreamId ≠ backupLink)
    (wf : ∀ stream ∈ streams, stream.WellFormed c.dwBufferSize)
    (at_ : Rest c s (streams.flatMap Stream.encode ++ tail)) :
    Along (OnlyWritesFail h) (fun _ _ _ => True) (fun _ => True)
      (writeFileFromArchive c File (some h) false) s fun t r _ => Own h t r.result := by
  unfold writeFileFromArchive
  apply along_bind composes_true (provided_readStreamHeader boundary at_).along
  rintro _ n s₁ - ⟨rfl, ready⟩
  exact own_streamLoop quiet large boundary File c.fuel plain wf ready

omit [DecidableEq H] in
theorem succeeded_of_noneRefused {t : List (Event H)} (others : ∀ e ∈ t, OnlyWritesFail h e)
    (none : NoneRefused t) : ∀ e ∈ t, Succeeded e := by
  intro e mem
  have kept := others e mem
  unfold OnlyWritesFail at kept
  split at kept
  · exact none _ _ _ _ mem
  · exact kept.1

end Own

namespace CopyContext

variable {F : Type} {x : CopyContext F σ H}

/-- What WriteFileFromArchive asks the system for. -/
def events (x : CopyContext F σ H) : List (Event H) := (x.targetRun x.content).events

/-- BackupCopyFile is called for a file with these streams and a target that is open as `h`. Nobody
    cancels the two sessions, and no call fails but BackupRead and BackupWrite. -/
structure Copies (x : CopyContext F σ H) (h : H) (streams : List Stream) : Prop where
  reads : ∀ n, x.SourceReadSession.bCancel n = false
  writes : ∀ pos, x.TargetWriteSession.bCancel pos = false
  large : headerSize ≤ x.TargetWriteSession.dwBufferSize
  file : FileStreams x.TargetWriteSession.dwBufferSize x.TargetName streams
  target : x.TargetHandle = some h
  delivers : x.reads.fails = false → x.reads.blocks.flatten = streams.flatMap Stream.encode
  others : ∀ e ∈ x.events, OnlyWritesFail h e

/-- Every stream has been written to where it belongs, and the target is open. -/
structure Complete [DecidableEq H] (x : CopyContext F σ H) (streams : List Stream) : Prop where
  written : NoneRefused x.events
  placed : (Delivered.run ⟨x.TargetHandle, x.TargetName, []⟩ x.events).list =
    ownDeliveries x.TargetName none streams
  stays : ∀ reply, .call (.close x.TargetHandle) reply ∉ x.events

/-- What the parties have come to. -/
structure Answers (x : CopyContext F σ H) (s : CopyState) : Prop where
  read : ∀ result, s.thread = .ended result → result = !x.reads.fails
  wrote : ∀ result, s.caller = .waiting result → x.leaves = .waiting result
  returned : ∀ result, s.caller = .returned result →
    ∃ bWriteResult, x.leaves = .waiting bWriteResult ∧ result = (!x.reads.fails && bWriteResult)

theorem Reachable.answers (uncancelled : ∀ n, x.SourceReadSession.bCancel n = false) {s : CopyState}
    (reachable : x.Reachable s) : x.Answers s := by
  induction reachable with
  | start =>
    exact ⟨fun _ absurd => (by cases absurd), fun _ absurd => (by cases absurd),
      fun _ absurd => (by cases absurd)⟩
  | thread _ step answers =>
    obtain ⟨read, wrote, returned⟩ := answers
    cases step with
    | @read blocks asked =>
      refine ⟨fun result ended => ?_, wrote, returned⟩
      unfold readRound at ended
      rw [uncancelled, if_neg Bool.false_ne_true] at ended
      cases blocks <;> cases ended
      rfl
    | write => exact ⟨fun _ absurd => (by cases absurd), wrote, returned⟩
    | written => exact ⟨fun _ absurd => (by cases absurd), wrote, returned⟩
  | caller _ step answers =>
    obtain ⟨read, wrote, returned⟩ := answers
    cases step with
    | take => exact ⟨read, fun _ absurd => (by cases absurd), fun _ absurd => (by cases absurd)⟩
    | leave =>
      refine ⟨read, fun _ => id, fun result ended => ?_⟩
      simp only [leaves] at ended
      split at ended <;> cases ended
    | @join bReadResult bWriteResult =>
      refine ⟨read, fun _ absurd => (by cases absurd), fun result ended =>
        ⟨bWriteResult, wrote _ rfl, ?_⟩⟩
      cases ended
      rw [read _ rfl]

theorem returns_of_waiting {bWriteResult : Bool} (leaves : x.leaves = .waiting bWriteResult) :
    ∃ t r s', x.targetRun x.content = .ok t r s' ∧ r.result = bWriteResult := by
  unfold CopyContext.leaves at leaves
  cases run : x.targetRun x.content with
  | ok t r s' =>
    rw [run] at leaves
    cases leaves
    exact ⟨t, r, s', rfl, rfl⟩
  | error =>
    rw [run] at leaves
    cases leaves

variable {h : H} {streams : List Stream}

theorem Copies.rest (copy : x.Copies h streams) (whole : x.reads.fails = false) :
    Rest (x.targetConfig x.content) (Session.start x.disk) (streams.flatMap Stream.encode ++ []) := by
  refine rest_start ?_ x.disk
  rw [List.append_nil, ← copy.delivers whole]
  exact following_uncancelled copy.reads x.reads.blocks 1

variable [DecidableEq H]

theorem Copies.own (copy : x.Copies h streams) (whole : x.reads.fails = false)
    {t : List (Event H)} {r : StreamResult H} {s' : Session σ}
    (run : x.targetRun x.content = .ok t r s') : Own h t r.result := by
  have walk := own_writeFileFromArchive (c := x.targetConfig x.content) (h := h) copy.writes copy.large
    (Or.inl rfl) x.TargetName (fun stream mem => (copy.file.plain stream mem).1) copy.file.wellFormed
    (copy.rest whole)
  rw [← copy.target] at walk
  have others := copy.others
  rw [events, run] at others
  exact ((ensures_of_ok run).mp walk others).2

/-- A copy that is reported as successful is a complete one exactly if BackupRead fails, or a later
    block of a stream of the file itself is refused, which are reported as failures, or no block is
    refused and no stream is written to where it does not belong. -/
theorem backupCopyFile_complete (copy : x.Copies h streams) {s : CopyState}
    (reachable : x.Reachable s) {result : Bool} (returned : s.caller = .returned result) :
    (result = true → x.Complete streams) ↔
      x.reads.fails = true ∨ RefusedLater h x.events ∨
        NoneRefused x.events ∧ Separable none streams := by
  obtain ⟨bWriteResult, leaves, rfl⟩ := (reachable.answers copy.reads).returned result returned
  obtain ⟨t, r, s', run, rfl⟩ := returns_of_waiting leaves
  cases whole : x.reads.fails with
  | true => simp
  | false =>
    have own := copy.own whole run
    have traced : x.events = t := by
      rw [events, run]
      rfl
    rw [← traced] at own
    have belongs (accepted : NoneRefused x.events) :
        (Delivered.run ⟨x.TargetHandle, x.TargetName, []⟩ x.events).list =
          ownDeliveries x.TargetName none streams ↔ Separable none streams :=
      writeFileFromArchive_belongs (c := x.targetConfig x.content) copy.writes copy.large (Or.inl rfl)
        copy.file x.TargetHandle (copy.rest whole) (succeeded_of_noneRefused copy.others accepted)
    by_cases refused : RefusedLater h x.events
    · have failed := own.refused.mpr refused
      simp [failed, refused]
    · have succeeds : r.result = true := by
        by_contra failed
        exact refused (own.refused.mp (eq_false_of_ne_true failed))
      constructor
      · intro complete
        have complete := complete (by simp [succeeds])
        exact .inr (.inr ⟨complete.written, (belongs complete.written).mp complete.placed⟩)
      · rintro (absurd | absurd | ⟨accepted, separable⟩) -
        · cases absurd
        · exact (refused absurd).elim
        · refine ⟨accepted, (belongs accepted).mpr separable, fun reply mem => ?_⟩
          rw [copy.target] at mem
          exact own.closes reply mem accepted

omit [DecidableEq H] in
theorem Reachable.thread_ends {s : CopyState} (reachable : x.Reachable s)
    (nothing : x.pending s.thread = []) :
    ∃ result, x.Reachable ⟨.ended result, s.pipe, s.caller⟩ := by
  have read (blocks : List (List BYTE)) : ∀ asked, x.Reachable ⟨.reading blocks asked, s.pipe, s.caller⟩ →
      x.following blocks asked = [] → ∃ result, x.Reachable ⟨.ended result, s.pipe, s.caller⟩ := by
    induction blocks with
    | nil =>
      intro asked reachable _
      have next := reachable.thread .read
      unfold readRound at next
      split at next
      · exact ⟨_, next⟩
      · exact ⟨_, next⟩
    | cons block blocks ih =>
      intro asked reachable nothing
      have next := reachable.thread .read
      rw [following] at nothing
      unfold readRound at next
      split at next
      · exact ⟨_, next⟩
      · next goes =>
        rw [if_neg goes, List.append_eq_nil_iff] at nothing
        obtain ⟨rfl, nothing⟩ := nothing
        exact ih _ (next.thread .written) nothing
  obtain ⟨thread, pipe, caller⟩ := s
  cases thread with
  | reading blocks asked => exact read blocks asked reachable nothing
  | ended result => exact ⟨result, reachable⟩
  | writing left blocks asked =>
    obtain ⟨rfl, nothing⟩ := List.append_eq_nil_iff.mp nothing
    exact read blocks asked (reachable.thread .written) nothing

omit [DecidableEq H] in
theorem returned_reached (uncancelled : ∀ n, x.SourceReadSession.bCancel n = false)
    (positive : 0 < x.dwPipeBufferSize) (all : x.unread = 0) {bWriteResult : Bool}
    (leaves : x.leaves = .waiting bWriteResult) :
    ∃ s, x.Reachable s ∧ s.caller = .returned (!x.reads.fails && bWriteResult) := by
  obtain ⟨thread, pipe, reachable⟩ := takes_reached positive x.takes (Nat.le_refl _)
  have flows := reachable.flows.all
  simp only [takenBy, takes, all, Nat.sub_zero] at flows
  obtain rfl : pipe = [] := List.length_eq_zero_iff.mp (by omega)
  have nothing : x.pending thread = [] := List.length_eq_zero_iff.mp (by omega)
  obtain ⟨bReadResult, reachable⟩ := reachable.thread_ends nothing
  have left := reachable.caller (.leave fun _ => ⟨rfl, bReadResult, rfl⟩)
  rw [leaves] at left
  have joined := left.caller .join
  obtain rfl := (left.answers uncancelled).read bReadResult rfl
  exact ⟨_, joined, rfl⟩

def smallStream : Stream := zeroFile 3

theorem smallStreams : FileStreams 65536 [0x62] [smallStream] where
  wellFormed stream mem := by
    obtain rfl := List.mem_singleton.mp mem
    exact zeroFile_wellFormed (by decide)
  named := by decide
  plain := by decide

def smallCopyTo (system : System Unit Unit) : CopyContext Unit Unit Unit :=
  copyOf (zeroBlocks 1 3) smallBlock_nonempty { workingConfig [] with system := system }

theorem smallCopyTo_copies {system : System Unit Unit}
    (others : ∀ e ∈ (smallCopyTo system).events, OnlyWritesFail () e) :
    (smallCopyTo system).Copies () [smallStream] where
  reads _ := rfl
  writes _ := rfl
  large := (by decide : headerSize ≤ 65536)
  file := smallStreams
  target := rfl
  delivers _ := by
    have whole := zeroBlocks_flatten 1 3
    rwa [List.flatMap_singleton]
  others := others

theorem smallCopyTo_returns (system : System Unit Unit) (all : (smallCopyTo system).unread = 0)
    (leaves : (smallCopyTo system).leaves = .waiting true) :
    ∃ s, (smallCopyTo system).Reachable s ∧ s.caller = .returned true :=
  returned_reached (fun _ => rfl) (by decide : 0 < 65536) all leaves

theorem workingCopy_events : (smallCopyTo workingSystem).events =
    [.call (.backupWrite (some ()) false smallStream.encode) .success] := by
  decide +kernel

theorem workingCopy_others : ∀ e ∈ (smallCopyTo workingSystem).events, OnlyWritesFail () e := by
  rw [workingCopy_events]
  intro e mem
  obtain rfl := List.mem_singleton.mp mem
  trivial

theorem backupCopyFile_complete_small : ∃ s, (smallCopyTo workingSystem).Reachable s ∧
    s.caller = .returned true ∧ ((true = true → (smallCopyTo workingSystem).Complete [smallStream]) ↔
      (smallCopyTo workingSystem).reads.fails = true ∨
        RefusedLater () (smallCopyTo workingSystem).events ∨
          NoneRefused (smallCopyTo workingSystem).events ∧ Separable none [smallStream]) := by
  obtain ⟨s, reachable, returned⟩ := smallCopyTo_returns workingSystem (by decide +kernel) rfl
  exact ⟨s, reachable, returned,
    backupCopyFile_complete (smallCopyTo_copies workingCopy_others) reachable returned⟩

def lockedVolume : System Unit Unit
  | .backupWrite .., d => (.failed 33, d)
  | request, d => workingSystem request d

theorem lockedCopy_events : (smallCopyTo lockedVolume).events =
    [.call (.backupWrite (some ()) false smallStream.encode) (.failed 33),
      .call (.deleteFile (some ())) .success, .call (.close (some ())) .success] := by
  decide +kernel

/-- The copy of a file whose first block is refused is deleted and closed, and reported as successful. -/
theorem refused_copy_reported : ¬ ∀ (x : CopyContext Unit Unit Unit) (h : Unit) (streams : List Stream),
    x.Copies h streams → ∀ s result, x.Reachable s → s.caller = .returned result →
      result = true → x.Complete streams := by
  intro complete
  have others : ∀ e ∈ (smallCopyTo lockedVolume).events, OnlyWritesFail () e := by
    rw [lockedCopy_events]
    intro e mem
    simp only [List.mem_cons, List.not_mem_nil, or_false] at mem
    rcases mem with rfl | rfl | rfl
    · trivial
    · exact ⟨rfl, trivial⟩
    · exact ⟨rfl, trivial⟩
  obtain ⟨s, reachable, returned⟩ := smallCopyTo_returns lockedVolume (by decide +kernel) rfl
  have copied := complete _ () _ (smallCopyTo_copies others) s true reachable returned rfl
  have stays := copied.stays .success
  rw [lockedCopy_events] at stays
  exact stays (by decide)

end CopyContext

end StrArc
