import LtrData.StrArc.Delivery
import LtrData.StrArc.StreamActions

namespace StrArc

open Traced

variable {σ H : Type} {c : Config σ H} {s : Session σ} {kept : Event H → Prop}

/-- What the reader has still before it. -/
structure Rest (c : Config σ H) (s : Session σ) (rest : List BYTE) : Prop where
  inside : s.pos ≤ c.archive.bytes.length
  drop : c.archive.bytes.drop s.pos = rest

theorem Rest.length {rest : List BYTE} (at_ : Rest c s rest) :
    s.pos + rest.length = c.archive.bytes.length := by
  have inside := at_.inside
  rw [← at_.drop, List.length_drop]
  omega

/-- A link name has been taken for complete. -/
def LinkWhole : Event H → Prop
  | .located .linkName h dwBytesRead offset _ =>
    (dwBytesRead : Int) = quadPart (h.Size.toInt + offset)
  | _ => True

@[simp] theorem linkWhole_call (request : Call H) (reply : Reply H) :
    LinkWhole (.call request reply) := trivial

@[simp] theorem linkWhole_nextBlock (BytesToRead : Int) (size : Nat) :
    LinkWhole (.nextBlock BytesToRead size : Event H) := trivial

@[simp] theorem linkWhole_passedOver (h : Win32StreamId) (BytesToRead : Int) :
    LinkWhole (.passedOver h BytesToRead : Event H) := trivial

@[simp] theorem linkWhole_rejected (start pos : Nat) :
    LinkWhole (.rejected start pos : Event H) := trivial

@[simp] theorem linkWhole_fileHeader (start : Nat) : LinkWhole (.fileHeader start : Event H) := trivial

@[simp] theorem linkWhole_restoreFile (start : Nat) (File : UnicodeString)
    (FileInfo : ByHandleFileInformation) (ShortName : UnicodeString) :
    LinkWhole (.restoreFile start File FileInfo ShortName : Event H) := trivial

theorem provided_readArchive {α : Type} {f : Nat → Restore σ H α} {Q : List (Event H) → α → Session σ → Prop}
    {xs rest : List BYTE} (at_ : Rest c s (xs ++ rest)) (lpBuf : Nat) {n : Nat} (size : n = xs.length)
    (next : ∀ s', Rest c s' rest → s'.Buffer = s.Buffer.write lpBuf xs →
      s'.headerPos = (if lpBuf = 0 then s.pos else s.headerPos) → Provided kept LinkWhole (f xs.length) s' Q) :
    Provided kept LinkWhole (readArchive c lpBuf n >>= f) s Q := by
  have data : c.archive.readLoop n s.pos n = xs := by
    rw [c.archive.readLoop_eq _ _ _ (Nat.le_refl _), at_.drop, size, List.take_left]
  have total := at_.length
  rw [List.length_append] at total
  apply provided_bind_ok (readArchive_run c lpBuf n s)
  intro _
  rw [data]
  refine next _ ⟨?_, ?_⟩ ?_ rfl
  · simp only [Session.afterRead, data]
    omega
  · simp only [Session.afterRead, data]
    rw [← List.drop_drop, at_.drop, List.drop_left]
  · simp only [Session.afterRead, data]

namespace Stream

def body (stream : Stream) : List BYTE := wcharBytes stream.name ++ stream.data

theorem length_body (stream : Stream) :
    stream.body.length = 2 * stream.name.length + stream.data.length := by
  simp [body]

variable {stream : Stream}

theorem WellFormed.nameSize (wf : stream.WellFormed c.dwBufferSize) :
    stream.header.nameSize = 2 * stream.name.length := by
  have dword := c.isDword
  have fits := wf.fits
  simp only [headerSize] at fits
  simp only [Win32StreamId.nameSize, header, BitVec.toNat_ofNat]
  exact Nat.mod_eq_of_lt (by omega)

theorem WellFormed.named (wf : stream.WellFormed c.dwBufferSize) :
    0 < stream.header.nameSize ↔ stream.name ≠ [] := by
  have length := List.length_pos_iff (l := stream.name)
  rw [wf.nameSize, ← length]
  omega

theorem WellFormed.dataOffset (wf : stream.WellFormed c.dwBufferSize) :
    stream.header.dataOffset = headerSize + 2 * stream.name.length := by
  have dword := c.isDword
  have fits := wf.fits
  rw [Win32StreamId.dataOffset, wf.nameSize]
  exact Nat.mod_eq_of_lt (by omega)

theorem WellFormed.sizeNat (wf : stream.WellFormed c.dwBufferSize) :
    stream.header.Size.toNat = stream.data.length := by
  have size := wf.size
  simp only [header, BitVec.toNat_ofNat]
  exact Nat.mod_eq_of_lt (by omega)

theorem WellFormed.sizeInt (wf : stream.WellFormed c.dwBufferSize) :
    stream.header.Size.toInt = stream.data.length := by
  have size := wf.size
  rw [BitVec.toInt_eq_toNat_of_lt (by rw [wf.sizeNat]; omega), wf.sizeNat]

theorem WellFormed.toRead (wf : stream.WellFormed c.dwBufferSize) :
    quadPart (stream.header.dataOffset + stream.header.Size.toInt - headerSize) =
      stream.body.length := by
  have size := wf.size
  have body := stream.length_body
  rw [wf.dataOffset, wf.sizeInt, quadPart_of_lt (by omega) (by omega)]
  omega

theorem WellFormed.continues (wf : stream.WellFormed c.dwBufferSize) :
    isNewFileHeader stream.header = false := by
  have id := wf.id
  have even : (2 * stream.name.length) % 2 ≠ 1 := by omega
  simp only [isNewFileHeader, wf.nameSize, even, decide_false]
  rw [if_neg]
  intro facts
  rcases facts with ⟨same, -⟩
  exact id same

end Stream

theorem length_streams (streams : List Stream) :
    streams.length ≤ (streams.flatMap Stream.encode).length := by
  induction streams with
  | nil => exact Nat.le_refl _
  | cons stream rest ih =>
    have twenty : headerSize = 20 := rfl
    simp only [List.flatMap_cons, List.length_append, Stream.encode, Win32StreamId.length_encode,
      List.length_cons]
    omega

/-- The header that has been read is the one of this stream. -/
def Loaded (s : Session σ) (h : Win32StreamId) : Prop := s.Buffer.read 0 headerSize = h.encode

theorem Loaded.header {h : Win32StreamId} (loaded : Loaded s h) : s.header = h := by
  have decoded := Win32StreamId.decode_encode h []
  rw [List.append_nil] at decoded
  rw [Session.header, loaded, decoded]

/-- Name and data of the stream are in the buffer as far as they fit. -/
structure Filled (c : Config σ H) (s : Session σ) (stream : Stream) (k : Nat) (rest : List BYTE) :
    Prop where
  size : k = min (c.dwBufferSize - headerSize) stream.body.length
  buffer : s.Buffer.read 0 (headerSize + k) = stream.header.encode ++ stream.body.take k
  rest : Rest c s (stream.body.drop k ++ rest)

theorem Filled.loaded {stream : Stream} {k : Nat} {rest : List BYTE}
    (filled : Filled c s stream k rest) : Loaded s stream.header := by
  have front := Cells.take_read s.Buffer 0 (Nat.le_add_right headerSize k)
  rw [filled.buffer, List.take_left' stream.header.length_encode] at front
  exact front.symm

theorem Filled.name_fits {stream : Stream} {k : Nat} {rest : List BYTE}
    (filled : Filled c s stream k rest) (wf : stream.WellFormed c.dwBufferSize) :
    2 * stream.name.length ≤ k := by
  have size := filled.size
  have fits := wf.fits
  have body := stream.length_body
  omega

theorem Filled.payload {stream : Stream} {k : Nat} {rest : List BYTE}
    (filled : Filled c s stream k rest) (wf : stream.WellFormed c.dwBufferSize) :
    s.Buffer.read (headerSize + 2 * stream.name.length) (k - 2 * stream.name.length) =
      stream.data.take (k - 2 * stream.name.length) := by
  have fits := filled.name_fits wf
  have front : headerSize + 2 * stream.name.length ≤ headerSize + k := by
    omega
  have back := Cells.drop_read s.Buffer 0 front
  rw [filled.buffer, Nat.zero_add, Nat.add_sub_add_left, Stream.body, List.take_append,
    length_wcharBytes, List.take_of_length_le (by simpa using fits), ← List.append_assoc] at back
  rw [← back]
  apply List.drop_left'
  simp

theorem Filled.left {stream : Stream} {k : Nat} {rest : List BYTE}
    (filled : Filled c s stream k rest) (wf : stream.WellFormed c.dwBufferSize) :
    stream.body.drop k = stream.data.drop (k - 2 * stream.name.length) := by
  have fits := filled.name_fits wf
  rw [Stream.body, List.drop_append, List.drop_of_length_le (by simpa using fits),
    length_wcharBytes, List.nil_append]

theorem provided_fillFirstBlock (large : headerSize ≤ c.dwBufferSize) {stream : Stream}
    (wf : stream.WellFormed c.dwBufferSize) {rest : List BYTE} (loaded : Loaded s stream.header)
    (at_ : Rest c s (stream.body ++ rest)) :
    Provided kept LinkWhole (fillFirstBlock c headerSize) s fun t filled s' => ∃ k, t = [] ∧
      Filled c s' stream k rest ∧ filled = (headerSize + k, ((stream.body.drop k).length : Int)) := by
  have dword := c.isDword
  have room := dwordSub_of_le large dword
  have header : s.Buffer.read 0 headerSize = stream.header.encode := loaded
  unfold fillFirstBlock
  apply provided_bind_ok (header_run s)
  intro _
  rw [loaded.header]
  dsimp only
  rw [wf.toRead, room]
  by_cases positive : (stream.body.length : Int) > 0
  · rw [if_pos positive]
    have first : (if (stream.body.length : Int) > ((c.dwBufferSize - headerSize : Nat) : Int) then
        c.dwBufferSize - headerSize else lowPart stream.body.length) =
        min (c.dwBufferSize - headerSize) stream.body.length := by
      split
      · omega
      · have low := lowPart_of_lt (x := stream.body.length) (by omega) (by omega)
        omega
    rw [first]
    split
    · next some =>
      have split_body : stream.body ++ rest =
          stream.body.take (min (c.dwBufferSize - headerSize) stream.body.length) ++
            (stream.body.drop (min (c.dwBufferSize - headerSize) stream.body.length) ++ rest) := by
        rw [← List.append_assoc, List.take_append_drop]
      rw [split_body] at at_
      have taken : (stream.body.take (min (c.dwBufferSize - headerSize) stream.body.length)).length =
          min (c.dwBufferSize - headerSize) stream.body.length := by
        rw [List.length_take]
        omega
      apply provided_readArchive at_ headerSize taken.symm
      intro s' at' buffer _
      rw [taken, if_neg (by simp)]
      refine provided_pure ⟨_, rfl, ⟨rfl, ?_, at'⟩, ?_⟩
      · have append := Cells.read_write_append s.Buffer
          (stream.body.take (min (c.dwBufferSize - headerSize) stream.body.length)) 0 headerSize
        rw [taken, Nat.zero_add, loaded] at append
        rw [buffer, append]
      · rw [List.length_drop]
        simp only [Prod.mk.injEq, true_and]
        omega
    · next none =>
      have zero : min (c.dwBufferSize - headerSize) stream.body.length = 0 := by omega
      exact provided_pure ⟨0, rfl, ⟨zero.symm, by simpa using header, by simpa using at_⟩, by simp⟩
  · rw [if_neg positive]
    have empty : stream.body.length = 0 := by omega
    exact provided_pure ⟨0, rfl, ⟨by omega, by simpa using header, by simpa using at_⟩, by simp⟩

/-- Two states that the reader does not tell apart. -/
structure Same (s s' : Session σ) : Prop where
  pos : s'.pos = s.pos
  headerPos : s'.headerPos = s.headerPos
  buffer : s'.Buffer = s.Buffer

theorem Same.refl (s : Session σ) : Same s s := ⟨rfl, rfl, rfl⟩

theorem Same.trans {s s' s'' : Session σ} (first : Same s s') (second : Same s' s'') : Same s s'' :=
  ⟨second.pos.trans first.pos, second.headerPos.trans first.headerPos,
    second.buffer.trans first.buffer⟩

theorem Same.rest {s s' : Session σ} (same : Same s s') {rest : List BYTE} (at_ : Rest c s rest) :
    Rest c s' rest := ⟨same.pos ▸ at_.inside, same.pos ▸ at_.drop⟩

theorem Same.filled {s s' : Session σ} (same : Same s s') {stream : Stream} {k : Nat}
    {rest : List BYTE} (filled : Filled c s stream k rest) : Filled c s' stream k rest :=
  ⟨filled.size, same.buffer ▸ filled.buffer, same.rest filled.rest⟩

theorem provided_call (request : Call H) :
    Provided kept LinkWhole (call c request) s fun t reply s' =>
      t = [.call request reply] ∧ kept (.call request reply) ∧ Same s s' :=
  provided_of_ok (call_run c request s) (by simp) fun all =>
    ⟨rfl, all _ (List.mem_singleton_self _), rfl, rfl, rfl⟩

/-- Nothing of an unnamed stream is left in the archive when it is passed over. -/
def Passes (kept : Event H → Prop) : Prop := ∀ h left, kept (.passedOver h left) → left ≤ 0

/-- Events that leave the reader in step: no later block of a stream fails to be written, and
    either nothing is left over or nothing fails at all. -/
structure InStep (kept : Event H → Prop) : Prop where
  continued : ∀ hFile data reply, kept (.call (.backupWrite hFile true data) reply) →
    reply.isSuccess = true
  passes : Passes kept ∨ ∀ e, kept e → Succeeded e

theorem InStep.passes_of_failed (step : InStep kept) {e : Event H} (holds : kept e)
    (failed : ¬ Succeeded e) : Passes kept :=
  step.passes.resolve_right fun all => failed (all e holds)

theorem take_block (xs : List BYTE) :
    (if (xs.length : Int) > c.dwBufferSize then c.dwBufferSize else lowPart xs.length) =
      (xs.take c.dwBufferSize).length := by
  have dword := c.isDword
  rw [List.length_take]
  split
  · omega
  · have low := lowPart_of_lt (x := xs.length) (by omega) (by omega)
    omega

theorem left_block (xs : List BYTE) :
    (xs.length : Int) - ((xs.take c.dwBufferSize).length : Nat) =
      ((xs.drop c.dwBufferSize).length : Nat) := by
  rw [List.length_take, List.length_drop]
  omega

theorem provided_readBlock {α : Type} {f : Nat → Restore σ H α}
    {Q : List (Event H) → α → Session σ → Prop} {xs rest : List BYTE} (at_ : Rest c s (xs ++ rest))
    (next : ∀ s', Rest c s' (xs.drop c.dwBufferSize ++ rest) →
      s'.Buffer = s.Buffer.write 0 (xs.take c.dwBufferSize) →
      Provided kept LinkWhole (f (xs.take c.dwBufferSize).length) s' Q) :
    Provided kept LinkWhole (readArchive c 0 (if (xs.length : Int) > c.dwBufferSize then c.dwBufferSize
      else lowPart xs.length) >>= f) s Q := by
  rw [← List.take_append_drop c.dwBufferSize xs, List.append_assoc] at at_
  apply provided_readArchive at_ 0 (take_block xs)
  intro s' at' buffer _
  exact next s' at' buffer

theorem provided_skipLoop (quiet : ∀ pos, c.bCancel pos = false) (large : headerSize ≤ c.dwBufferSize)
    (fuel : Nat) {xs rest : List BYTE} (at_ : Rest c s (xs ++ rest)) (enough : xs.length < fuel) :
    Provided kept LinkWhole (skipLoop c fuel xs.length) s fun t _ s' => t = [] ∧ Rest c s' rest := by
  have twenty : headerSize = 20 := rfl
  induction fuel generalizing s xs with
  | zero => omega
  | succ fuel ih =>
    unfold skipLoop
    split
    · apply provided_bind_ok (cancelled_run c s)
      intro _
      rw [quiet, if_neg Bool.false_ne_true]
      apply provided_readBlock at_
      intro s₁ at₁ _
      have taken := List.length_take (i := c.dwBufferSize) (l := xs)
      rw [if_neg (by omega), left_block]
      refine (ih at₁ ?_).mono fun t _ s' h => ⟨by rw [h.1]; rfl, h.2⟩
      rw [List.length_drop]
      omega
    · have empty : xs = [] := by
        apply List.eq_nil_of_length_eq_zero
        omega
      subst empty
      exact provided_pure ⟨rfl, at_⟩

theorem Rest.lt_fuel {xs rest : List BYTE} (at_ : Rest c s (xs ++ rest)) : xs.length < c.fuel := by
  have total := at_.length
  rw [List.length_append] at total
  simp only [Config.fuel]
  omega

/-- The reader behind the streams of a file: at the end of the archive, or with a file header
    read. `dwBytesRead` says which. -/
inductive Ended (c : Config σ H) : List BYTE → Nat → Session σ → Prop
  | nothing {s : Session σ} (at_ : Rest c s []) (cleared : Loaded s ⟨0, 0, 0, 0⟩) : Ended c [] 0 s
  | header {s : Session σ} {h : Win32StreamId} {more : List BYTE}
      (valid : validFileHeader h = true) (loaded : Loaded s h)
      (start : s.headerPos + headerSize = s.pos) (at_ : Rest c s more) :
      Ended c (h.encode ++ more) headerSize s

/-- What may stand behind the streams of a file. -/
def Boundary (tail : List BYTE) : Prop :=
  tail = [] ∨ ∃ h more, validFileHeader h = true ∧ tail = Win32StreamId.encode h ++ more

/-- The reader with the header of the first one of these streams read. -/
inductive Ready (c : Config σ H) (tail : List BYTE) : List Stream → Nat → Session σ → Prop
  | ended {dwBytesRead : Nat} {s : Session σ} (ended : Ended c tail dwBytesRead s) :
      Ready c tail [] dwBytesRead s
  | stream {s : Session σ} {stream : Stream} {rest : List Stream} (loaded : Loaded s stream.header)
      (at_ : Rest c s (stream.body ++ (rest.flatMap Stream.encode ++ tail))) :
      Ready c tail (stream :: rest) headerSize s

theorem Same.ended {s s' : Session σ} (same : Same s s') {tail : List BYTE} {dwBytesRead : Nat}
    (ended : Ended c tail dwBytesRead s) : Ended c tail dwBytesRead s' := by
  cases ended with
  | nothing at_ cleared => exact .nothing (same.rest at_) (by rwa [Loaded, same.buffer])
  | header valid loaded start at_ =>
    exact .header valid (by rwa [Loaded, same.buffer]) (by rw [same.pos, same.headerPos, start])
      (same.rest at_)

theorem provided_readHeader {h : Win32StreamId} {more : List BYTE}
    (at_ : Rest c s (h.encode ++ more)) :
    Provided kept LinkWhole (readStreamHeader c) s fun t n s' => t = [] ∧ n = headerSize ∧ Loaded s' h ∧
      s'.headerPos + headerSize = s'.pos ∧ Rest c s' more := by
  have length := h.length_encode
  have before := at_.length
  unfold readStreamHeader
  apply provided_readArchive at_ 0 length.symm
  intro s' at' buffer headerPos
  have after := at'.length
  rw [if_neg (by omega)]
  refine provided_pure ⟨rfl, length, ?_, ?_, at'⟩
  · rw [Loaded, buffer, ← length, Cells.read_write_same]
  · rw [List.length_append] at before
    rw [headerPos, if_pos rfl]
    omega

theorem provided_readNoHeader (at_ : Rest c s []) :
    Provided kept LinkWhole (readStreamHeader c) s fun t n s' => t = [] ∧ n = 0 ∧ Loaded s' ⟨0, 0, 0, 0⟩ ∧
      Rest c s' [] := by
  have none : c.archive.readLoop headerSize s.pos headerSize = [] := by
    rw [c.archive.readLoop_eq _ _ _ (Nat.le_refl _), at_.drop, List.take_nil]
  have after : s.afterRead c 0 headerSize = { s with headerPos := s.pos, Buffer := s.Buffer.write 0 [] } := by
    simp only [Session.afterRead, none, List.length_nil, Nat.add_zero, if_true]
  unfold readStreamHeader
  apply provided_bind_ok (readArchive_run c 0 headerSize s)
  intro _
  rw [none, after, if_pos (by simp [headerSize])]
  apply provided_bind_ok (clearHeader_run _)
  intro _
  refine provided_pure ⟨rfl, rfl, ?_, at_.inside, at_.drop⟩
  have cleared := Cells.read_write_same (s.Buffer.write 0 []) 0 (List.replicate headerSize (0 : BYTE))
  rw [List.length_replicate] at cleared
  rw [Loaded, cleared]
  decide

theorem provided_readStreamHeader {streams : List Stream} {tail : List BYTE}
    (boundary : Boundary tail) (at_ : Rest c s (streams.flatMap Stream.encode ++ tail)) :
    Provided kept LinkWhole (readStreamHeader c) s fun t n s' => t = [] ∧ Ready c tail streams n s' := by
  cases streams with
  | nil =>
    rcases boundary with rfl | ⟨h, more, valid, rfl⟩
    · apply (provided_readNoHeader at_).mono
      intro t n s' facts
      rcases facts with ⟨rfl, rfl, cleared, at'⟩
      exact ⟨rfl, .ended (.nothing at' cleared)⟩
    · apply (provided_readHeader at_).mono
      intro t n s' facts
      rcases facts with ⟨rfl, rfl, loaded, start, at'⟩
      exact ⟨rfl, .ended (.header valid loaded start at')⟩
  | cons stream rest =>
    have split : (stream :: rest).flatMap Stream.encode ++ tail =
        stream.header.encode ++ (stream.body ++ (rest.flatMap Stream.encode ++ tail)) := by
      simp [Stream.encode, Stream.body]
    rw [split] at at_
    apply (provided_readHeader at_).mono
    intro t n s' facts
    rcases facts with ⟨rfl, rfl, loaded, -, at'⟩
    exact ⟨rfl, .stream loaded at'⟩

theorem isNewFileHeader_of_valid {h : Win32StreamId} (valid : validFileHeader h = true) :
    isNewFileHeader h = true := by
  simp only [validFileHeader, decide_eq_true_eq] at valid
  rw [isNewFileHeader, if_pos ⟨valid.1, valid.2.1, valid.2.2.1, valid.2.2.2.1, valid.2.2.2.2.1⟩]

variable [DecidableEq H]

/-- Events that deliver nothing. -/
def Silent (t : List (Event H)) : Prop := ∀ p : Delivered H, p.run t = p

theorem silent_nil : Silent ([] : List (Event H)) := fun _ => rfl

theorem Silent.append {t t' : List (Event H)} (first : Silent t) (second : Silent t') :
    Silent (t ++ t') := fun p => by rw [Delivered.run_append, first, second]

theorem provided_locate (position : Position) {dwBytesRead offset length : Nat}
    (inside : offset + length ≤ c.dwBufferSize)
    (whole : position = .linkName → (dwBytesRead : Int) = quadPart (s.header.Size.toInt + offset)) :
    Provided kept LinkWhole (locate c position dwBytesRead offset length) s fun t _ s' => Silent t ∧ s' = s := by
  have run : locate c position dwBytesRead offset length s =
      .ok [.located position s.header dwBytesRead offset length] () s := by
    simp only [locate, inside, if_true]
  have sound : ∀ e ∈ [Event.located position s.header dwBytesRead offset length (H := H)],
      LinkWhole e := by
    intro e mem
    obtain rfl := List.mem_singleton.mp mem
    cases position with
    | linkName => exact whole rfl
    | _ => trivial
  exact provided_of_ok run sound fun _ => ⟨fun _ => rfl, rfl⟩

theorem provided_showHeader {stream : Stream} (wf : stream.WellFormed c.dwBufferSize) {k : Nat}
    {rest : List BYTE} (filled : Filled c s stream k rest) :
    Provided kept LinkWhole (showHeader c (headerSize + k)) s fun t _ s' => Silent t ∧ s' = s := by
  have header := filled.loaded.header
  have name : Provided kept LinkWhole (showName c (headerSize + k)) s fun t _ s' => Silent t ∧ s' = s := by
    unfold showName
    apply provided_bind_ok (header_run s)
    intro _
    split
    · refine provided_locate .shownName ?_ nofun
      rw [header, wf.nameSize]
      exact wf.fits
    · exact provided_pure ⟨silent_nil, rfl⟩
  have data : Provided kept LinkWhole (showData c (headerSize + k)) s fun t _ s' => Silent t ∧ s' = s := by
    unfold showData
    apply provided_bind_ok (header_run s)
    intro _
    rw [header, wf.nameSize]
    split
    · next sparse => exact provided_locate .shownStart (wf.sparse sparse.1) nofun
    · split
      · next link =>
        have fits := wf.link link
        refine provided_locate .shownTarget ?_ nofun
        rw [wf.sizeNat]
        omega
      · exact provided_pure ⟨silent_nil, rfl⟩
  unfold showHeader
  split
  · apply provided_bind name
    intro t₁ _ _ facts
    rcases facts with ⟨silent, rfl⟩
    exact data.mono fun t₂ _ _ h => ⟨silent.append h.1, h.2⟩
  · exact provided_pure ⟨silent_nil, rfl⟩

theorem provided_fillEntireBuffer (large : headerSize ≤ c.dwBufferSize) {stream : Stream}
    (wf : stream.WellFormed c.dwBufferSize) {rest : List BYTE} (loaded : Loaded s stream.header)
    (at_ : Rest c s (stream.body ++ rest)) :
    Provided kept LinkWhole (fillEntireBuffer c headerSize) s fun t filled s' => ∃ k, Silent t ∧
      Filled c s' stream k rest ∧ filled = (headerSize + k, ((stream.body.drop k).length : Int)) := by
  unfold fillEntireBuffer
  apply provided_bind (provided_fillFirstBlock large wf loaded at_)
  intro t filled s₁ facts
  rcases facts with ⟨k, rfl, filled₁, rfl⟩
  apply provided_bind (provided_showHeader wf filled₁)
  intro t₁ _ _ facts
  rcases facts with ⟨silent, rfl⟩
  exact provided_pure ⟨k, by simpa using silent, filled₁, rfl⟩

/-- Runs that deliver nothing and leave the reader where it is. -/
def Harmless {α : Type} (kept : Event H → Prop) (x : Restore σ H α) (s : Session σ) (Q : α → Prop) :
    Prop := Provided kept LinkWhole x s fun t a s' => Silent t ∧ Same s s' ∧ Q a

theorem harmless_pure {α : Type} {a : α} {Q : α → Prop} (h : Q a) :
    Harmless kept (pure a : Restore σ H α) s Q := provided_pure ⟨silent_nil, Same.refl s, h⟩

theorem harmless_bind {α β : Type} {x : Restore σ H α} {f : α → Restore σ H β} {Q : α → Prop}
    {Q' : β → Prop} (first : Harmless kept x s Q)
    (next : ∀ a s', Q a → Harmless kept (f a) s' Q') : Harmless kept (x >>= f) s Q' := by
  apply provided_bind first
  intro t a s' facts
  rcases facts with ⟨silent, same, value⟩
  apply (next a s' value).mono
  intro t' b s'' facts
  rcases facts with ⟨silent', same', value'⟩
  exact ⟨silent.append silent', same.trans same', value'⟩

theorem harmless_call (request : Call H)
    (silent : ∀ reply (p : Delivered H), p.step (.call request reply) = p) :
    Harmless kept (call c request) s fun _ => True := by
  apply (provided_call request).mono
  intro t reply s' facts
  rcases facts with ⟨rfl, -, same⟩
  exact ⟨silent reply, same, trivial⟩

theorem harmless_removeTemporary (hFile : Handle H) :
    Harmless kept (removeTemporary c hFile) s fun _ => True := by
  unfold removeTemporary
  apply harmless_bind (harmless_call (.deleteFile hFile) fun _ _ => rfl)
  intro _ _ _
  apply harmless_bind (harmless_call (.close hFile) fun _ _ => rfl)
  intro _ _ _
  exact harmless_pure trivial

theorem harmless_closeOpened (hFile : Handle H) :
    Harmless kept (closeOpened c hFile) s fun _ => True := by
  unfold closeOpened
  split
  · apply harmless_bind (harmless_call (.close hFile) fun _ _ => rfl)
    intro _ _ _
    exact harmless_pure trivial
  · exact harmless_pure trivial

end StrArc
