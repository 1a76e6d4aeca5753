import LtrData.StrArc.Restore
import Mathlib.Tactic.Linarith

namespace StrArc

variable {σ H : Type}

/-- What a handle that may be invalid stands for, if it stands for anything. -/
def On (K : H → Prop) (hFile : Handle H) : Prop := ∀ h, hFile = some h → K h

theorem on_none (K : H → Prop) : On K none := fun _ absurd => by cases absurd

theorem on_some {K : H → Prop} {h : H} (holds : K h) : On K (some h) := by
  intro _ facts
  rcases facts with ⟨⟩
  exact holds

/-- The calls that change an object change one of `K`, or the name `N`. -/
def Call.touches (K : H → Prop) (N : UnicodeString → Prop) : Call H → Prop
  | setInformation hFile _ => On K hFile
  | deviceIoControl hFile _ => On K hFile
  | setShortFileName hFile _ => On K hFile
  | setFilePointer hFile _ => On K hFile
  | setEndOfFile hFile => On K hFile
  | backupWrite hFile _ _ => On K hFile
  | writeFile hFile _ => On K hFile
  | deleteFile hFile => On K hFile
  | createHardLink _ Target => N Target
  | backupCopyFile _ target => On K target
  | _ => True

def Call.creates : Call H → Bool
  | createDirectory .. => true
  | createFile .. => true
  | _ => false

/-- Every object a create call opens is one of `K`. -/
def Opens (K : H → Prop) : Event H → Prop
  | .call request (.opened h) => request.creates → K h
  | _ => True

instance (K : H → Prop) [DecidablePred K] : DecidablePred (Opens K)
  | .call request (.opened h) => inferInstanceAs (Decidable (request.creates → K h))
  | .call _ .success | .call _ (.failed _) | .call _ (.information _) | .call _ (.attributes _)
  | .call _ (.written _) | .located .. | .nextBlock .. | .passedOver .. | .rejected ..
  | .fileHeader .. | .restoreFile .. => .isTrue trivial

theorem opens_anything (e : Event H) : Opens (fun _ => True) e := by
  unfold Opens
  split <;> simp

def Touches (K : H → Prop) (N : UnicodeString → Prop) : Event H → Prop
  | .call request _ => request.touches K N
  | _ => True

/-- How many bytes the first block takes of the stream whose header has been read. -/
def firstBlock (dwBufferSize : Nat) (h : Win32StreamId) : Nat :=
  let BytesToRead := quadPart (h.dataOffset + h.Size.toInt - headerSize)
  let room := dwordSub dwBufferSize headerSize
  if BytesToRead > 0 then if BytesToRead > room then room else lowPart BytesToRead else 0

theorem firstBlock_of_pos (dwBufferSize : Nat) {h : Win32StreamId}
    (positive : quadPart (h.dataOffset + h.Size.toInt - headerSize) > 0) :
    firstBlock dwBufferSize h =
      if quadPart (h.dataOffset + h.Size.toInt - headerSize) > dwordSub dwBufferSize headerSize then
        dwordSub dwBufferSize headerSize
      else lowPart (quadPart (h.dataOffset + h.Size.toInt - headerSize)) := by
  unfold firstBlock
  rw [if_pos positive]

theorem firstBlock_of_nonpos (dwBufferSize : Nat) {h : Win32StreamId}
    (nonpos : ¬ quadPart (h.dataOffset + h.Size.toInt - headerSize) > 0) :
    firstBlock dwBufferSize h = 0 := by
  unfold firstBlock
  rw [if_neg nonpos]

/-- The offset and the length that go with a position. -/
def Position.place (position : Position) (h : Win32StreamId) (dwBytesRead : Nat) : Nat × Nat :=
  match position with
  | shownName => (headerSize, h.nameSize)
  | shownStart => (headerSize + h.nameSize, 8)
  | shownTarget => (headerSize + h.nameSize, h.Size.toNat % 2 ^ 32 / 2 * 2)
  | startPosition => (headerSize + h.nameSize, 8)
  | linkName => (h.dataOffset, h.Size.toNat % 2 ^ 16)
  | streamName => (headerSize, h.nameSize % 2 ^ 16)
  | payload => (h.dataOffset, dwordSub dwBytesRead h.dataOffset)

/-- The events of one object, with the positions its headers lead to. -/
def StreamEvent (dwBufferSize : Nat) : Event H → Prop
  | .call .. => True
  | .located position h dwBytesRead offset length =>
    (offset, length) = position.place h dwBytesRead ∧
      dwBytesRead = headerSize + firstBlock dwBufferSize h ∧
      (position = .payload → 0 < h.Size.toInt)
  | .nextBlock BytesToRead size =>
    BytesToRead ≠ 0 ∧ size = if BytesToRead > dwBufferSize then dwBufferSize else lowPart BytesToRead
  | .passedOver h _ => h.nameSize = 0
  | .rejected .. => False
  | .fileHeader .. => False
  | .restoreFile .. => False

/-- The disk changes by the calls that were made, and by nothing else. -/
def Follows (system : System σ H) : σ → List (Event H) → σ → Prop
  | d, [], d' => d' = d
  | d, .call request reply :: t, d' =>
    (system request d).1 = reply ∧ Follows system (system request d).2 t d'
  | d, .located .. :: t, d' => Follows system d t d'
  | d, .nextBlock .. :: t, d' => Follows system d t d'
  | d, .passedOver .. :: t, d' => Follows system d t d'
  | d, .rejected .. :: t, d' => Follows system d t d'
  | d, .fileHeader .. :: t, d' => Follows system d t d'
  | d, .restoreFile .. :: t, d' => Follows system d t d'

theorem Follows.append {system : System σ H} {d d' d'' : σ} {t t' : List (Event H)}
    (first : Follows system d t d') (second : Follows system d' t' d'') :
    Follows system d (t ++ t') d'' := by
  induction t generalizing d with
  | nil =>
    cases first
    exact second
  | cons e t ih =>
    cases e with
    | call request reply => exact ⟨first.1, ih first.2⟩
    | _ => exact ih first

def remaining (c : Config σ H) (s : Session σ) : Nat := c.archive.bytes.length - s.pos

structure Acts (c : Config σ H) (K : H → Prop) (N : UnicodeString → Prop) (s : Session σ)
    (t : List (Event H)) (s' : Session σ) : Prop where
  follows : Follows c.system s.disk t s'.disk
  forward : remaining c s' ≤ remaining c s
  ordered : s.headerPos ≤ s.pos → s'.headerPos ≤ s'.pos
  events : ∀ e ∈ t, StreamEvent c.dwBufferSize e
  touches : ∀ e ∈ t, Touches K N e

theorem acts_composes (c : Config σ H) (K : H → Prop) (N : UnicodeString → Prop) :
    Traced.Composes (Acts c K N) where
  nil s := ⟨rfl, Nat.le_refl _, id, by simp, by simp⟩
  append first second := by
    refine ⟨first.follows.append second.follows, second.forward.trans first.forward,
      second.ordered ∘ first.ordered, ?_, ?_⟩
    · intro e mem
      rcases List.mem_append.mp mem with mem | mem
      · exact first.events e mem
      · exact second.events e mem
    · intro e mem
      rcases List.mem_append.mp mem with mem | mem
      · exact first.touches e mem
      · exact second.touches e mem

/-- The recursion bound of a loop is never used up, but for a buffer that is too small for a
    header, or of nearly 4 GB, where a size that has wrapped around may fit. -/
def Bounded (c : Config σ H) (e : XError) : Prop :=
  headerSize ≤ c.dwBufferSize → c.dwBufferSize < 2 ^ 32 - 19 → e ≠ .outOfFuel

/-- `x` acts on the archive and on objects of `K` only, and ends in `Q` if it ends. -/
def Acting {α : Type} (c : Config σ H) (K : H → Prop) (N : UnicodeString → Prop)
    (x : Restore σ H α) (s : Session σ) (Q : α → Session σ → Prop) : Prop :=
  Traced.Along (Opens K) (Acts c K N) (Bounded c) x s fun _ => Q

section Acting

variable {α β : Type} {c : Config σ H} {K : H → Prop} {N : UnicodeString → Prop} {s : Session σ}
  {x : Restore σ H α} {f : α → Restore σ H β}

theorem acting_pure {a : α} {Q : α → Session σ → Prop} (h : Q a s) :
    Acting c K N (pure a : Restore σ H α) s Q := Traced.along_pure (acts_composes c K N) h

theorem acting_raise {e : XError} {Q : α → Session σ → Prop} (h : e ≠ .outOfFuel) :
    Acting c K N (Traced.raise e : Restore σ H α) s Q :=
  Traced.along_raise (acts_composes c K N) fun _ _ => h

theorem acting_outOfFuel {Q : α → Session σ → Prop}
    (never : headerSize ≤ c.dwBufferSize → c.dwBufferSize < 2 ^ 32 - 19 → False) :
    Acting c K N (Traced.raise .outOfFuel : Restore σ H α) s Q :=
  Traced.along_raise (acts_composes c K N) fun lower upper => (never lower upper).elim

theorem acting_bind {Q : α → Session σ → Prop} {Q' : β → Session σ → Prop}
    (first : Acting c K N x s Q)
    (next : ∀ a s', remaining c s' ≤ remaining c s → Q a s' → Acting c K N (f a) s' Q') :
    Acting c K N (x >>= f) s Q' :=
  Traced.along_bind (acts_composes c K N) first fun _ a s' acts h => next a s' acts.forward h

theorem acting_silent {a : α} {s' : Session σ} (run : x s = .ok [] a s') (disk : s'.disk = s.disk)
    (forward : remaining c s' ≤ remaining c s)
    (ordered : s.headerPos ≤ s.pos → s'.headerPos ≤ s'.pos) {Q : β → Session σ → Prop}
    (next : Acting c K N (f a) s' Q) : Acting c K N (x >>= f) s Q :=
  Traced.along_bind_ok (acts_composes c K N) run ⟨disk, forward, ordered, by simp, by simp⟩ next

theorem Acting.mono {Q Q' : α → Session σ → Prop} (h : Acting c K N x s Q)
    (weaker : ∀ a s', remaining c s' ≤ remaining c s → Q a s' → Q' a s') : Acting c K N x s Q' :=
  Traced.Along.mono h fun _ a s' acts => weaker a s' acts.forward

theorem acting_header {f : Win32StreamId → Restore σ H β} {Q : β → Session σ → Prop}
    (next : Acting c K N (f s.header) s Q) : Acting c K N (header >>= f) s Q :=
  acting_silent (header_run s) rfl (Nat.le_refl _) id next

theorem acting_bufferAt {f : List BYTE → Restore σ H β} {Q : β → Session σ → Prop}
    {offset length : Nat} (next : Acting c K N (f (s.Buffer.read offset length)) s Q) :
    Acting c K N (bufferAt offset length >>= f) s Q :=
  acting_silent (bufferAt_run offset length s) rfl (Nat.le_refl _) id next

theorem acting_cancelled {f : Bool → Restore σ H β} {Q : β → Session σ → Prop}
    (next : Acting c K N (f (c.bCancel s.pos)) s Q) : Acting c K N (cancelled c >>= f) s Q :=
  acting_silent (cancelled_run c s) rfl (Nat.le_refl _) id next

theorem acting_call (request : Call H) (touches : request.touches K N) :
    Acting c K N (call c request) s fun reply s' =>
      (request.creates → On K reply.handle) ∧ s'.Buffer = s.Buffer ∧ s'.pos = s.pos := by
  refine Traced.along_of_ok (call_run c request s) fun all =>
    ⟨⟨⟨rfl, rfl⟩, Nat.le_refl _, id, ?_, ?_⟩, ?_, rfl, rfl⟩
  · simp [StreamEvent]
  · simpa [Touches] using touches
  · intro creates h opened
    have kept := all _ (List.mem_singleton_self _)
    cases reply : (c.system request s.disk).1 <;> rw [reply] at opened kept <;>
      simp only [Reply.handle, Option.some.injEq, reduceCtorEq] at opened
    subst opened
    exact kept creates

theorem acting_countFile : Acting c K N countFile s fun _ s' => s'.Buffer = s.Buffer ∧ s'.pos = s.pos :=
  Traced.along_of_ok (countFile_run s) fun _ =>
    ⟨⟨rfl, Nat.le_refl _, id, by simp, by simp⟩, rfl, rfl⟩

theorem acting_locate (position : Position) {dwBytesRead offset length : Nat}
    (place : (offset, length) = position.place s.header dwBytesRead)
    (filled : dwBytesRead = headerSize + firstBlock c.dwBufferSize s.header)
    (payload : position = .payload → 0 < s.header.Size.toInt) :
    Acting c K N (locate c position dwBytesRead offset length) s fun _ s' =>
      s' = s ∧ offset + length ≤ c.dwBufferSize := by
  have acts : Acts c K N s [.located position s.header dwBytesRead offset length] s :=
    ⟨rfl, Nat.le_refl _, id, by simpa [StreamEvent] using ⟨place, filled, payload⟩, by simp [Touches]⟩
  by_cases inside : offset + length ≤ c.dwBufferSize
  · exact Traced.along_of_ok (by simp only [locate, inside, if_true]; rfl) fun _ =>
      ⟨acts, rfl, inside⟩
  · exact Traced.along_of_error (by simp only [locate, inside, if_false]; rfl) fun _ =>
      ⟨acts, fun _ _ => by decide⟩

theorem acting_locateBlock {BytesToRead : Int} {size : Nat} (left : BytesToRead ≠ 0)
    (block : size = if BytesToRead > c.dwBufferSize then c.dwBufferSize else lowPart BytesToRead) :
    Acting c K N (locateBlock c BytesToRead size) s fun _ s' => s' = s ∧ size ≤ c.dwBufferSize := by
  have acts : Acts c K N s [.nextBlock BytesToRead size] s :=
    ⟨rfl, Nat.le_refl _, id, by simpa [StreamEvent] using ⟨left, block⟩, by simp [Touches]⟩
  by_cases inside : size ≤ c.dwBufferSize
  · exact Traced.along_of_ok (by simp only [locateBlock, inside, if_true]; rfl) fun _ =>
      ⟨acts, rfl, inside⟩
  · exact Traced.along_of_error (by simp only [locateBlock, inside, if_false]; rfl) fun _ =>
      ⟨acts, fun _ _ => by decide⟩

theorem acting_passedOver {h : Win32StreamId} (unnamed : h.nameSize = 0) (BytesToRead : Int) :
    Acting c K N (note (.passedOver h BytesToRead)) s fun _ s' => s' = s :=
  Traced.along_of_ok rfl fun _ =>
    ⟨⟨rfl, Nat.le_refl _, id, by simpa [StreamEvent] using unnamed, by simp [Touches]⟩, rfl⟩

theorem acting_readArchive (lpBuf dwSize : Nat) :
    Acting c K N (readArchive c lpBuf dwSize) s fun n s' =>
      n = min dwSize (remaining c s) ∧ remaining c s' + n = remaining c s ∧
        (headerSize ≤ lpBuf → s'.header = s.header) := by
  have size := c.archive.length_readLoop s.pos dwSize
  refine Traced.along_of_ok (readArchive_run c lpBuf dwSize s) fun _ =>
    ⟨⟨rfl, ?_, fun h => Session.afterRead_ordered h lpBuf dwSize, by simp, by simp⟩, ?_, ?_, ?_⟩
  · simp only [remaining, Session.afterRead]
    omega
  · simpa only [remaining] using size
  · simp only [remaining, Session.afterRead, size]
    omega
  · intro behind
    simp only [Session.header, Session.afterRead]
    rw [Cells.read_write_before _ _ (by omega)]

end Acting

end StrArc
