import LtrData.StrArc.Archived
import LtrData.StrArc.TreeActions

namespace StrArc

open Traced

variable {σ H : Type}

/-- The position with the length behind it lies in the buffer, and no size has wrapped around. -/
def Event.InBuffer (dwBufferSize : Nat) : Event H → Prop
  | .located position _ dwBytesRead offset length =>
    offset + length ≤ dwBufferSize ∧ (position = .payload → offset ≤ dwBytesRead)
  | .nextBlock BytesToRead size => size ≤ dwBufferSize ∧ (size : Int) ≤ BytesToRead
  | _ => True

/-- What the fields of the header have to satisfy for each position. -/
def Position.FieldsFit (dwBufferSize : Nat) (h : Win32StreamId) : Position → Prop
  | shownName => headerSize + h.nameSize ≤ dwBufferSize
  | shownStart => headerSize + h.nameSize + 8 ≤ dwBufferSize
  | shownTarget => headerSize + h.nameSize + h.Size.toNat % 2 ^ 32 / 2 * 2 ≤ dwBufferSize
  | startPosition => headerSize + h.nameSize + 8 ≤ dwBufferSize
  | linkName => h.dataOffset + h.Size.toNat % 2 ^ 16 ≤ dwBufferSize
  | streamName => headerSize + h.nameSize % 2 ^ 16 ≤ dwBufferSize
  | payload => h.dataOffset ≤ dwBufferSize ∧
    (h.dataOffset ≤ headerSize ∨ h.dataOffset + h.Size.toInt < 2 ^ 63 + headerSize)

def Event.FieldsFit (dwBufferSize : Nat) : Event H → Prop
  | .located position h _ _ _ => position.FieldsFit dwBufferSize h
  | .nextBlock BytesToRead _ => 0 ≤ BytesToRead
  | _ => True

instance (dwBufferSize : Nat) : DecidablePred (Event.InBuffer dwBufferSize : Event H → Prop)
  | .located .. => inferInstanceAs (Decidable (_ ∧ _))
  | .nextBlock .. => inferInstanceAs (Decidable (_ ∧ _))
  | .call .. | .passedOver .. | .rejected .. | .fileHeader .. | .restoreFile .. =>
    inferInstanceAs (Decidable True)

instance (dwBufferSize : Nat) (h : Win32StreamId) : DecidablePred (Position.FieldsFit dwBufferSize h)
  | .payload => inferInstanceAs (Decidable (_ ∧ _))
  | .shownName | .shownStart | .shownTarget | .startPosition | .linkName | .streamName =>
    inferInstanceAs (Decidable (_ ≤ _))

instance (dwBufferSize : Nat) : DecidablePred (Event.FieldsFit dwBufferSize : Event H → Prop)
  | .located position h .. => inferInstanceAs (Decidable (position.FieldsFit dwBufferSize h))
  | .nextBlock .. => inferInstanceAs (Decidable (_ ≤ _))
  | .call .. | .passedOver .. | .rejected .. | .fileHeader .. | .restoreFile .. =>
    inferInstanceAs (Decidable True)

/-- The positions of a run are those its headers lead to. -/
def Derived (dwBufferSize : Nat) : Event H → Prop
  | .located position h dwBytesRead offset length =>
    (offset, length) = position.place h dwBytesRead ∧
      dwBytesRead = headerSize + firstBlock dwBufferSize h ∧
      (position = .payload → 0 < h.Size.toInt)
  | .nextBlock BytesToRead size =>
    BytesToRead ≠ 0 ∧ size = if BytesToRead > dwBufferSize then dwBufferSize else lowPart BytesToRead
  | _ => True

theorem StreamEvent.derived {dwBufferSize : Nat} {e : Event H} (h : StreamEvent dwBufferSize e) :
    Derived dwBufferSize e := by
  cases e <;> first | exact h | exact trivial

variable {c : Config σ H} {s : Session σ}

structure Derives (c : Config σ H) (s : Session σ) (t : List (Event H)) (s' : Session σ) : Prop where
  forward : remaining c s' ≤ remaining c s
  derived : ∀ e ∈ t, Derived c.dwBufferSize e

theorem reading_derives (c : Config σ H) : Reading c (Derives c) where
  composes := by
    refine ⟨fun s => ⟨Nat.le_refl _, by simp⟩, fun first second =>
      ⟨second.forward.trans first.forward, fun e mem => ?_⟩⟩
    rcases List.mem_append.mp mem with mem | mem
    · exact first.derived e mem
    · exact second.derived e mem
  forward h := h.forward
  silent _ forward := ⟨forward, by simp⟩
  rejected _ _ _ := ⟨Nat.le_refl _, by simp [Derived]⟩
  fileHeader _ _ := ⟨Nat.le_refl _, by simp [Derived]⟩

theorem restoreObject_derives :
    Along (fun _ => True) (Derives c) (Bounded c) (restoreObject c) s fun _ _ _ => True := by
  apply along_restoreObject (reading_derives c).composes
  · exact fun _ _ _ => ⟨Nat.le_refl _, by simp [Derived]⟩
  · intro File FileInfo ShortName
    exact (restoreFile_acts (fun _ => trivial) (fun _ => trivial) File FileInfo ShortName).weaken
      (fun e _ => opens_anything e)
      fun _ _ _ acts => ⟨acts.forward, fun e mem => (acts.events e mem).derived⟩

theorem restoreDirectoryTree_derives (disk : σ) :
    ∀ e ∈ (restoreDirectoryTree c (Session.start disk)).events, Derived c.dwBufferSize e :=
  (((reading_derives c).along_restoreDirectoryTree fun _ => restoreObject_derives).outcome
    fun _ _ => trivial).1.derived

theorem payload_inside {h : Win32StreamId} (large : headerSize ≤ c.dwBufferSize)
    (size : 0 < h.Size.toInt) :
    h.dataOffset + dwordSub (headerSize + firstBlock c.dwBufferSize h) h.dataOffset ≤
        c.dwBufferSize ∧ h.dataOffset ≤ headerSize + firstBlock c.dwBufferSize h ↔
      Position.FieldsFit c.dwBufferSize h .payload := by
  have dword := c.isDword
  have offset := dataOffset_lt h
  have upper := BitVec.toInt_lt (x := h.Size)
  have filled := firstBlock_le (c := c) h large
  have twenty : headerSize = 20 := rfl
  simp only [Position.FieldsFit]
  by_cases fits : (h.dataOffset : Int) + h.Size.toInt - headerSize < 2 ^ 63
  · have quad := quadPart_of_lt (x := h.dataOffset + h.Size.toInt - headerSize) (by omega) fits
    by_cases positive : quadPart (h.dataOffset + h.Size.toInt - headerSize) > 0
    · have within : h.dataOffset ≤ c.dwBufferSize →
          h.dataOffset ≤ headerSize + firstBlock c.dwBufferSize h := by
        rw [firstBlock_of_pos _ positive, dwordSub_of_le large dword]
        split
        · omega
        · rw [lowPart]
          omega
      constructor
      · intro facts
        rcases facts with ⟨-, below⟩
        omega
      · intro facts
        rcases facts with ⟨below, -⟩
        have below := within below
        rw [dwordSub_of_le below (by omega)]
        omega
    · rw [firstBlock_of_nonpos _ positive, dwordSub_of_le (by omega) (by omega)]
      omega
  · have quad := quadPart_of_ge (x := h.dataOffset + h.Size.toInt - headerSize) (by omega) (by omega)
    rw [firstBlock_of_nonpos _ (by omega)]
    omega

theorem inBuffer_iff {e : Event H} (large : headerSize ≤ c.dwBufferSize)
    (derived : Derived c.dwBufferSize e) :
    e.InBuffer c.dwBufferSize ↔ e.FieldsFit c.dwBufferSize := by
  cases e with
  | located position h dwBytesRead offset length =>
    obtain ⟨place, rfl, size⟩ := derived
    have dword := c.isDword
    cases position <;> simp only [Position.place, Prod.mk.injEq] at place <;>
      obtain ⟨rfl, rfl⟩ := place <;>
      simp only [Event.InBuffer, Event.FieldsFit, reduceCtorEq, false_implies, and_true,
        true_implies]
    case payload => exact payload_inside large (size rfl)
    all_goals rfl
  | nextBlock BytesToRead size =>
    obtain ⟨notDone, rfl⟩ := derived
    have dword := c.isDword
    simp only [Event.InBuffer, Event.FieldsFit]
    split
    · omega
    · rw [lowPart]
      omega
  | _ => rfl

def emptySystem : System Unit Unit
  | .openFile .., d => (.failed 2, d)
  | .createFile .., d => (.opened (), d)
  | .createDirectory .., d => (.opened (), d)
  | _, d => (.success, d)

def sampleConfig (bytes : List BYTE) : Config Unit Unit where
  archive := ⟨bytes, fun _ => 0⟩
  dwBufferSize := 65536
  isDword := bufferSize_dword
  options := {}
  system := emptySystem
  included _ _ := true
  bCancel _ := false

/-- A link record whose name size wraps around and whose link name begins two bytes into the
    buffer and is 65535 bytes long. -/
def wrappingLink : List BYTE :=
  (emptyFile 0x61).encode ++
    Win32StreamId.encode ⟨backupLink, 0, -1, 0xFFFFFFEE⟩

end StrArc
