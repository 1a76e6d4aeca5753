import LtrData.StrArc.ObjectActions

namespace StrArc

open Traced

variable {σ H : Type}

/-- A relation between the states of a restore that its reader stays within. -/
structure Reading (c : Config σ H) (P : Session σ → List (Event H) → Session σ → Prop) : Prop where
  composes : Composes P
  forward : ∀ {s t s'}, P s t s' → remaining c s' ≤ remaining c s
  silent : ∀ {s s'}, s'.disk = s.disk → remaining c s' ≤ remaining c s → P s [] s'
  rejected : ∀ s start pos, P s [.rejected start pos] s
  fileHeader : ∀ s start, P s [.fileHeader start] s

section

variable {c : Config σ H} {P : Session σ → List (Event H) → Session σ → Prop}
  {kept : Event H → Prop} {s : Session σ}

theorem Reading.along_readArchive (reading : Reading c P) (lpBuf dwSize : Nat) :
    Along kept P (Bounded c) (readArchive c lpBuf dwSize) s fun t n s' =>
      t = [] ∧ remaining c s' + n = remaining c s ∧ (headerSize ≤ lpBuf → s'.header = s.header) := by
  have size := c.archive.length_readLoop s.pos dwSize
  refine along_of_ok (readArchive_run c lpBuf dwSize s) fun _ =>
    ⟨reading.silent rfl ?_, rfl, ?_, fun behind => ?_⟩
  · simp only [remaining, Session.afterRead]
    omega
  · simp only [remaining, Session.afterRead, size]
    omega
  · simp only [Session.header, Session.afterRead]
    rw [Cells.read_write_before _ _ (by omega)]

theorem Reading.along_seekFileHeader (reading : Reading c P) (fuel : Nat)
    (enough : remaining c s < fuel) :
    Along kept P (Bounded c) (seekFileHeader c fuel) s fun _ found s' =>
      found = true → validFileHeader s'.header = true ∧ remaining c s' < remaining c s := by
  induction fuel generalizing s with
  | zero => omega
  | succ fuel ih =>
    unfold seekFileHeader
    apply along_bind_ok reading.composes (cancelled_run c s) (reading.silent rfl (Nat.le_refl _))
    split
    · exact along_pure reading.composes fun absurd => by cases absurd
    · apply along_bind_ok reading.composes (shiftHeader_run s) (reading.silent rfl (Nat.le_refl _))
      apply along_bind reading.composes (reading.along_readArchive (headerSize - 1) 1)
      intro t n s₁ _ facts
      rcases facts with ⟨rfl, taken, -⟩
      have same : remaining c { s with
          Buffer := s.Buffer.write 0 (s.Buffer.read 1 (headerSize - 1))
          headerPos := s.headerPos + 1 } = remaining c s := rfl
      split
      · exact along_pure reading.composes fun absurd => by cases absurd
      · next one =>
        rw [not_not] at one
        apply along_bind_ok reading.composes (header_run s₁) (reading.silent rfl (Nat.le_refl _))
        rw [seeksOn_eq]
        split
        · refine (ih (by omega)).mono fun _ found s₂ _ h yes => ⟨(h yes).1, ?_⟩
          have fewer := (h yes).2
          omega
        · next valid =>
          rw [Bool.not_eq_true', Bool.not_eq_false] at valid
          exact along_pure reading.composes fun _ => ⟨valid, by omega⟩

theorem Reading.along_readNextFileHeader (reading : Reading c P) :
    Along kept P (Bounded c) (readNextFileHeader c) s fun _ found s' =>
      found = true → validFileHeader s'.header = true ∧ remaining c s' < remaining c s := by
  unfold readNextFileHeader
  apply along_bind reading.composes (reading.along_readArchive 0 headerSize)
  intro t n s₁ _ facts
  rcases facts with ⟨rfl, taken, -⟩
  split
  · exact along_pure reading.composes fun absurd => by cases absurd
  · next whole =>
    have size : headerSize = 20 := rfl
    apply along_bind_ok reading.composes (header_run s₁) (reading.silent rfl (Nat.le_refl _))
    split
    · next valid => exact along_pure reading.composes fun _ => ⟨valid, by omega⟩
    · refine (reading.along_seekFileHeader _ (remaining_lt_fuel c s₁)).mono
        fun _ found s₂ _ h yes => ⟨(h yes).1, ?_⟩
      have fewer := (h yes).2
      omega

theorem Reading.along_acceptFileHeader (reading : Reading c P) :
    Along kept P (Bounded c) (acceptFileHeader c) s fun _ found s' =>
      found = true → validFileHeader s'.header = true ∧ remaining c s' ≤ remaining c s := by
  unfold acceptFileHeader
  apply along_bind_ok reading.composes (header_run s) (reading.silent rfl (Nat.le_refl _))
  split
  · apply along_bind_ok reading.composes (noteRejected_run s) (reading.rejected s _ _)
    exact reading.along_readNextFileHeader.mono fun _ found s' _ h yes =>
      ⟨(h yes).1, Nat.le_of_lt (h yes).2⟩
  · next valid =>
    rw [invalidFileHeader_eq, Bool.not_eq_true', Bool.not_eq_false] at valid
    exact along_pure reading.composes fun _ => ⟨valid, Nat.le_refl _⟩

theorem validFileHeader_size {h : Win32StreamId} (valid : validFileHeader h = true) :
    0 < (h.nameSize + h.Size.toNat) % 2 ^ 32 := by
  simp only [validFileHeader, decide_eq_true_eq] at valid
  obtain ⟨-, -, size, positive, bound, -⟩ := valid
  have bytes : h.Size.toNat = 52 ∨ h.Size.toNat = 78 := by
    rcases size with size | size <;> rw [size] <;> decide
  omega

theorem Reading.along_restoreAccepted (reading : Reading c P)
    (object : ∀ s, Along kept P (Bounded c) (restoreObject c) s fun _ _ _ => True)
    (valid : validFileHeader s.header = true) :
    Along kept P (Bounded c) (restoreAccepted c) s fun _ more s' =>
      more = true → remaining c s' < remaining c s := by
  have size := validFileHeader_size valid
  have same : P s [] s := reading.silent rfl (Nat.le_refl _)
  unfold restoreAccepted
  apply along_bind_ok reading.composes (noteFileHeader_run s) (reading.fileHeader s _)
  apply along_bind_ok reading.composes (header_run s) same
  dsimp only
  split
  · exact along_raise reading.composes fun _ _ => by decide
  apply along_bind reading.composes (reading.along_readArchive headerSize _)
  intro t n s₁ _ facts
  rcases facts with ⟨rfl, taken, -⟩
  split
  · apply along_bind reading.composes reading.along_readNextFileHeader
    intro t' found s₂ _ searched
    split
    · next more =>
      have fewer := (searched more).2
      exact along_pure reading.composes fun _ => by omega
    · exact along_raise reading.composes fun _ _ => by decide
  · next whole =>
    rw [not_not] at whole
    refine (object s₁).mono fun t' more s₂ along _ _ => ?_
    have fewer := reading.forward along
    omega

theorem Reading.along_directoryTreeLoop (reading : Reading c P)
    (object : ∀ s, Along kept P (Bounded c) (restoreObject c) s fun _ _ _ => True) (fuel : Nat)
    (enough : remaining c s < fuel) :
    Along kept P (Bounded c) (directoryTreeLoop c fuel) s fun _ _ _ => True := by
  induction fuel generalizing s with
  | zero => omega
  | succ fuel ih =>
    unfold directoryTreeLoop
    apply along_bind reading.composes reading.along_acceptFileHeader
    intro t found s₁ _ accepted
    split
    · next yes =>
      obtain ⟨valid, fewer⟩ := accepted yes
      apply along_bind reading.composes (reading.along_restoreAccepted object valid)
      intro t' more s₂ _ restored
      split
      · next again =>
        have fewer' := restored again
        exact ih (by omega)
      · exact along_pure reading.composes trivial
    · exact along_pure reading.composes trivial

theorem Reading.along_restoreDirectoryTree (reading : Reading c P)
    (object : ∀ s, Along kept P (Bounded c) (restoreObject c) s fun _ _ _ => True) :
    Along kept P (Bounded c) (restoreDirectoryTree c) s fun _ _ _ => True := by
  unfold restoreDirectoryTree
  apply along_bind reading.composes reading.along_readNextFileHeader
  intro t found s₁ _ _
  split
  · exact reading.along_directoryTreeLoop object _ (remaining_lt_fuel c s₁)
  · exact along_pure reading.composes trivial

theorem along_restoreObject {R : XError → Prop} (composes : Composes P)
    (object : ∀ File FileInfo ShortName, P s [.restoreFile s.headerPos File FileInfo ShortName] s)
    (file : ∀ File FileInfo ShortName,
      Along kept P R (restoreFile c File FileInfo ShortName) s fun _ _ _ => True) :
    Along kept P R (restoreObject c) s fun _ _ _ => True := by
  unfold restoreObject
  apply along_bind_ok composes (header_run s) (composes.nil s)
  apply along_bind_ok composes (bufferAt_run _ _ s) (composes.nil s)
  apply along_bind_ok composes (bufferAt_run _ _ s) (composes.nil s)
  apply along_bind_ok composes (bufferAt_run _ _ s) (composes.nil s)
  apply along_bind_ok composes (noteRestoreFile_run _ _ _ s) (object _ _ _)
  exact file _ _ _

/-- The disk has become what the calls make of it. -/
structure Obeys (c : Config σ H) (s : Session σ) (t : List (Event H)) (s' : Session σ) : Prop where
  forward : remaining c s' ≤ remaining c s
  follows : Follows c.system s.disk t s'.disk

theorem reading_obeys (c : Config σ H) : Reading c (Obeys c) where
  composes := ⟨fun _ => ⟨Nat.le_refl _, rfl⟩, fun first second =>
    ⟨second.forward.trans first.forward, first.follows.append second.follows⟩⟩
  forward h := h.forward
  silent same forward := ⟨forward, same⟩
  rejected _ _ _ := ⟨Nat.le_refl _, rfl⟩
  fileHeader _ _ := ⟨Nat.le_refl _, rfl⟩

theorem restoreObject_obeys :
    Along (fun _ => True) (Obeys c) (Bounded c) (restoreObject c) s fun _ _ _ => True := by
  apply along_restoreObject (reading_obeys c).composes
  · exact fun _ _ _ => ⟨Nat.le_refl _, rfl⟩
  · intro File FileInfo ShortName
    exact (restoreFile_acts (fun _ => trivial) (fun _ => trivial) File FileInfo ShortName).weaken
      (fun e _ => opens_anything e) fun _ _ _ acts => ⟨acts.forward, acts.follows⟩

theorem restoreDirectoryTree_follows (disk : σ) :
    Follows c.system disk (restoreDirectoryTree c (Session.start disk)).events
      (restoreDirectoryTree c (Session.start disk)).state.disk := by
  have along : Along (fun _ => True) (Obeys c) (Bounded c) (restoreDirectoryTree c)
      (Session.start disk) fun _ _ _ => True :=
    (reading_obeys c).along_restoreDirectoryTree fun _ => restoreObject_obeys
  exact (along.outcome fun _ _ => trivial).1.follows

end

end StrArc
