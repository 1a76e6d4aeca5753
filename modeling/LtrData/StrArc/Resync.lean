import LtrData.StrArc.Bounds

namespace StrArc

open Traced

variable {σ H : Type} {c : Config σ H} {s : Session σ}

def Archive.headerAt (a : Archive) (q : Nat) : Win32StreamId :=
  Win32StreamId.decode ((a.bytes.drop q).take headerSize)

/-- A valid file header starts at this offset. -/
def Archive.ValidAt (a : Archive) (q : Nat) : Prop :=
  q + headerSize ≤ a.bytes.length ∧ validFileHeader (a.headerAt q) = true

instance (a : Archive) (q : Nat) : Decidable (a.ValidAt q) := by
  unfold Archive.ValidAt
  infer_instance

/-- The header in the buffer is the one at offset `q`, and nothing behind it has been read. -/
structure HeaderAt (c : Config σ H) (s : Session σ) (q : Nat) : Prop where
  pos : s.pos = q + headerSize
  headerPos : s.headerPos = q
  buffer : s.Buffer.read 0 headerSize = (c.archive.bytes.drop q).take headerSize
  inside : q + headerSize ≤ c.archive.bytes.length

theorem HeaderAt.header {q : Nat} (at_ : HeaderAt c s q) : s.header = c.archive.headerAt q := by
  rw [Session.header, at_.buffer, Archive.headerAt]

theorem HeaderAt.valid {q : Nat} (at_ : HeaderAt c s q) :
    validFileHeader s.header = true ↔ c.archive.ValidAt q := by
  rw [at_.header]
  exact ⟨fun h => ⟨at_.inside, h⟩, fun h => h.2⟩

/-- The state after the forward search has moved on by one byte. -/
def shifted (c : Config σ H) (s : Session σ) : Session σ :=
  let data := c.archive.readLoop 1 s.pos 1
  { s with
    pos := s.pos + data.length
    headerPos := s.headerPos + 1
    Buffer := (s.Buffer.write 0 (s.Buffer.read 1 (headerSize - 1))).write (headerSize - 1) data }

theorem HeaderAt.shifted {q : Nat} (at_ : HeaderAt c s q)
    (more : s.pos < c.archive.bytes.length) : HeaderAt c (shifted c s) (q + 1) := by
  have one : (c.archive.readLoop 1 s.pos 1).length = 1 := by
    rw [Archive.length_readLoop]
    omega
  refine ⟨?_, ?_, ?_, ?_⟩
  · simp only [StrArc.shifted, one]
    have pos := at_.pos
    omega
  · simp only [StrArc.shifted, at_.headerPos]
  · have window := Cells.read_write_append (s.Buffer.write 0 (s.Buffer.read 1 (headerSize - 1)))
      (c.archive.readLoop 1 s.pos 1) 0 (headerSize - 1)
    rw [one] at window
    have front := Cells.read_write_same s.Buffer 0 (s.Buffer.read 1 (headerSize - 1))
    rw [Cells.length_read] at front
    have old : s.Buffer.read 1 (headerSize - 1) =
        ((c.archive.bytes.drop q).take headerSize).drop 1 := by
      rw [← at_.buffer, Cells.drop_read _ _ (by decide)]
    simp only [StrArc.shifted]
    rw [show (0 + (headerSize - 1)) = headerSize - 1 from rfl] at window
    rw [show headerSize = headerSize - 1 + 1 from rfl, show headerSize - 1 + 1 - 1 = headerSize - 1 from rfl,
      window, front, old, c.archive.readLoop_eq _ _ _ (Nat.le_refl _), at_.pos, List.drop_take,
      List.drop_drop, show headerSize - 1 + 1 = headerSize from rfl]
    have split := List.take_add (l := c.archive.bytes.drop (q + 1)) (i := headerSize - 1) (j := 1)
    rw [List.drop_drop] at split
    rw [show q + headerSize = q + 1 + (headerSize - 1) by simp only [headerSize]]
    exact split.symm
  · have pos := at_.pos
    omega

/-- What a forward search beyond offset `q` finds. -/
def Found (c : Config σ H) (from_ : Nat) (found : Bool) (s' : Session σ) : Prop :=
  if found then ∃ q, HeaderAt c s' q ∧ IsLeast {r | from_ ≤ r ∧ c.archive.ValidAt r} q
  else ∀ r, from_ ≤ r → ¬ c.archive.ValidAt r

theorem Found.from_pred {q : Nat} {found : Bool} (finds : Found c (q + 1) found s)
    (invalid : ¬ c.archive.ValidAt q) : Found c q found s := by
  have later {r : Nat} (lower : q ≤ r) (valid : c.archive.ValidAt r) : q + 1 ≤ r := by
    rcases Nat.eq_or_lt_of_le lower with rfl | above
    · exact absurd valid invalid
    · exact above
  unfold Found at finds ⊢
  split
  · next yes =>
    rw [if_pos yes] at finds
    obtain ⟨q', at', ⟨above, holds⟩, least⟩ := finds
    exact ⟨q', at', ⟨by omega, holds⟩, fun r ⟨lower, valid⟩ => least ⟨later lower valid, valid⟩⟩
  · next no =>
    rw [if_neg no] at finds
    exact fun r lower valid => finds r (later lower valid) valid

theorem headerAt_afterRead (inside : s.pos + headerSize ≤ c.archive.bytes.length) :
    HeaderAt c (s.afterRead c 0 headerSize) s.pos := by
  have data := c.archive.readLoop_eq headerSize s.pos headerSize (Nat.le_refl _)
  have size := c.archive.length_readLoop s.pos headerSize
  rw [Nat.min_eq_left (by omega)] at size
  have same := Cells.read_write_same s.Buffer 0 (c.archive.readLoop headerSize s.pos headerSize)
  rw [size] at same
  exact ⟨by simp only [Session.afterRead, size], rfl, by rw [← data]; exact same, inside⟩

/-- How a forward search ends: with the first header, at the end of the archive, or cancelled. -/
def Sought (c : Config σ H) (from_ : Nat) (found : Bool) (s' : Session σ) : Prop :=
  Found c from_ found s' ∧ (found = false → remaining c s' = 0) ∨
    found = false ∧ c.bCancel s'.pos = true

theorem Sought.from_pred {q : Nat} {found : Bool} (sought : Sought c (q + 1) found s)
    (invalid : ¬ c.archive.ValidAt q) : Sought c q found s := by
  rcases sought with ⟨finds, atEnd⟩ | cancelled
  · exact Or.inl ⟨finds.from_pred invalid, atEnd⟩
  · exact Or.inr cancelled

theorem Sought.found {q : Nat} {found : Bool} (sought : Sought c q found s)
    (quiet : ∀ pos, c.bCancel pos = false) : Found c q found s := by
  rcases sought with ⟨finds, -⟩ | ⟨-, cancelled⟩
  · exact finds
  · rw [quiet] at cancelled
    cases cancelled

theorem sought_end {from_ : Nat} {s' : Session σ}
    (short : c.archive.bytes.length < from_ + headerSize) (atEnd : remaining c s' = 0) :
    Sought c from_ false s' := by
  refine Or.inl ⟨fun r above valid => ?_, fun _ => atEnd⟩
  have inside := valid.1
  omega

theorem HeaderAt.sought {q : Nat} (at_ : HeaderAt c s q) (valid : validFileHeader s.header = true) :
    Sought c q true s := by
  have least : IsLeast {r | q ≤ r ∧ c.archive.ValidAt r} q :=
    ⟨⟨Nat.le_refl _, at_.valid.mp valid⟩, fun r h => h.1⟩
  exact Or.inl ⟨⟨q, at_, least⟩, by simp⟩

theorem seekFileHeader_seeks (fuel : Nat) {q : Nat} (at_ : HeaderAt c s q)
    (enough : remaining c s < fuel) :
    Ensures (seekFileHeader c fuel) s (fun t found s' => t = [] ∧ Sought c (q + 1) found s')
      (fun _ _ _ => False) := by
  induction fuel generalizing s q with
  | zero => omega
  | succ fuel ih =>
    unfold seekFileHeader
    apply ensures_bind_ok (cancelled_run c s)
    split
    · next cancelled => exact ensures_pure ⟨rfl, Or.inr ⟨rfl, cancelled⟩⟩
    apply ensures_bind_ok (shiftHeader_run s)
    apply ensures_bind_ok (readArchive_run c (headerSize - 1) 1 _)
    change Ensures _ (shifted c s) _ _
    rw [c.archive.length_readLoop]
    have pos := at_.pos
    split
    · next short =>
      dsimp only at short
      have stop : c.archive.bytes.length ≤ s.pos := by omega
      have nothing : (c.archive.readLoop 1 s.pos 1).length = 0 := by
        rw [c.archive.length_readLoop]
        omega
      refine ensures_pure ⟨rfl, sought_end (by omega) ?_⟩
      simp only [remaining, shifted, nothing]
      omega
    · next one =>
      have more : s.pos < c.archive.bytes.length := by
        dsimp only at one
        omega
      have next := at_.shifted more
      apply ensures_bind_ok (header_run _)
      rw [seeksOn_eq]
      by_cases valid : validFileHeader (shifted c s).header = true
      · rw [valid]
        exact ensures_pure ⟨rfl, next.sought valid⟩
      · rw [Bool.not_eq_true] at valid
        rw [valid]
        have fewer : remaining c (shifted c s) < fuel := by
          have pos' := next.pos
          simp only [remaining] at enough ⊢
          omega
        have invalid : ¬ c.archive.ValidAt (q + 1) := by
          rw [← next.valid, valid]
          decide
        exact (ih next fewer).mono (fun t found s' h => ⟨h.1, h.2.from_pred invalid⟩)
          (fun _ _ _ => id)

theorem readNextFileHeader_seeks :
    Ensures (readNextFileHeader c) s (fun t found s' => t = [] ∧ Sought c s.pos found s')
      (fun _ _ _ => False) := by
  unfold readNextFileHeader
  apply ensures_bind_ok (readArchive_run c 0 headerSize s)
  have size : headerSize = 20 := rfl
  have length := c.archive.length_readLoop s.pos headerSize
  split
  · next short =>
    rw [length] at short
    refine ensures_pure ⟨rfl, sought_end (by omega) ?_⟩
    simp only [remaining, Session.afterRead, length]
    omega
  · next whole =>
    rw [length] at whole
    have at_ := headerAt_afterRead (show s.pos + headerSize ≤ c.archive.bytes.length by omega)
    apply ensures_bind_ok (header_run _)
    by_cases valid : validFileHeader (s.afterRead c 0 headerSize).header = true
    · rw [if_pos valid]
      exact ensures_pure ⟨rfl, at_.sought valid⟩
    · rw [if_neg valid]
      have invalid : ¬ c.archive.ValidAt s.pos := by
        rw [← at_.valid]
        exact valid
      exact (seekFileHeader_seeks _ at_ (remaining_lt_fuel c _)).mono
        (fun t found s' h => ⟨h.1, h.2.from_pred invalid⟩) (fun _ _ _ => id)

/-- A header that is found is the leftmost one, whatever the archive holds before it and however
    its bytes come in. -/
theorem readNextFileHeader_leftmost (c : Config σ H) (s : Session σ) :
    ∃ found s', readNextFileHeader c s = .ok [] found s' ∧
      if found then
        ∃ q, IsLeast {r | s.pos ≤ r ∧ c.archive.ValidAt r} q ∧
          s'.Buffer.read 0 headerSize = (c.archive.bytes.drop q).take headerSize ∧
          s'.pos = q + headerSize
      else
        (∀ r, s.pos ≤ r → ¬ c.archive.ValidAt r) ∧ c.archive.bytes.drop s'.pos = [] ∨
          c.bCancel s'.pos = true := by
  have seeks := readNextFileHeader_seeks (c := c) (s := s)
  cases run : readNextFileHeader c s with
  | error t e s' => exact ((ensures_of_error run).mp seeks).elim
  | ok t found s' =>
    obtain ⟨rfl, sought⟩ := (ensures_of_ok run).mp seeks
    refine ⟨found, s', rfl, ?_⟩
    rcases sought with ⟨finds, atEnd⟩ | ⟨rfl, cancelled⟩
    · cases found with
      | true =>
        obtain ⟨q, at_, least⟩ := finds
        exact ⟨q, least, at_.buffer, at_.pos⟩
      | false =>
        have none_left := atEnd rfl
        rw [remaining, Nat.sub_eq_zero_iff_le] at none_left
        exact Or.inl ⟨finds, List.drop_eq_nil_of_le none_left⟩
    · exact Or.inr cancelled

theorem readNextFileHeader_finds (quiet : ∀ pos, c.bCancel pos = false) :
    Ensures (readNextFileHeader c) s (fun t found s' => t = [] ∧ Found c s.pos found s')
      (fun _ _ _ => False) :=
  readNextFileHeader_seeks.mono (fun _ _ _ h => ⟨h.1, h.2.found quiet⟩) (fun _ _ _ => id)

/-- The offset of the next file header that is accepted. -/
def nextFileHeader : List (Event H) → Option Nat
  | [] => none
  | .fileHeader start :: _ => some start
  | _ :: t => nextFileHeader t

/-- The next accepted header is the first valid one at or behind an offset, and none if there is
    none. -/
def ResumesAt (a : Archive) (from_ : Nat) : Option Nat → Prop
  | some q => IsLeast {r | from_ ≤ r ∧ a.ValidAt r} q
  | none => ∀ r, from_ ≤ r → ¬ a.ValidAt r

/-- After each rejected header, the restore goes on with the first valid header behind what it
    has read. -/
def Resumes (a : Archive) : List (Event H) → Prop
  | [] => True
  | .rejected start pos :: t =>
    start ≤ pos ∧ ResumesAt a pos (nextFileHeader t) ∧ Resumes a t
  | _ :: t => Resumes a t

def Event.isRejected : Event H → Bool
  | .rejected .. => true
  | _ => false

theorem Resumes.append {a : Archive} {t t' : List (Event H)}
    (accepted : ∀ e ∈ t, e.isRejected = false) (h : Resumes a t') : Resumes a (t ++ t') := by
  induction t with
  | nil => exact h
  | cons e t ih =>
    have rest := ih fun e mem => accepted e (List.mem_cons_of_mem _ mem)
    have here := accepted e List.mem_cons_self
    cases e <;> first | exact rest | cases here

theorem Resumes.at {a : Archive} {before after : List (Event H)} {start pos : Nat}
    (h : Resumes a (before ++ .rejected start pos :: after)) :
    start ≤ pos ∧ ResumesAt a pos (nextFileHeader after) := by
  induction before with
  | nil => exact ⟨h.1, h.2.1⟩
  | cons e before ih =>
    cases e <;> first | exact ih h | exact ih h.2.2

theorem restoreObject_accepts :
    Along (fun _ => True) (fun s t s' => (s.headerPos ≤ s.pos → s'.headerPos ≤ s'.pos) ∧
      ∀ e ∈ t, e.isRejected = false) (Bounded c) (restoreObject c) s fun _ _ _ => True := by
  apply along_restoreObject
  · refine ⟨fun s => ⟨id, by simp⟩, fun first second =>
      ⟨second.1 ∘ first.1, fun e mem => ?_⟩⟩
    rcases List.mem_append.mp mem with mem | mem
    · exact first.2 e mem
    · exact second.2 e mem
  · exact fun _ _ _ => ⟨id, by simp [Event.isRejected]⟩
  · intro File FileInfo ShortName
    refine (restoreFile_acts (fun _ => trivial) (fun _ => trivial) File FileInfo ShortName).weaken
      (fun e _ => opens_anything e) fun _ _ _ acts => ⟨acts.ordered, fun e mem => ?_⟩
    have inner := acts.events e mem
    cases e <;> first | rfl | exact inner.elim

theorem acceptFileHeader_finds (quiet : ∀ pos, c.bCancel pos = false) :
    Ensures (acceptFileHeader c) s (fun t found s' => t = [] ∧ found = true ∧ s' = s ∨
      t = [.rejected s.headerPos s.pos] ∧ Found c s.pos found s') (fun _ _ _ => False) := by
  unfold acceptFileHeader
  apply ensures_bind_ok (header_run s)
  split
  · apply ensures_bind_ok (noteRejected_run s)
    refine (readNextFileHeader_finds quiet).mono (fun t found s' h => Or.inr ?_) (fun _ _ _ => id)
    obtain ⟨rfl, finds⟩ := h
    exact ⟨rfl, finds⟩
  · exact ensures_pure (Or.inl ⟨rfl, rfl, rfl⟩)

/-- The events of a round with an accepted header: the header, and nothing that is rejected. -/
def Round (start : Nat) (t : List (Event H)) : Prop :=
  ∃ t', t = .fileHeader start :: t' ∧ ∀ e ∈ t', e.isRejected = false

theorem restoreAccepted_round (quiet : ∀ pos, c.bCancel pos = false)
    (ordered : s.headerPos ≤ s.pos) :
    Ensures (restoreAccepted c) s (fun t _ s' => Round s.headerPos t ∧ s'.headerPos ≤ s'.pos)
      (fun t _ _ => Round s.headerPos t) := by
  unfold restoreAccepted
  apply ensures_bind_ok (noteFileHeader_run s)
  apply ensures_bind_ok (header_run s)
  dsimp only
  split
  · exact ensures_raise ⟨[], rfl, by simp⟩
  apply ensures_bind_ok (readArchive_run c headerSize _ s)
  split
  · apply ensures_bind
    refine (readNextFileHeader_finds quiet).mono ?_ (fun _ _ _ => False.elim)
    intro t found s₁ facts
    rcases facts with ⟨rfl, finds⟩
    split
    · next yes =>
      rw [Found, if_pos yes] at finds
      obtain ⟨q, at_, -⟩ := finds
      refine ensures_pure ⟨⟨[], rfl, by simp⟩, ?_⟩
      rw [at_.pos, at_.headerPos]
      exact Nat.le_add_right _ _
    · exact ensures_raise ⟨[], rfl, by simp⟩
  · refine Ensures.mono restoreObject_accepts (fun t _ s₁ h => ?_) (fun t _ s₁ h => ?_)
    · obtain ⟨⟨stays, accepts⟩, -⟩ := h fun _ _ => trivial
      exact ⟨⟨t, rfl, accepts⟩, stays (Session.afterRead_ordered ordered _ _)⟩
    · obtain ⟨⟨-, accepts⟩, -⟩ := h fun _ _ => trivial
      exact ⟨t, rfl, accepts⟩

theorem Round.resumes {a : Archive} {start : Nat} {t t' : List (Event H)} (round : Round start t)
    (h : Resumes a t') : Resumes a (t ++ t') ∧ nextFileHeader (t ++ t') = some start := by
  obtain ⟨t, rfl, accepts⟩ := round
  exact ⟨Resumes.append (t := t) accepts h, rfl⟩

theorem directoryTreeLoop_resumes (quiet : ∀ pos, c.bCancel pos = false) (fuel : Nat)
    (ordered : s.headerPos ≤ s.pos) :
    Ensures (directoryTreeLoop c fuel) s (fun t _ _ => Resumes c.archive t)
      (fun t _ _ => Resumes c.archive t) := by
  induction fuel generalizing s with
  | zero =>
    unfold directoryTreeLoop
    exact ensures_raise trivial
  | succ fuel ih =>
    -- A round that begins with an accepted header, after what came before it.
    have rounds {s₁ : Session σ} (first : List (Event H)) (ordered₁ : s₁.headerPos ≤ s₁.pos)
        (fits : ∀ t, nextFileHeader t = some s₁.headerPos → Resumes c.archive t →
          Resumes c.archive (first ++ t)) :
        Ensures (do if ← restoreAccepted c then directoryTreeLoop c fuel else pure false :
            Restore σ H Bool) s₁
          (fun t _ _ => Resumes c.archive (first ++ t))
          (fun t _ _ => Resumes c.archive (first ++ t)) := by
      have alone {t : List (Event H)} (round : Round s₁.headerPos t) :
          Resumes c.archive (first ++ t) := by
        have nothing : Resumes c.archive ([] : List (Event H)) := trivial
        obtain ⟨resumes, next⟩ := round.resumes nothing
        rw [List.append_nil] at resumes next
        exact fits t next resumes
      apply ensures_bind
      refine (restoreAccepted_round quiet ordered₁).mono (fun t more s₂ h => ?_)
        (fun t _ _ round => alone round)
      obtain ⟨round, ordered₂⟩ := h
      split
      · refine (ih ordered₂).mono (fun t' _ _ resumes => ?_) (fun t' _ _ resumes => ?_)
        · exact fits _ (round.resumes resumes).2 (round.resumes resumes).1
        · exact fits _ (round.resumes resumes).2 (round.resumes resumes).1
      · apply ensures_pure
        rw [List.append_nil]
        exact alone round
    unfold directoryTreeLoop
    apply ensures_bind
    refine (acceptFileHeader_finds quiet).mono (fun t found s₁ h => ?_) (fun _ _ _ => False.elim)
    rcases h with ⟨rfl, rfl, rfl⟩ | ⟨rfl, finds⟩
    · rw [if_pos rfl]
      exact rounds [] ordered fun t _ resumes => resumes
    · split
      · next yes =>
        rw [Found, if_pos yes] at finds
        obtain ⟨q, at_, least⟩ := finds
        have ordered₁ : s₁.headerPos ≤ s₁.pos := by
          rw [at_.pos, at_.headerPos]
          exact Nat.le_add_right _ _
        apply rounds _ ordered₁
        intro t next resumes
        refine ⟨ordered, ?_, resumes⟩
        change ResumesAt c.archive s.pos (nextFileHeader t)
        rw [next, at_.headerPos]
        exact least
      · next no =>
        rw [Found, if_neg no] at finds
        exact ensures_pure ⟨ordered, finds, trivial⟩

theorem restoreDirectoryTree_events (quiet : ∀ pos, c.bCancel pos = false) (disk : σ) :
    Resumes c.archive (restoreDirectoryTree c (Session.start disk)).events := by
  have ensures : Ensures (restoreDirectoryTree c) (Session.start disk)
      (fun t _ _ => Resumes c.archive t) (fun t _ _ => Resumes c.archive t) := by
    unfold restoreDirectoryTree
    apply ensures_bind
    refine (readNextFileHeader_finds quiet).mono ?_ (fun _ _ _ => False.elim)
    intro t found s₁ facts
    rcases facts with ⟨rfl, finds⟩
    split
    · next yes =>
      rw [Found, if_pos yes] at finds
      obtain ⟨q, at_, -⟩ := finds
      apply directoryTreeLoop_resumes quiet
      rw [at_.pos, at_.headerPos]
      exact Nat.le_add_right _ _
    · exact ensures_pure trivial
  cases run : restoreDirectoryTree c (Session.start disk) with
  | ok t a s' => exact (ensures_of_ok run).mp ensures
  | error t e s' => exact (ensures_of_error run).mp ensures

theorem restoreDirectoryTree_resumes (quiet : ∀ pos, c.bCancel pos = false) (disk : σ)
    {before after : List (Event H)} {start pos : Nat}
    (run : (restoreDirectoryTree c (Session.start disk)).events =
      before ++ .rejected start pos :: after) :
    ResumesAt c.archive start (nextFileHeader after) ↔
      ∀ r, start ≤ r → r < pos → ¬ c.archive.ValidAt r := by
  have resumes := restoreDirectoryTree_events quiet disk
  rw [run] at resumes
  obtain ⟨ordered, resumes⟩ := resumes.at
  constructor
  · intro from_start r lower upper valid
    cases next : nextFileHeader after with
    | none =>
      rw [next] at from_start
      exact from_start r lower valid
    | some q =>
      rw [next] at from_start resumes
      have above := resumes.1.1
      have below := from_start.2 ⟨lower, valid⟩
      omega
  · intro none_between
    cases next : nextFileHeader after with
    | none =>
      rw [next] at resumes
      intro r lower valid
      by_cases between : r < pos
      · exact none_between r lower between valid
      · exact resumes r (by omega) valid
    | some q =>
      rw [next] at resumes
      refine ⟨⟨ordered.trans resumes.1.1, resumes.1.2⟩, fun r ⟨lower, valid⟩ => ?_⟩
      by_cases between : r < pos
      · exact absurd valid (none_between r lower between)
      · exact resumes.2 ⟨by omega, valid⟩

/-- Three files, with what is left of a damaged stream header before the second one. -/
def damagedConfig (damage : Nat) : Config Unit Unit :=
  sampleConfig ((emptyFile 0x61).encode ++ List.replicate damage 0xFF ++
    (emptyFile 0x62).encode ++ (emptyFile 0x63).encode)

def damagedRun (damage : Nat) : Outcome XError (Session Unit) (Event Unit) Bool :=
  restoreDirectoryTree (damagedConfig damage) (Session.start ())

theorem damagedRun_rejects :
    (damagedRun 20).events =
      (damagedRun 20).events.take 7 ++ .rejected 74 94 :: (damagedRun 20).events.drop 8 ∧
    (damagedRun 12).events =
      (damagedRun 12).events.take 7 ++ .rejected 74 94 :: (damagedRun 12).events.drop 8 := by
  decide +kernel

theorem restoreDirectoryTree_resumes_damaged :
    ResumesAt (damagedConfig 20).archive 74 (nextFileHeader ((damagedRun 20).events.drop 8)) := by
  have run := damagedRun_rejects.1
  generalize (damagedRun 20).events.take 7 = before, (damagedRun 20).events.drop 8 = after at run ⊢
  unfold damagedRun at run
  have none : ∀ r < 94, 74 ≤ r → ¬ (damagedConfig 20).archive.ValidAt r := by decide +kernel
  exact (restoreDirectoryTree_resumes (fun _ => rfl) () run).mpr
    fun r lower upper => none r upper lower

/-- Twelve bytes of damage: the next header begins inside the twenty bytes that have been read. -/
theorem next_header_lost :
    ¬ ∀ (c : Config Unit Unit) (disk : Unit), (∀ pos, c.bCancel pos = false) →
      ∀ before after start pos, (restoreDirectoryTree c (Session.start disk)).events =
        before ++ .rejected start pos :: after →
      ResumesAt c.archive start (nextFileHeader after) := by
  intro resumes
  have run := damagedRun_rejects.2
  have next : nextFileHeader ((damagedRun 12).events.drop 8) = some 160 := by decide +kernel
  generalize (damagedRun 12).events.take 7 = before, (damagedRun 12).events.drop 8 = after at run next
  unfold damagedRun at run
  have lost := resumes (damagedConfig 12) () (fun _ => rfl) before after 74 94 run
  rw [next] at lost
  have valid : (damagedConfig 12).archive.ValidAt 86 := by decide +kernel
  have least := lost.2 ⟨by omega, valid⟩
  omega

end StrArc
