import LtrData.Stripcr.Conversion

namespace Stripcr

def mmpSize : Nat := 524288

/-- The file and the window it is written through: `wrmap` is the number of bytes mapped at
    `wrmapfilepos`, and `wrmapptr` the place in the window, or none for NULL. -/
structure WriteMap where
  file : Cells BYTE
  wrmapfilepos : Nat
  wrmap : Nat
  wrmapptr : Option Nat
  sb2 : Nat

/-- The next window, which does not exist if no bytes are left for it. -/
def WriteMap.mmap (w : WriteMap) : Option WriteMap :=
  if w.sb2 > mmpSize then
    some { w with wrmap := mmpSize, wrmapptr := some 0, sb2 := w.sb2 - mmpSize }
  else if w.sb2 = 0 then none
  else some { w with wrmap := w.sb2, wrmapptr := some 0 }

/-- A copy within the file, to the window. -/
def WriteMap.memmove (w : WriteMap) (wrmapptr buffer length : Nat) : Option WriteMap :=
  if wrmapptr + length ≤ w.wrmap then
    some { w with file := w.file.write (w.wrmapfilepos + wrmapptr) (w.file.read buffer length) }
  else none

/-- The loop of wrfmap, and the copy behind it. In each round `buffer` is the same. -/
def wrfmapLoop : Nat → (buffer length : Nat) → WriteMap → Option WriteMap
  | 0, _, _, _ => none
  | fuel + 1, buffer, length, w =>
    match w.wrmapptr with
    | none => none
    | some wrmapptr =>
      if wrmapptr + length > mmpSize then do
        let w ← w.memmove wrmapptr buffer (mmpSize - wrmapptr)
        let w ← WriteMap.mmap { w with wrmapfilepos := w.wrmapfilepos + mmpSize }
        wrfmapLoop fuel buffer (length - (mmpSize - wrmapptr)) w
      else do
        let w ← w.memmove wrmapptr buffer length
        pure { w with wrmapptr := some (wrmapptr + length) }

def wrfmap (st_size buffer length : Nat) (w : WriteMap) : Option WriteMap := do
  let w ← if w.wrmapptr = none then WriteMap.mmap { w with sb2 := st_size } else some w
  wrfmapLoop (length + 2) buffer length w

def wrfmapTarget (st_size : Nat) : Target WriteMap where
  byteAt w ptr := w.file ptr
  sendfnc lastendpos length w := wrfmap st_size lastendpos length w

/-- The windows main reads one file through. -/
def readLoop : Nat → (rdmapfilepos st_size : Nat) → WriteMap → Option WriteMap
  | 0, _, _, _ => none
  | fuel + 1, rdmapfilepos, st_size, w =>
    if st_size > mmpSize then do
      let w ← convert (wrfmapTarget st_size) rdmapfilepos mmpSize w
      readLoop fuel (rdmapfilepos + mmpSize) (st_size - mmpSize) w
    else if st_size = 0 then none
    else convert (wrfmapTarget st_size) rdmapfilepos st_size w

/-- The file after the in-place path of main, with the ftruncate at its end. -/
def inPlaceMain (bytes : List BYTE) : Option (List BYTE) := do
  let w ← readLoop (bytes.length + 1) 0 bytes.length ⟨Cells.write (fun _ => 0) 0 bytes, 0, 0, none, 0⟩
  match w.wrmapptr with
  | none => pure (w.file.read 0 bytes.length)
  | some wrmapptr => pure (w.file.read 0 (w.wrmapfilepos + wrmapptr))

/-- What is there after one more run. A run that goes beyond its window goes on in the next one
    with its own beginning. -/
def writeRun (out run : List BYTE) : List BYTE :=
  let used := out.length % mmpSize
  if used ≠ 0 ∧ used + run.length > mmpSize then
    out ++ run.take (mmpSize - used) ++ run.take (run.length - (mmpSize - used))
  else out ++ run

/-- The runs of data in a file as it is read, window by window. -/
def windowRuns : Nat → List BYTE → List (List BYTE)
  | 0, _ => []
  | fuel + 1, bytes =>
    if bytes.length > mmpSize then
      runs (some []) (bytes.take mmpSize) ++ windowRuns fuel (bytes.drop mmpSize)
    else runs (some []) bytes

def fileRuns (bytes : List BYTE) : List (List BYTE) := windowRuns (bytes.length + 1) bytes

section Window

variable {bytes : Cells BYTE} {size : Nat} {out : List BYTE}

/-- The output is at the front of the file, and from some place on the file is as it was. -/
structure Keeps (bytes file : Cells BYTE) (out : List BYTE) (ptr : Nat) : Prop where
  written : file.read 0 out.length = out
  kept : ∀ i, ptr ≤ i → file i = bytes i
  behind : out.length ≤ ptr

theorem Keeps.read {file : Cells BYTE} {ptr : Nat} (keeps : Keeps bytes file out ptr) (length : Nat) :
    file.read ptr length = bytes.read ptr length :=
  Cells.read_congr fun i lower _ => keeps.kept i lower

theorem Keeps.append {file : Cells BYTE} {ptr ptr' : Nat} (keeps : Keeps bytes file out ptr)
    (data : List BYTE) (le : ptr ≤ ptr') (room : out.length + data.length ≤ ptr') :
    Keeps bytes (file.write out.length data) (out ++ data) ptr' := by
  refine ⟨?_, fun i above => ?_, by rw [List.length_append]; exact room⟩
  · have written := Cells.read_write_append file data 0 out.length
    rw [Nat.zero_add, keeps.written] at written
    rw [List.length_append, written]
  · rw [Cells.write_after file data (Nat.le_trans room above)]
    exact keeps.kept i (Nat.le_trans le above)

/-- The window at hand, with `o` bytes used. -/
structure Mapped (size : Nat) (w : WriteMap) (o : Nat) : Prop where
  ptr : w.wrmapptr = some o
  aligned : mmpSize ∣ w.wrmapfilepos
  used : o ≤ mmpSize
  wrmap : w.wrmap = min mmpSize (size - w.wrmapfilepos)
  sb2 : mmpSize < size - w.wrmapfilepos → w.sb2 = size - w.wrmapfilepos - mmpSize

theorem mmap_mapped (size : Nat) {w : WriteMap} (left : w.sb2 = size - w.wrmapfilepos)
    (some_ : w.wrmapfilepos < size) (aligned : mmpSize ∣ w.wrmapfilepos) :
    ∃ w', w.mmap = some w' ∧ Mapped size w' 0 ∧ w'.file = w.file ∧ w'.wrmapfilepos = w.wrmapfilepos := by
  unfold WriteMap.mmap
  by_cases more : w.sb2 > mmpSize
  · rw [if_pos more]
    refine ⟨_, rfl, ⟨rfl, aligned, Nat.zero_le _, ?_, fun _ => ?_⟩, rfl, rfl⟩
    · dsimp only
      omega
    · dsimp only
      omega
  · rw [if_neg more, if_neg (by omega)]
    refine ⟨_, rfl, ⟨rfl, aligned, Nat.zero_le _, ?_, fun _ => ?_⟩, rfl, rfl⟩
    · dsimp only
      omega
    · dsimp only at *
      omega

/-- Between two runs. The first window is mapped with the first one. -/
structure Standing (bytes : Cells BYTE) (size : Nat) (w : WriteMap) (out : List BYTE) (ptr : Nat) :
    Prop where
  keeps : Keeps bytes w.file out ptr
  window : w.wrmapptr = none ∧ w.wrmapfilepos = 0 ∧ out = [] ∨
    ∃ o, Mapped size w o ∧ w.wrmapfilepos + o = out.length

theorem memmove_keeps (ptr' length : Nat) {w : WriteMap} {o at_ : Nat} (mapped : Mapped size w o)
    (place : w.wrmapfilepos + o = out.length) (keeps : Keeps bytes w.file out at_)
    (fits : o + length ≤ mmpSize) (inside : out.length + length ≤ size) (le : at_ ≤ ptr')
    (room : out.length + length ≤ ptr') :
    ∃ file, w.memmove o at_ length = some { w with file := file } ∧
      Keeps bytes file (out ++ bytes.read at_ length) ptr' := by
  have mapsize := mapped.wrmap
  have copied := keeps.append (bytes.read at_ length) le (by rw [Cells.length_read]; exact room)
  refine ⟨_, ?_, copied⟩
  rw [WriteMap.memmove, if_pos (by omega), keeps.read, place]

theorem wrfmapLoop_fits (fuel ptr' length : Nat) {w : WriteMap} {o at_ : Nat}
    (mapped : Mapped size w o) (place : w.wrmapfilepos + o = out.length) (keeps : Keeps bytes w.file out at_)
    (fits : o + length ≤ mmpSize) (inside : out.length + length ≤ size) (le : at_ ≤ ptr')
    (room : out.length + length ≤ ptr') :
    ∃ w', wrfmapLoop (fuel + 1) at_ length w = some w' ∧
      Standing bytes size w' (out ++ bytes.read at_ length) ptr' ∧ w'.wrmapptr ≠ none := by
  obtain ⟨file, moved, keeps'⟩ :=
    memmove_keeps ptr' length mapped place keeps fits inside le room
  unfold wrfmapLoop
  rw [mapped.ptr]
  dsimp only
  rw [if_neg (by omega), moved]
  refine ⟨_, rfl, ⟨keeps', Or.inr ⟨o + length, ?_, ?_⟩⟩, by simp⟩
  · exact ⟨rfl, mapped.aligned, fits, mapped.wrmap, mapped.sb2⟩
  · rw [List.length_append, Cells.length_read, ← place, Nat.add_assoc]

theorem straddling_behind {pos o base at_ length : Nat} (aligned : mmpSize ∣ pos) (window : mmpSize ∣ base)
    (lower : base ≤ at_) (upper : at_ + length ≤ base + mmpSize) (behind : pos + o ≤ at_)
    (straddles : o + length > mmpSize) : pos + mmpSize ≤ at_ := by
  obtain ⟨j, rfl⟩ := aligned
  obtain ⟨k, rfl⟩ := window
  by_contra early
  have before : k ≤ j := by
    by_contra later
    have apart : mmpSize * (j + 1) ≤ mmpSize * k := Nat.mul_le_mul_left mmpSize (by omega)
    rw [Nat.mul_succ] at apart
    omega
  have bound := Nat.mul_le_mul_left mmpSize before
  omega

theorem wrfmapLoop_straddles (fuel : Nat) {w : WriteMap} {o base at_ length : Nat}
    (mapped : Mapped size w o) (place : w.wrmapfilepos + o = out.length)
    (keeps : Keeps bytes w.file out at_) (straddles : o + length > mmpSize)
    (window : mmpSize ∣ base) (lower : base ≤ at_) (upper : at_ + length ≤ base + mmpSize)
    (inside : at_ + length ≤ size) :
    ∃ w', wrfmapLoop (fuel + 2) at_ length w = some w' ∧
      Standing bytes size w' (out ++ bytes.read at_ (mmpSize - o) ++
        bytes.read at_ (length - (mmpSize - o))) (at_ + length) ∧ w'.wrmapptr ≠ none := by
  have used := mapped.used
  have behind := keeps.behind
  have past := straddling_behind mapped.aligned window lower upper (by omega) straddles
  obtain ⟨file, moved, keeps₁⟩ := memmove_keeps at_ (mmpSize - o) mapped place keeps
    (by omega) (by omega) (Nat.le_refl _) (by omega)
  have length₁ : (out ++ bytes.read at_ (mmpSize - o)).length = w.wrmapfilepos + mmpSize := by
    rw [List.length_append, Cells.length_read]
    omega
  obtain ⟨w₁, next, mapped₁, file₁, pos₁⟩ := mmap_mapped size
    (w := { w with file := file, wrmapfilepos := w.wrmapfilepos + mmpSize })
    (by have left := mapped.sb2; dsimp only; omega) (by dsimp only; omega)
    (Nat.dvd_add mapped.aligned (Nat.dvd_refl _))
  have keeps₁ : Keeps bytes w₁.file (out ++ bytes.read at_ (mmpSize - o)) at_ := by
    rw [file₁]
    exact keeps₁
  obtain ⟨w', run, standing⟩ := wrfmapLoop_fits fuel (at_ + length)
    (length - (mmpSize - o)) mapped₁ (by rw [pos₁, length₁]; rfl) keeps₁ (by omega)
    (by omega) (by omega) (by omega)
  refine ⟨w', ?_, standing⟩
  unfold wrfmapLoop
  rw [mapped.ptr]
  dsimp only
  rw [if_pos straddles, moved]
  dsimp only [bind, Option.bind]
  rw [next]
  exact run

theorem writeRun_eq {pos o : Nat} (aligned : mmpSize ∣ pos) (place : pos + o = out.length)
    (used : o ≤ mmpSize) {run : List BYTE} (small : run.length ≤ mmpSize) :
    writeRun out run = if o + run.length > mmpSize then
      out ++ run.take (mmpSize - o) ++ run.take (run.length - (mmpSize - o)) else out ++ run := by
  have rest : out.length % mmpSize = o % mmpSize := by
    rw [← place, Nat.add_mod, Nat.mod_eq_zero_of_dvd aligned, Nat.zero_add, Nat.mod_mod]
  rw [writeRun, rest]
  rcases Nat.eq_or_lt_of_le used with full | free
  · -- A full window is left for the next one before anything is copied.
    rw [full, Nat.mod_self, if_neg (by simp)]
    split
    · rw [Nat.sub_self, Nat.sub_zero, List.take_zero, List.append_nil, List.take_length]
    · rfl
  · rw [Nat.mod_eq_of_lt free]
    by_cases straddles : o + run.length > mmpSize
    · rw [if_pos straddles, if_pos ⟨by omega, straddles⟩]
    · rw [if_neg straddles, if_neg (fun h => straddles h.2)]

theorem wrfmap_mapped {w : WriteMap} {base at_ length o : Nat}
    (mapped : Mapped size w o) (place : w.wrmapfilepos + o = out.length)
    (keeps : Keeps bytes w.file out at_) (window : mmpSize ∣ base) (lower : base ≤ at_)
    (upper : at_ + length ≤ base + mmpSize) (inside : at_ + length ≤ size) :
    ∃ w', wrfmapLoop (length + 2) at_ length w = some w' ∧
      Standing bytes size w' (writeRun out (bytes.read at_ length)) (at_ + length) ∧
      w'.wrmapptr ≠ none := by
  have behind := keeps.behind
  rw [writeRun_eq mapped.aligned place mapped.used (by rw [Cells.length_read]; omega), Cells.length_read]
  split
  · next straddles =>
    rw [Cells.take_read bytes at_ (by omega), Cells.take_read bytes at_ (by omega)]
    exact wrfmapLoop_straddles length mapped place keeps straddles window lower upper inside
  · next fits =>
    exact wrfmapLoop_fits (length + 1) _ length mapped place keeps (by omega) (by omega) (by omega) (by omega)

theorem wrfmap_stands {w : WriteMap} {st_size base at_ length : Nat}
    (standing : Standing bytes size w out at_) (fresh : w.wrmapptr = none → st_size = size)
    (nonempty : 0 < size) (window : mmpSize ∣ base) (lower : base ≤ at_)
    (upper : at_ + length ≤ base + mmpSize) (inside : at_ + length ≤ size) :
    ∃ w', wrfmap st_size at_ length w = some w' ∧
      Standing bytes size w' (writeRun out (bytes.read at_ length)) (at_ + length) ∧
      w'.wrmapptr ≠ none := by
  unfold wrfmap
  rcases standing.window with ⟨null, front, rfl⟩ | ⟨o, mapped, place⟩
  · obtain ⟨w₁, next, mapped, file, pos⟩ := mmap_mapped size
      (w := { w with sb2 := st_size }) (by have same := fresh null; dsimp only; omega)
      (by dsimp only; omega) (by dsimp only; rw [front]; exact Nat.dvd_zero _)
    rw [if_pos null, next]
    have keeps : Keeps bytes w₁.file [] at_ := by
      rw [file]
      exact standing.keeps
    exact wrfmap_mapped mapped (by rw [pos]; exact front) keeps window lower upper inside
  · rw [if_neg (by rw [mapped.ptr]; simp)]
    exact wrfmap_mapped mapped place standing.keeps window lower upper inside

theorem Standing.later {w : WriteMap} {ptr ptr' : Nat} (standing : Standing bytes size w out ptr)
    (le : ptr ≤ ptr') : Standing bytes size w out ptr' :=
  ⟨⟨standing.keeps.written, fun i above => standing.keeps.kept i (Nat.le_trans le above),
    Nat.le_trans standing.keeps.behind le⟩, standing.window⟩

theorem wrfmap_follows (bytes : Cells BYTE) (st_size limit : Nat) {base : Nat} (nonempty : 0 < size)
    (window : mmpSize ∣ base) (upper : limit ≤ base + mmpSize) (inside : limit ≤ size) :
    Follows (wrfmapTarget st_size) bytes limit writeRun fun w out ptr =>
      Standing bytes size w out ptr ∧ base ≤ ptr ∧ (w.wrmapptr = none → st_size = size) := by
  refine ⟨?_, ?_, ?_⟩
  · rintro w out at_ ptr ⟨standing, -, -⟩ le
    exact standing.keeps.kept ptr le
  · rintro w out at_ ptr ⟨standing, lower, fresh⟩ le
    exact ⟨standing.later le, Nat.le_trans lower le, fresh⟩
  · rintro w out at_ length ⟨standing, lower, fresh⟩ le
    obtain ⟨w', sent, standing', mapped⟩ := wrfmap_stands standing fresh nonempty window lower
      (Nat.le_trans le upper) (Nat.le_trans le inside)
    exact ⟨w', sent, standing', Nat.le_trans lower (Nat.le_add_right _ _), fun null => absurd null mapped⟩

theorem wrfmapLoop_mapped {fuel buffer length : Nat} {w w' : WriteMap}
    (run : wrfmapLoop fuel buffer length w = some w') : w'.wrmapptr ≠ none := by
  induction fuel generalizing length w with
  | zero => cases run
  | succ fuel ih =>
    unfold wrfmapLoop at run
    split at run
    · cases run
    · split at run
      · obtain ⟨w₁, -, run⟩ := Option.bind_eq_some_iff.mp run
        obtain ⟨w₂, -, run⟩ := Option.bind_eq_some_iff.mp run
        exact ih run
      · obtain ⟨w₁, -, run⟩ := Option.bind_eq_some_iff.mp run
        obtain rfl := Option.some.inj run
        simp

theorem convert_mapped {st_size buffer length : Nat} {w w' : WriteMap}
    (run : convert (wrfmapTarget st_size) buffer length w = some w') : w'.wrmapptr ≠ none := by
  obtain ⟨from_, n, w₀, sent⟩ := convertLoop_sent (wrfmapTarget st_size) length (by simp) run
  change wrfmap st_size from_ n w₀ = some w' at sent
  unfold wrfmap at sent
  dsimp only at sent
  split at sent
  · obtain ⟨w₁, -, sent⟩ := Option.bind_eq_some_iff.mp sent
    exact wrfmapLoop_mapped sent
  · exact wrfmapLoop_mapped sent

theorem readLoop_stands (fuel : Nat) {base st_size : Nat} {w : WriteMap}
    (standing : Standing bytes size w out base) (fresh : w.wrmapptr = none → st_size = size)
    (window : mmpSize ∣ base) (rest : base + st_size = size) (nonempty : 0 < st_size)
    (enough : st_size < fuel) :
    ∃ w', readLoop fuel base st_size w = some w' ∧ w'.wrmapptr ≠ none ∧
      Standing bytes size w' ((windowRuns fuel (bytes.read base st_size)).foldl writeRun out) size := by
  induction fuel generalizing base st_size w out with
  | zero => omega
  | succ fuel ih =>
    unfold readLoop windowRuns
    rw [Cells.length_read]
    by_cases more : st_size > mmpSize
    · have follows := wrfmap_follows bytes st_size (base + mmpSize)
        (show 0 < size by omega) window (Nat.le_refl _) (by omega)
      obtain ⟨w₁, converted, standing₁, -, -⟩ :=
        follows.convert ⟨standing, Nat.le_refl _, fresh⟩ (Nat.le_refl _)
      have mapped := convert_mapped converted
      have positive : 0 < mmpSize := by decide
      obtain ⟨w', run, mapped', standing'⟩ := ih standing₁ (fun null => absurd null mapped)
        (Nat.dvd_add window (Nat.dvd_refl _)) (show base + mmpSize + (st_size - mmpSize) = size by omega)
        (by omega) (by omega)
      refine ⟨w', ?_, mapped', ?_⟩
      · rw [if_pos more, converted]
        exact run
      · rw [if_pos more, List.foldl_append, Cells.take_read bytes base (Nat.le_of_lt more),
          Cells.drop_read bytes base (Nat.le_of_lt more)]
        exact standing'
    · have follows := wrfmap_follows bytes st_size (base + st_size)
        (show 0 < size by omega) window (by omega) (by omega)
      obtain ⟨w', converted, standing', -, -⟩ :=
        follows.convert ⟨standing, Nat.le_refl _, fresh⟩ (Nat.le_refl _)
      rw [if_neg more, if_neg (by omega), if_neg more]
      rw [rest] at standing'
      exact ⟨w', converted, convert_mapped converted, standing'⟩

end Window

theorem inPlaceMain_eq {bytes : List BYTE} (nonempty : bytes ≠ []) :
    inPlaceMain bytes = some ((fileRuns bytes).foldl writeRun []) := by
  have positive := List.length_pos_iff.mpr nonempty
  have front : Standing (Cells.write (fun _ => 0) 0 bytes) bytes.length
      ⟨Cells.write (fun _ => 0) 0 bytes, 0, 0, none, 0⟩ [] 0 :=
    ⟨⟨rfl, fun _ _ => rfl, Nat.le_refl _⟩, Or.inl ⟨rfl, rfl, rfl⟩⟩
  obtain ⟨w', run, mapped, standing⟩ := readLoop_stands (bytes.length + 1) front (fun _ => rfl)
    (Nat.dvd_zero _) (Nat.zero_add _) positive (Nat.lt_succ_self _)
  rw [Cells.read_write_same] at standing
  rcases standing.window with ⟨null, -⟩ | ⟨o, window, place⟩
  · exact absurd null mapped
  · rw [inPlaceMain, run]
    simp only [bind, Option.bind, window.ptr, place]
    exact congrArg some standing.keeps.written

theorem windowRuns_flatten (fuel : Nat) (bytes : List BYTE) (enough : bytes.length < fuel) :
    (windowRuns fuel bytes).flatten = bytes.filter (· ≠ CR) := by
  induction fuel generalizing bytes with
  | zero => omega
  | succ fuel ih =>
    have positive : 0 < mmpSize := by decide
    rw [windowRuns]
    split
    · next more =>
      rw [List.flatten_append, runs_flatten, ih _ (by rw [List.length_drop]; omega), Option.getD_some,
        List.nil_append, ← List.filter_append, List.take_append_drop]
    · rw [runs_flatten, Option.getD_some, List.nil_append]

theorem fileRuns_flatten (bytes : List BYTE) : (fileRuns bytes).flatten = bytes.filter (· ≠ CR) :=
  windowRuns_flatten _ bytes (Nat.lt_succ_self _)

/-- A run that comes to this place of the output is not spoilt by the end of a window: it ends
    before it, or goes on just as it begins. -/
def Survives (place : Nat) (run : List BYTE) : Prop :=
  let used := place % mmpSize
  used ≠ 0 → used + run.length > mmpSize →
    run.take (run.length - (mmpSize - used)) = run.drop (mmpSize - used)

theorem writeRun_iff (out run : List BYTE) : writeRun out run = out ++ run ↔ Survives out.length run := by
  rw [writeRun, Survives]
  split
  · next straddles =>
    rw [List.append_assoc, List.append_right_inj]
    conv_lhs => rhs; rw [← List.take_append_drop (mmpSize - out.length % mmpSize) run]
    rw [List.append_right_inj]
    exact ⟨fun same _ _ => same, fun same => same straddles.1 straddles.2⟩
  · next fits =>
    refine ⟨fun _ used straddles => absurd ⟨used, straddles⟩ fits, fun _ => rfl⟩

theorem writeRun_extends (out run : List BYTE) :
    ∃ data, writeRun out run = out ++ data ∧ data.length = run.length := by
  rw [writeRun]
  split
  · next straddles =>
    refine ⟨_, List.append_assoc _ _ _, ?_⟩
    have below := Nat.mod_lt out.length (show 0 < mmpSize by decide)
    rw [List.length_append, List.length_take, List.length_take]
    omega
  · exact ⟨run, rfl, rfl⟩

theorem foldl_writeRun_extends (out : List BYTE) (pieces : List (List BYTE)) :
    ∃ data, pieces.foldl writeRun out = out ++ data ∧ data.length = pieces.flatten.length := by
  induction pieces generalizing out with
  | nil => exact ⟨[], (List.append_nil out).symm, rfl⟩
  | cons run rest ih =>
    obtain ⟨data, here, length⟩ := writeRun_extends out run
    obtain ⟨data', later, length'⟩ := ih (out ++ data)
    refine ⟨data ++ data', ?_, ?_⟩
    · rw [List.foldl_cons, here, later, List.append_assoc]
    · rw [List.length_append, length, length', List.flatten_cons, List.length_append]

theorem foldl_writeRun_iff (out : List BYTE) (pieces : List (List BYTE)) :
    pieces.foldl writeRun out = out ++ pieces.flatten ↔
      ∀ before run after, pieces = before ++ run :: after →
        Survives (out.length + before.flatten.length) run := by
  induction pieces generalizing out with
  | nil => simp
  | cons run rest ih =>
    obtain ⟨data, here, length⟩ := writeRun_extends out run
    obtain ⟨data', later, length'⟩ := foldl_writeRun_extends (out ++ data) rest
    rw [List.foldl_cons, List.flatten_cons, ← List.append_assoc]
    constructor
    · intro same before run' after split
      have whole : data = run := by
        rw [here, later] at same
        have front := (List.append_inj same (by rw [List.length_append, List.length_append, length])).1
        exact List.append_cancel_left front
      rw [whole] at here
      rcases before with - | ⟨first, before⟩
      · obtain ⟨rfl, rfl⟩ := List.cons.inj split
        exact (writeRun_iff out run).mp here
      · obtain ⟨rfl, rfl⟩ := List.cons.inj split
        rw [here] at same
        have survives := (ih (out ++ run)).mp same before run' after rfl
        rw [List.length_append, Nat.add_assoc, ← List.length_append] at survives
        exact survives
    · intro survives
      have whole := (writeRun_iff out run).mpr (survives [] run rest rfl)
      rw [whole]
      apply (ih (out ++ run)).mpr
      rintro before run' after rfl
      have survives' := survives (run :: before) run' after rfl
      rw [List.flatten_cons, List.length_append] at survives'
      rw [List.length_append, Nat.add_assoc]
      exact survives'

theorem runs_replicate (run : List BYTE) (n : Nat) {b : BYTE} (data : b ≠ CR) :
    runs (some run) (List.replicate n b) = [run ++ List.replicate n b] := by
  induction n generalizing run with
  | zero => simp [runs]
  | succ n ih => simp [List.replicate_succ, runs, data, ih]

/-- One byte of the first window is free when two bytes come from the second one. -/
def straddlingFile (n : Nat) : List BYTE := CR :: 0x61 :: List.replicate n 0x61 ++ [0x62, 0x63]

end Stripcr
