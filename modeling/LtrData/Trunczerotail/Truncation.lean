import Mathlib.Data.Nat.Bitwise
import LtrData.Library.Cells

namespace Trunczerotail

abbrev BYTE := BitVec 8

abbrev DWORD := BitVec 32

/-- The loop that counts `bufsizbits`. -/
def countBits : Nat → Nat → Nat
  | 0, _ => 0
  | fuel + 1, rembufsiz => if rembufsiz > 1 then countBits fuel (rembufsiz >>> 1) + 1 else 0

/-- `bufsiz` as the scan uses it, from the value of the -m switch. -/
def blockSize (bufsiz : DWORD) : Nat := 1 <<< countBits 32 ((bufsiz &&& ~~~0x1FF) ||| 0x200).toNat

/-- What is kept between two blocks: the file pointer, `current_out_pointer` and the buffer. -/
structure Scan where
  filePointer : Nat
  current_out_pointer : Int
  bufptr : Cells BYTE

/-- A move of the file pointer, which fails before the beginning of the file. -/
def setFilePointer (base : Nat) (distance : Int) : Option Nat :=
  if (base : Int) + distance < 0 then none else some ((base : Int) + distance).toNat

/-- The comparison of eight bytes at a time, as far as the words reach. -/
def endOfDataFound (bufptr : Cells BYTE) (dwReadSize : Nat) : Bool :=
  (List.range ((dwReadSize + 7) / 8)).any fun i => (bufptr.read (8 * i) 8).any (· ≠ 0)

/-- The backward scan. A failed call ends the program and gives `none`, as does the end of the
    recursion bound. -/
def scanLoop (bytes : List BYTE) (bufsiz : Nat) : Nat → Scan → Option Scan
  | 0, _ => none
  | fuel + 1, s =>
    if s.current_out_pointer < bufsiz then some s
    else do
      let filePointer ← setFilePointer s.filePointer (-bufsiz)
      let data := (bytes.drop filePointer).take bufsiz
      let bufptr := s.bufptr.write 0 data
      if data.length = 0 then none
      else if endOfDataFound bufptr data.length then
        some ⟨filePointer + data.length, filePointer, bufptr⟩
      else
        let filePointer ← setFilePointer (filePointer + data.length) (-data.length)
        scanLoop bytes bufsiz fuel ⟨filePointer, filePointer, bufptr⟩

def setEndOfFile (bytes : List BYTE) (filePointer : Nat) : List BYTE :=
  bytes.take filePointer ++ List.replicate (filePointer - bytes.length) 0

/-- The file after the program has run on it. -/
def main (m : DWORD) (bytes : List BYTE) : Option (List BYTE) := do
  let bufsiz := blockSize m
  let bufsizmask := bufsiz - 1
  let last_block_bytes := bytes.length &&& bufsizmask
  let distance := if last_block_bytes ≠ 0 then bufsiz - last_block_bytes else 0
  let filePointer ← setFilePointer bytes.length distance
  let s ← scanLoop bytes bufsiz (bytes.length + 2) ⟨filePointer, filePointer, fun _ => 0⟩
  if s.current_out_pointer + bufsiz ≥ bytes.length then pure bytes
  else pure (setEndOfFile bytes s.filePointer)

theorem countBits_eq (fuel rembufsiz : Nat) (bound : rembufsiz < 2 ^ fuel) :
    countBits fuel rembufsiz = Nat.log2 rembufsiz := by
  induction fuel generalizing rembufsiz with
  | zero =>
    have zero : rembufsiz = 0 := by omega
    rw [zero]
    rfl
  | succ fuel ih =>
    rw [countBits, Nat.log2_def, Nat.shiftRight_eq_div_pow, Nat.pow_one]
    have half : rembufsiz / 2 < 2 ^ fuel := by omega
    by_cases more : rembufsiz > 1
    · rw [if_pos more, if_pos (Nat.succ_le_of_lt more), ih _ half]
    · rw [if_neg more, if_neg (by omega)]

/-- The highest power of two in the -m value, and 512 for any that is smaller. -/
theorem blockSize_eq (m : DWORD) : blockSize m = 2 ^ ((m &&& ~~~0x1FF) ||| 0x200).toNat.log2 := by
  rw [blockSize, countBits_eq _ _ (BitVec.isLt _), Nat.one_shiftLeft]

theorem blockSize_ge (m : DWORD) : 512 ≤ blockSize m := by
  have kept : 512 ≤ ((m &&& ~~~0x1FF) ||| 0x200).toNat := by
    rw [BitVec.toNat_or]
    exact Nat.right_le_or
  have large : 9 ≤ ((m &&& ~~~0x1FF) ||| 0x200).toNat.log2 := (Nat.le_log2 (by omega)).mpr kept
  calc 512 = 2 ^ 9 := rfl
    _ ≤ _ := Nat.pow_le_pow_right (by decide) large
    _ = blockSize m := (blockSize_eq m).symm

def AllZero (bytes : List BYTE) : Prop := ∀ b ∈ bytes, b = 0

instance (bytes : List BYTE) : Decidable (AllZero bytes) := inferInstanceAs (Decidable (∀ b ∈ bytes, b = 0))

/-- The end of the last aligned block with data in it, which is 0 if there is none. -/
structure DataEnd (bufsiz : Nat) (bytes : List BYTE) (e : Nat) : Prop where
  aligned : bufsiz ∣ e
  zeros : AllZero (bytes.drop e)
  data : e = 0 ∨ ¬ AllZero ((bytes.drop (e - bufsiz)).take bufsiz)

theorem setFilePointer_back {p n : Nat} (le : n ≤ p) : setFilePointer p (-n) = some (p - n) := by
  rw [setFilePointer, if_neg (by omega)]
  congr 1
  omega

theorem setFilePointer_forward (p n : Nat) : setFilePointer p n = some (p + n) := by
  rw [setFilePointer, if_neg (by omega)]
  congr 1

theorem not_allZero {bytes : List BYTE} : ¬ AllZero bytes ↔ ∃ b ∈ bytes, b ≠ 0 := by
  simp only [AllZero, not_forall, exists_prop]

theorem endOfDataFound_iff {bufptr : Cells BYTE} (clean : ∀ i, bufptr i = 0) (data : List BYTE) :
    endOfDataFound (bufptr.write 0 data) data.length = true ↔ ¬ AllZero data := by
  have cell (i : Nat) : bufptr.write 0 data i = data.getD i 0 := by simp [Cells.write, clean]
  simp only [endOfDataFound, List.any_eq_true, List.mem_range, Cells.mem_read, decide_eq_true_eq,
    not_allZero, cell]
  constructor
  · intro facts
    rcases facts with ⟨i, -, b, ⟨j, -, rfl⟩, nonzero⟩
    by_cases inside : 8 * i + j < data.length
    · rw [List.getD_eq_getElem _ _ inside] at nonzero
      exact ⟨_, List.getElem_mem inside, nonzero⟩
    · rw [List.getD_eq_default _ _ (by omega)] at nonzero
      exact absurd rfl nonzero
  · intro facts
    rcases facts with ⟨b, mem, nonzero⟩
    obtain ⟨k, inside, rfl⟩ := List.mem_iff_getElem.mp mem
    refine ⟨k / 8, by omega, _, ⟨k % 8, Nat.mod_lt _ (by decide), rfl⟩, ?_⟩
    rw [Nat.div_add_mod, List.getD_eq_getElem _ _ inside]
    exact nonzero

section Run

variable {bytes : List BYTE} {bufsiz : Nat} {s : Scan}

/-- Between two blocks everything from the file pointer on is zero, and so is the buffer. -/
structure Between (bytes : List BYTE) (bufsiz : Nat) (s : Scan) (p : Nat) : Prop where
  filePointer : s.filePointer = p
  absolute : s.current_out_pointer = p
  clean : ∀ i, s.bufptr i = 0
  aligned : bufsiz ∣ p
  near : p < bytes.length + bufsiz
  zeros : AllZero (bytes.drop p)

/-- Where the scan stops: the block at `current_out_pointer`, if it is not at the beginning, is
    the last one with data in it. -/
def Stopped (bytes : List BYTE) (bufsiz : Nat) (s : Scan) : Prop :=
  ∃ e, DataEnd bufsiz bytes e ∧
    (s.current_out_pointer + bufsiz ≥ bytes.length ↔ bytes.length ≤ bufsiz ∨ bytes.length ≤ e) ∧
    (bufsiz < bytes.length → e < bytes.length → s.filePointer = e)

theorem Between.stopped {p : Nat} (between : Between bytes bufsiz s p) (front : p < bufsiz) :
    Stopped bytes bufsiz s := by
  have zero : p = 0 := Nat.eq_zero_of_dvd_of_lt between.aligned front
  subst zero
  refine ⟨0, ⟨Nat.dvd_zero _, between.zeros, Or.inl rfl⟩, ?_, fun _ _ => between.filePointer⟩
  rw [between.absolute]
  omega

theorem Between.found {p : Nat} (between : Between bytes bufsiz s p) (room : bufsiz ≤ p)
    (positive : 0 < bufsiz) {bufptr : Cells BYTE}
    (data : ¬ AllZero ((bytes.drop (p - bufsiz)).take bufsiz)) :
    Stopped bytes bufsiz
      ⟨p - bufsiz + ((bytes.drop (p - bufsiz)).take bufsiz).length, (p - bufsiz : Nat), bufptr⟩ := by
  refine ⟨p, ⟨between.aligned, between.zeros, Or.inr data⟩, ?_, fun _ inside => ?_⟩
  · dsimp only
    omega
  · dsimp only
    rw [List.length_take, List.length_drop]
    omega

theorem allZero_drop {from_ n : Nat} (block : AllZero ((bytes.drop from_).take n))
    (rest : AllZero (bytes.drop (from_ + n))) : AllZero (bytes.drop from_) := by
  rw [← List.take_append_drop n (bytes.drop from_), List.drop_drop]
  intro b mem
  rcases List.mem_append.mp mem with mem | mem
  · exact block b mem
  · exact rest b mem

theorem write_zeros {bufptr : Cells BYTE} (clean : ∀ i, bufptr i = 0) {data : List BYTE}
    (zeros : AllZero data) (i : Nat) : bufptr.write 0 data i = 0 := by
  simp only [Cells.write, clean, Nat.sub_zero, Nat.not_lt_zero, if_false]
  by_cases inside : i < data.length
  · rw [List.getD_eq_getElem _ _ inside]
    exact zeros _ (List.getElem_mem inside)
  · exact List.getD_eq_default _ _ (by omega)

theorem scanLoop_stops (fuel : Nat) {p : Nat} (between : Between bytes bufsiz s p)
    (positive : 0 < bufsiz) (enough : p < fuel * bufsiz) :
    ∃ s', scanLoop bytes bufsiz fuel s = some s' ∧ Stopped bytes bufsiz s' := by
  induction fuel generalizing s p with
  | zero => omega
  | succ fuel ih =>
    rw [scanLoop, between.absolute]
    by_cases front : (p : Int) < bufsiz
    · rw [if_pos front]
      exact ⟨s, rfl, between.stopped (by omega)⟩
    · rw [if_neg front, between.filePointer, setFilePointer_back (by omega)]
      have near := between.near
      have length : ((bytes.drop (p - bufsiz)).take bufsiz).length =
          min bufsiz (bytes.length - (p - bufsiz)) := by
        rw [List.length_take, List.length_drop]
      have some_ : ¬ ((bytes.drop (p - bufsiz)).take bufsiz).length = 0 := by omega
      dsimp only [bind, Option.bind]
      rw [if_neg some_]
      by_cases data : endOfDataFound (s.bufptr.write 0 ((bytes.drop (p - bufsiz)).take bufsiz))
          ((bytes.drop (p - bufsiz)).take bufsiz).length = true
      · rw [if_pos data]
        rw [endOfDataFound_iff between.clean] at data
        exact ⟨_, rfl, between.found (by omega) positive data⟩
      · rw [if_neg data, setFilePointer_back (by omega), Nat.add_sub_cancel]
        rw [endOfDataFound_iff between.clean, not_not] at data
        rw [Nat.succ_mul] at enough
        apply ih (p := p - bufsiz) ⟨rfl, rfl, write_zeros between.clean data, ?_, by omega, ?_⟩ (by omega)
        · exact Nat.dvd_sub between.aligned (Nat.dvd_refl _)
        · apply allZero_drop data
          rw [Nat.sub_add_cancel (by omega)]
          exact between.zeros

theorem between_start (bytes : List BYTE) {bufsiz distance : Nat}
    (near : distance < bufsiz) (aligned : bufsiz ∣ bytes.length + distance) :
    Between bytes bufsiz ⟨bytes.length + distance, (bytes.length + distance : Nat), fun _ => 0⟩
      (bytes.length + distance) := by
  refine ⟨rfl, rfl, fun _ => rfl, aligned, by omega, ?_⟩
  rw [List.drop_eq_nil_of_le (Nat.le_add_right _ _)]
  exact fun _ mem => absurd mem List.not_mem_nil

end Run

theorem setEndOfFile_inside {bytes : List BYTE} {e : Nat} (inside : e < bytes.length) :
    setEndOfFile bytes e = bytes.take e := by
  rw [setEndOfFile, Nat.sub_eq_zero_of_le inside.le, List.replicate_zero, List.append_nil]

theorem main_eq (m : DWORD) (bytes : List BYTE) :
    ∃ e, DataEnd (blockSize m) bytes e ∧ main m bytes =
      some (if blockSize m < bytes.length ∧ e < bytes.length then bytes.take e else bytes) := by
  have positive : 0 < blockSize m := Nat.lt_of_lt_of_le (by decide) (blockSize_ge m)
  have masked : bytes.length &&& (blockSize m - 1) = bytes.length % blockSize m := by
    rw [blockSize_eq]
    exact Nat.and_two_pow_sub_one_eq_mod _ _
  obtain ⟨distance, eq, near, aligned⟩ : ∃ distance,
      (if bytes.length % blockSize m ≠ 0 then blockSize m - bytes.length % blockSize m else 0) = distance ∧
      distance < blockSize m ∧ blockSize m ∣ bytes.length + distance := by
    have below := Nat.mod_lt bytes.length positive
    split
    · next part =>
      refine ⟨_, rfl, by omega, ?_⟩
      have whole := Nat.div_add_mod bytes.length (blockSize m)
      refine ⟨bytes.length / blockSize m + 1, ?_⟩
      rw [Nat.mul_add]
      omega
    · next whole => exact ⟨0, rfl, positive, Nat.dvd_of_mod_eq_zero (not_not.mp whole)⟩
  have enough : bytes.length + distance < (bytes.length + 2) * blockSize m := by
    have wide := Nat.le_mul_of_pos_right bytes.length positive
    rw [Nat.add_mul]
    omega
  obtain ⟨s, run, e, dataEnd, stays, cuts⟩ :=
    scanLoop_stops _ (between_start bytes near aligned) positive enough
  refine ⟨e, dataEnd, ?_⟩
  rw [main, masked]
  simp only [eq, setFilePointer_forward, bind, Option.bind, run]
  by_cases cut : blockSize m < bytes.length ∧ e < bytes.length
  · rw [if_pos cut, if_neg (by rw [stays]; omega), cuts cut.1 cut.2, setEndOfFile_inside cut.2]
    rfl
  · rw [if_neg cut, if_pos (by rw [stays]; omega)]
    rfl

theorem DataEnd.of_take {bufsiz e e' : Nat} {bytes : List BYTE} (dataEnd : DataEnd bufsiz bytes e)
    (again : DataEnd bufsiz (bytes.take e) e') : e ≤ e' := by
  by_contra shorter
  have gap : bufsiz ≤ e - e' :=
    Nat.le_of_dvd (by omega) (Nat.dvd_sub dataEnd.aligned again.aligned)
  rcases dataEnd.data with rfl | data
  · omega
  · apply data
    intro b mem
    apply again.zeros b
    have block : (bytes.drop (e - bufsiz)).take bufsiz = (bytes.take e).drop (e - bufsiz) := by
      rw [List.drop_take, Nat.sub_sub_self (by omega)]
    rw [block, show e - bufsiz = e' + (e - bufsiz - e') by omega, ← List.drop_drop] at mem
    exact List.mem_of_mem_drop mem

/-- Only zeros are cut off, from the end of the last block with data in it on, and only if
    that is not in the last block of the file. -/
theorem main_truncates (m : DWORD) (bytes : List BYTE) :
    ∃ left e, main m bytes = some left ∧
      (blockSize m = 2 ^ ((m &&& ~~~0x1FF) ||| 0x200).toNat.log2 ∧ 512 ≤ blockSize m) ∧
      left <+: bytes ∧ AllZero (bytes.drop left.length) ∧ DataEnd (blockSize m) bytes e ∧
      left.length = (if blockSize m < bytes.length ∧ e < bytes.length then e else bytes.length) ∧
      main m left = some left := by
  obtain ⟨e, dataEnd, run⟩ := main_eq m bytes
  have size : blockSize m = 2 ^ ((m &&& ~~~0x1FF) ||| 0x200).toNat.log2 ∧ 512 ≤ blockSize m :=
    ⟨blockSize_eq m, blockSize_ge m⟩
  by_cases cut : blockSize m < bytes.length ∧ e < bytes.length
  · rw [if_pos cut] at run
    have length : (bytes.take e).length = e := List.length_take_of_le cut.2.le
    refine ⟨bytes.take e, e, run, size, List.take_prefix e bytes, ?_, dataEnd, ?_, ?_⟩
    · rw [length]
      exact dataEnd.zeros
    · rw [if_pos cut, length]
    · obtain ⟨e', again, run'⟩ := main_eq m (bytes.take e)
      have le := dataEnd.of_take again
      rw [run', if_neg (by omega)]
  · rw [if_neg cut] at run
    refine ⟨bytes, e, run, size, List.prefix_refl bytes, ?_, dataEnd, by rw [if_neg cut], run⟩
    rw [List.drop_length]
    exact fun _ mem => absurd mem List.not_mem_nil

end Trunczerotail
