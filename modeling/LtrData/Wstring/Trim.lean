import Mathlib.Algebra.Group.Nat.Defs
import Mathlib.Data.List.DropRight
import Mathlib.Data.List.GetD
import Mathlib.Logic.Function.Basic
import Mathlib.Tactic.Common

namespace Wstring

abbrev BYTE := BitVec 8

def SPACE : BYTE := 0x20

/-- The memory, which pointers of `w` bits reach, and the addresses that were read or written. -/
structure Trace (w : Nat) where
  memory : BitVec w → BYTE
  accessed : List (BitVec w)

variable {w : Nat}

namespace Trace

def read (t : Trace w) (a : BitVec w) : Trace w := { t with accessed := a :: t.accessed }

def write (t : Trace w) (a : BitVec w) (value : BYTE) : Trace w :=
  { memory := Function.update t.memory a value, accessed := a :: t.accessed }

end Trace

def strlenLoop : Nat → (ptr len : BitVec w) → Trace w → Option (BitVec w × Trace w)
  | 0, _, _, _ => none
  | fuel + 1, ptr, len, t =>
    if t.memory (ptr + len) = 0 then some (len, t.read (ptr + len))
    else strlenLoop fuel ptr (len + 1) (t.read (ptr + len))

/-- `while (ptr[0] == ' ') ++ptr` -/
def skipLoop : Nat → (ptr : BitVec w) → Trace w → Option (BitVec w × Trace w)
  | 0, _, _ => none
  | fuel + 1, ptr, t =>
    if t.memory ptr = SPACE then skipLoop fuel (ptr + 1) (t.read ptr) else some (ptr, t.read ptr)

/-- `while (ptr[--len] == ' ') ptr[len] = 0`, where `len` is a size_t that has no value below 0. -/
def trimLoop : Nat → (ptr len : BitVec w) → Trace w → Option (Trace w)
  | 0, _, _, _ => none
  | fuel + 1, ptr, len, t =>
    let at_ := ptr + (len - 1)
    if t.memory at_ = SPACE then trimLoop fuel ptr (len - 1) ((t.read at_).write at_ 0)
    else some (t.read at_)

def trimEnd (fuel : Nat) (ptr : BitVec w) (t : Trace w) : Option (BitVec w × Trace w) := do
  let (len, t) ← strlenLoop fuel ptr 0 t
  let t ← trimLoop fuel ptr len t
  pure (ptr, t)

def strrtrm (fuel : Nat) (memory : BitVec w → BYTE) (ptr : BitVec w) :
    Option (BitVec w × Trace w) :=
  if ptr = 0 then some (0, ⟨memory, []⟩) else trimEnd fuel ptr ⟨memory, []⟩

def strtrm (fuel : Nat) (memory : BitVec w → BYTE) (ptr : BitVec w) : Option (BitVec w × Trace w) :=
  if ptr = 0 then some (0, ⟨memory, []⟩)
  else do
    let (ptr, t) ← skipLoop fuel ptr ⟨memory, []⟩
    trimEnd fuel ptr t

/-- The text from `ptr` to the first zero. -/
structure IsString (memory : BitVec w → BYTE) (ptr : BitVec w) (text : List BYTE) : Prop where
  notNull : ptr ≠ 0
  fits : ptr.toNat + text.length < 2 ^ w
  cells : ∀ i (inside : i < text.length), memory (ptr + BitVec.ofNat w i) = text[i]
  clean : ∀ c ∈ text, c ≠ 0
  terminated : memory (ptr + BitVec.ofNat w text.length) = 0

def isBlank (c : BYTE) : Bool := c = SPACE

def trimmed (text : List BYTE) : List BYTE := text.rdropWhile isBlank

/-- The positions of a string and of its terminator. -/
def Within (ptr : BitVec w) (length : Nat) (a : BitVec w) : Prop :=
  ptr.toNat ≤ a.toNat ∧ a.toNat ≤ ptr.toNat + length

/-- A trimming function ends, accesses the string only, and returns what is left of it behind the
    first `skipped` characters and before the trailing blanks, which alone have changed. -/
def TrimsWithin (trim : Nat → (BitVec w → BYTE) → BitVec w → Option (BitVec w × Trace w))
    (memory : BitVec w → BYTE) (ptr : BitVec w) (text : List BYTE) (skipped : Nat) : Prop :=
  ∃ fuel t, trim fuel memory ptr = some (ptr + BitVec.ofNat w skipped, t) ∧
    (∀ a ∈ t.accessed, Within ptr text.length a) ∧
    IsString t.memory (ptr + BitVec.ofNat w skipped) (trimmed (text.drop skipped)) ∧
    ∀ a, t.memory a ≠ memory a →
      ∃ i, (trimmed text).length ≤ i ∧ i < text.length ∧ a = ptr + BitVec.ofNat w i

def StrrtrmTrims (memory : BitVec w → BYTE) (ptr : BitVec w) (text : List BYTE) : Prop :=
  TrimsWithin strrtrm memory ptr text 0

def StrtrmTrims (memory : BitVec w → BYTE) (ptr : BitVec w) (text : List BYTE) : Prop :=
  TrimsWithin strtrm memory ptr text (text.takeWhile isBlank).length

section addresses

variable {ptr : BitVec w} {i j n : Nat}

theorem toNat_offset (fits : ptr.toNat + i < 2 ^ w) :
    (ptr + BitVec.ofNat w i).toNat = ptr.toNat + i := by
  have small : i < 2 ^ w := by omega
  rw [BitVec.toNat_add, BitVec.toNat_ofNat, Nat.mod_eq_of_lt small, Nat.mod_eq_of_lt fits]

theorem offset_inj (fits : ptr.toNat + i < 2 ^ w) (fits' : ptr.toNat + j < 2 ^ w)
    (same : ptr + BitVec.ofNat w i = ptr + BitVec.ofNat w j) : i = j := by
  have values := congrArg BitVec.toNat same
  rw [toNat_offset fits, toNat_offset fits'] at values
  omega

theorem offset_add (ptr : BitVec w) (i j : Nat) :
    ptr + BitVec.ofNat w i + BitVec.ofNat w j = ptr + BitVec.ofNat w (i + j) := by
  rw [BitVec.ofNat_add, BitVec.add_assoc]

theorem offset_zero (ptr : BitVec w) : ptr + BitVec.ofNat w 0 = ptr := by simp

theorem ofNat_succ (n : Nat) : BitVec.ofNat w (n + 1) = BitVec.ofNat w n + 1 :=
  BitVec.ofNat_add n 1

theorem within_offset (fits : ptr.toNat + n < 2 ^ w) (le : i ≤ n) :
    Within ptr n (ptr + BitVec.ofNat w i) := by
  rw [Within, toNat_offset (by omega)]
  omega

theorem within_later {a : BitVec w} (fits : ptr.toNat + i < 2 ^ w)
    (within : Within (ptr + BitVec.ofNat w i) n a) : Within ptr (i + n) a := by
  rw [Within, toNat_offset fits] at within
  exact ⟨by omega, by omega⟩

/-- What a size_t of 0 leads to. -/
theorem not_within_before (notNull : ptr ≠ 0) (n : Nat) : ¬ Within ptr n (ptr - 1) := by
  intro within
  have positive := BitVec.toNat_pos_of_ne_zero notNull
  have below := ptr.isLt
  have two : 1 < 2 ^ w := by omega
  have one : (1 : BitVec w).toNat = 1 := Nat.mod_eq_of_lt two
  have before : (ptr - 1).toNat = ptr.toNat - 1 := by
    rw [BitVec.toNat_sub_of_le (BitVec.le_def.mpr (by omega)), one]
  have lower := within.1
  omega

end addresses

namespace Trace

variable {t : Trace w} {ptr a : BitVec w} {i k : Nat}

/-- `k` reads from the position `i` on. -/
def reads (t : Trace w) (ptr : BitVec w) (i : Nat) : Nat → Trace w
  | 0 => t
  | k + 1 => (t.read (ptr + BitVec.ofNat w i)).reads ptr (i + 1) k

/-- `k` blanks read and overwritten, the last one first, down to the position `i`. -/
def cleared (t : Trace w) (ptr : BitVec w) (i : Nat) : Nat → Trace w
  | 0 => t
  | k + 1 =>
    ((t.read (ptr + BitVec.ofNat w (i + k))).write (ptr + BitVec.ofNat w (i + k)) 0).cleared ptr i k

@[simp] theorem memory_reads (t : Trace w) (ptr : BitVec w) (i k : Nat) :
    (t.reads ptr i k).memory = t.memory := by
  induction k generalizing t i with
  | zero => rfl
  | succ k ih =>
    rw [reads, ih]
    rfl

theorem accessed_reads (mem : a ∈ (t.reads ptr i k).accessed) :
    a ∈ t.accessed ∨ ∃ j, i ≤ j ∧ j < i + k ∧ a = ptr + BitVec.ofNat w j := by
  induction k generalizing t i with
  | zero => exact Or.inl mem
  | succ k ih =>
    rcases ih mem with before | ⟨j, lower, upper, rfl⟩
    · rcases List.mem_cons.mp before with rfl | before
      · exact Or.inr ⟨i, Nat.le_refl _, by omega, rfl⟩
      · exact Or.inl before
    · exact Or.inr ⟨j, by omega, by omega, rfl⟩

theorem accessed_cleared (mem : a ∈ (t.cleared ptr i k).accessed) :
    a ∈ t.accessed ∨ ∃ j, i ≤ j ∧ j < i + k ∧ a = ptr + BitVec.ofNat w j := by
  induction k generalizing t with
  | zero => exact Or.inl mem
  | succ k ih =>
    rcases ih mem with before | ⟨j, lower, upper, rfl⟩
    · simp only [write, read, List.mem_cons] at before
      rcases before with rfl | rfl | before
      · exact Or.inr ⟨i + k, by omega, by omega, rfl⟩
      · exact Or.inr ⟨i + k, by omega, by omega, rfl⟩
      · exact Or.inl before
    · exact Or.inr ⟨j, lower, by omega, rfl⟩

theorem memory_cleared_of_not (outside : ∀ j, i ≤ j → j < i + k → a ≠ ptr + BitVec.ofNat w j) :
    (t.cleared ptr i k).memory a = t.memory a := by
  induction k generalizing t with
  | zero => rfl
  | succ k ih =>
    rw [cleared, ih fun j lower upper => outside j lower (by omega)]
    exact Function.update_of_ne (outside (i + k) (by omega) (by omega)) _ _

theorem memory_cleared_first (fits : ptr.toNat + (i + (k + 1)) ≤ 2 ^ w) :
    (t.cleared ptr i (k + 1)).memory (ptr + BitVec.ofNat w i) = 0 := by
  induction k generalizing t with
  | zero => exact Function.update_self _ _ _
  | succ k ih => exact ih (by omega)

end Trace

section loops

variable {t t' : Trace w} {ptr len out : BitVec w} {text : List BYTE} {fuel i k n : Nat}

theorem IsString.drop {memory : BitVec w → BYTE} (string : IsString memory ptr text)
    (le : i ≤ text.length) : IsString memory (ptr + BitVec.ofNat w i) (text.drop i) := by
  have fits := string.fits
  have value : (ptr + BitVec.ofNat w i).toNat = ptr.toNat + i := toNat_offset (by omega)
  have length : (text.drop i).length = text.length - i := List.length_drop
  have positive := BitVec.toNat_pos_of_ne_zero string.notNull
  refine ⟨fun null => ?_, by omega, fun j inside => ?_, fun c mem => ?_, ?_⟩
  · rw [null] at value
    simp only [BitVec.ofNat_eq_ofNat, BitVec.toNat_ofNat, Nat.zero_mod] at value
    omega
  · rw [offset_add, string.cells (i + j) (by omega), List.getElem_drop]
  · exact string.clean c (List.mem_of_mem_drop mem)
  · rw [offset_add, length, Nat.add_sub_cancel' le]
    exact string.terminated

theorem strlenLoop_eq (fuel : Nat) (string : IsString t.memory ptr text) (le : i ≤ text.length) :
    strlenLoop fuel ptr (BitVec.ofNat w i) t =
      if text.length - i < fuel then
        some (BitVec.ofNat w text.length, t.reads ptr i (text.length - i + 1))
      else none := by
  induction fuel generalizing i t with
  | zero => rfl
  | succ fuel ih =>
    rw [strlenLoop]
    rcases Nat.lt_or_eq_of_le le with inside | rfl
    · have some_ : t.memory (ptr + BitVec.ofNat w i) ≠ 0 := by
        rw [string.cells i inside]
        exact string.clean _ (List.getElem_mem inside)
      have rest : text.length - i = text.length - (i + 1) + 1 := by omega
      rw [if_neg some_, ← ofNat_succ, ih (t := t.read _) string inside, rest]
      simp only [Nat.add_lt_add_iff_right]
      rfl
    · rw [if_pos string.terminated, Nat.sub_self, if_pos (Nat.zero_lt_succ fuel)]
      rfl

/-- The loop over the leading blanks stands behind `n` of them. -/
theorem skipLoop_eq (fuel : Nat) (blanks : ∀ j < n, t.memory (ptr + BitVec.ofNat w j) = SPACE)
    (other : t.memory (ptr + BitVec.ofNat w n) ≠ SPACE) (le : i ≤ n) :
    skipLoop fuel (ptr + BitVec.ofNat w i) t =
      if n - i < fuel then some (ptr + BitVec.ofNat w n, t.reads ptr i (n - i + 1)) else none := by
  induction fuel generalizing i t with
  | zero => rfl
  | succ fuel ih =>
    rw [skipLoop]
    rcases Nat.lt_or_eq_of_le le with inside | rfl
    · have rest : n - i = n - (i + 1) + 1 := by omega
      rw [if_pos (blanks i inside), BitVec.add_assoc, ← ofNat_succ,
        ih (t := t.read _) blanks other inside, rest]
      simp only [Nat.add_lt_add_iff_right]
      rfl
    · rw [if_neg other, Nat.sub_self, if_pos (Nat.zero_lt_succ fuel)]
      rfl

theorem trimLoop_shift (fuel : Nat) (ptr x len : BitVec w) (t : Trace w) :
    trimLoop fuel (ptr + x) len t = trimLoop fuel ptr (x + len) t := by
  induction fuel generalizing len t with
  | zero => rfl
  | succ fuel ih =>
    simp only [trimLoop, ih, BitVec.sub_eq_add_neg, BitVec.add_assoc]

theorem trimLoop_blanks (fits : ptr.toNat + (n + k) ≤ 2 ^ w)
    (blanks : ∀ i, n ≤ i → i < n + k → t.memory (ptr + BitVec.ofNat w i) = SPACE) :
    trimLoop (fuel + k) ptr (BitVec.ofNat w (n + k)) t =
      trimLoop fuel ptr (BitVec.ofNat w n) (t.cleared ptr n k) := by
  induction k generalizing t with
  | zero => rfl
  | succ k ih =>
    have before : BitVec.ofNat w (n + (k + 1)) - 1 = BitVec.ofNat w (n + k) := by
      rw [← Nat.add_assoc, ofNat_succ, BitVec.add_sub_cancel]
    rw [← Nat.add_assoc, trimLoop, before]
    rw [if_pos (blanks (n + k) (by omega) (by omega))]
    apply ih (by omega)
    intro i lower upper
    have other : ptr + BitVec.ofNat w i ≠ ptr + BitVec.ofNat w (n + k) := fun same =>
      absurd (offset_inj (by omega) (by omega) same) (by omega)
    exact (Function.update_of_ne other _ _).trans (blanks i lower (by omega))

theorem trimLoop_more (run : trimLoop fuel ptr len t = some t') (more : Nat) :
    trimLoop (fuel + more) ptr len t = some t' := by
  induction fuel generalizing len t with
  | zero => cases run
  | succ fuel ih =>
    rw [Nat.add_right_comm]
    rw [trimLoop] at run ⊢
    split
    · next blank =>
      rw [if_pos blank] at run
      exact ih run
    · next other =>
      rw [if_neg other] at run
      exact run

theorem trimLoop_accessed (run : trimLoop fuel ptr len t = some t') : t.accessed ⊆ t'.accessed := by
  induction fuel generalizing len t with
  | zero => cases run
  | succ fuel ih =>
    rw [trimLoop] at run
    split at run
    · intro a mem
      exact ih run (List.mem_cons_of_mem _ (List.mem_cons_of_mem _ mem))
    · rw [← Option.some.inj run]
      exact List.subset_cons_self _ _

theorem trimEnd_eq (string : IsString t.memory ptr text) :
    trimEnd fuel ptr t =
      if text.length < fuel then
        (trimLoop fuel ptr (BitVec.ofNat w text.length) (t.reads ptr 0 (text.length + 1))).map (ptr, ·)
      else none := by
  have found := strlenLoop_eq fuel string (Nat.zero_le _)
  rw [Nat.sub_zero] at found
  rw [trimEnd, show (0 : BitVec w) = BitVec.ofNat w 0 from rfl, found]
  split
  · simp only [Option.bind_eq_bind, Option.bind_some]
    cases trimLoop fuel ptr (BitVec.ofNat w text.length) (t.reads ptr 0 (text.length + 1)) <;> rfl
  · rfl

end loops

section texts

variable {text : List BYTE}

theorem trimmed_append (text : List BYTE) : trimmed text ++ text.rtakeWhile isBlank = text :=
  List.rdropWhile_append_rtakeWhile

theorem trimmed_isFront (text : List BYTE) : trimmed text <+: text :=
  List.rdropWhile_prefix isBlank text

theorem trimmed_ne_nil (some_ : ∃ c ∈ text, c ≠ SPACE) : trimmed text ≠ [] := by
  intro nothing
  obtain ⟨c, mem, other⟩ := some_
  have blank := List.rdropWhile_eq_nil_iff.mp nothing c mem
  simp only [isBlank, decide_eq_true_eq] at blank
  exact other blank

theorem getElem_trailing {i : Nat} (trailing : (trimmed text).length ≤ i) (inside : i < text.length) :
    text[i] = SPACE := by
  have same := trimmed_append text
  have found : (text.rtakeWhile isBlank)[i - (trimmed text).length]? = some text[i] := by
    rw [← List.getElem?_append_right trailing, same, List.getElem?_eq_getElem inside]
  have blank := List.mem_rtakeWhile_imp (List.mem_of_getElem? found)
  simpa only [isBlank, decide_eq_true_eq] using blank

theorem getElem_last {n : Nat} (length : (trimmed text).length = n + 1) (inside : n < text.length) :
    text[n] ≠ SPACE := by
  have some_ : trimmed text ≠ [] := List.ne_nil_of_length_pos (by omega)
  have last : ¬ isBlank ((trimmed text).getLast some_) := List.rdropWhile_last_not isBlank text some_
  rw [List.getLast_eq_getElem] at last
  intro blank
  apply last
  have same : (trimmed text)[(trimmed text).length - 1] = text[n] := by
    simp only [length, Nat.add_sub_cancel]
    exact (trimmed_isFront text).getElem (by omega)
  simp only [isBlank, decide_eq_true_eq]
  exact same.trans blank

/-- Leading blanks do not matter to the trailing ones, if a character stands between them. -/
theorem length_trimmed_drop {k : Nat} (some_ : ∃ c ∈ text.drop k, c ≠ SPACE) (le : k ≤ text.length) :
    (trimmed text).length = k + (trimmed (text.drop k)).length := by
  have split := (List.take_append_drop k text).symm
  have rest : (text.drop k).reverse.dropWhile isBlank ≠ [] := by
    have nonempty := trimmed_ne_nil some_
    rwa [trimmed, List.rdropWhile, Ne, List.reverse_eq_nil_iff] at nonempty
  conv_lhs => rw [split]
  rw [trimmed, trimmed, List.rdropWhile, List.rdropWhile, List.reverse_append, List.dropWhile_append,
    if_neg (by simpa using rest)]
  simp only [List.reverse_append, List.reverse_reverse, List.length_append, List.length_take]
  omega

end texts

section trimming

variable {t t' : Trace w} {ptr out : BitVec w} {text : List BYTE} {fuel : Nat}

theorem trimEnd_of_some (fuel : Nat) (string : IsString t.memory ptr text)
    (some_ : ∃ c ∈ text, c ≠ SPACE) (enough : text.length < fuel) :
    ∃ t', trimEnd fuel ptr t = some (ptr, t') ∧
      (∀ a ∈ t'.accessed, a ∈ t.accessed ∨ Within ptr text.length a) ∧
      IsString t'.memory ptr (trimmed text) ∧
      ∀ a, t'.memory a ≠ t.memory a →
        ∃ i, (trimmed text).length ≤ i ∧ i < text.length ∧ a = ptr + BitVec.ofNat w i := by
  have fits := string.fits
  have le := (trimmed_isFront text).length_le
  obtain ⟨n, length⟩ := Nat.exists_eq_add_one_of_ne_zero
    (mt List.eq_nil_of_length_eq_zero (trimmed_ne_nil some_))
  obtain ⟨k, whole⟩ := Nat.exists_eq_add_of_le le
  have other : t.memory (ptr + BitVec.ofNat w n) ≠ SPACE := by
    rw [string.cells n (by omega)]
    exact getElem_last length (by omega)
  obtain ⟨more, enough⟩ := Nat.exists_eq_add_of_lt (show k < fuel by omega)
  let start := t.reads ptr 0 (text.length + 1)
  let final := start.cleared ptr (trimmed text).length k
  have kept : ∀ i, i < (trimmed text).length → final.memory (ptr + BitVec.ofNat w i) =
      t.memory (ptr + BitVec.ofNat w i) := by
    intro i inside
    rw [Trace.memory_cleared_of_not, Trace.memory_reads]
    intro j lower upper same
    exact absurd (offset_inj (by omega) (by omega) same) (by omega)
  have run : trimLoop fuel ptr (BitVec.ofNat w text.length) start =
      some (final.read (ptr + BitVec.ofNat w n)) := by
    rw [show fuel = more + 1 + k by omega, whole, trimLoop_blanks (by omega), length, trimLoop]
    · have before : BitVec.ofNat w (n + 1) - 1 = BitVec.ofNat w n := by
        rw [ofNat_succ, BitVec.add_sub_cancel]
      have here : (start.cleared ptr (n + 1) k).memory (ptr + BitVec.ofNat w n) ≠ SPACE := by
        rw [← length, kept n (by omega)]
        exact other
      rw [before, if_neg here, ← length]
    · intro i lower upper
      rw [Trace.memory_reads, string.cells i (by omega)]
      exact getElem_trailing lower (by omega)
  refine ⟨final.read (ptr + BitVec.ofNat w n), ?_, ?_, ⟨string.notNull, by omega, ?_, ?_, ?_⟩, ?_⟩
  · rw [trimEnd_eq string, if_pos (by omega), run]
    rfl
  · intro a mem
    rcases List.mem_cons.mp mem with rfl | mem
    · exact Or.inr (within_offset fits (by omega))
    · rcases Trace.accessed_cleared mem with mem | ⟨j, lower, upper, rfl⟩
      · rcases Trace.accessed_reads mem with before | ⟨j, lower, upper, rfl⟩
        · exact Or.inl before
        · exact Or.inr (within_offset fits (by omega))
      · exact Or.inr (within_offset fits (by omega))
  · intro i inside
    exact (kept i inside).trans ((string.cells i (by omega)).trans
      ((trimmed_isFront text).getElem inside).symm)
  · intro c mem
    exact string.clean c ((trimmed_isFront text).subset mem)
  · rcases Nat.eq_zero_or_pos k with rfl | positive
    · have same : (trimmed text).length = text.length := by omega
      rw [same]
      exact (congrFun (Trace.memory_reads t ptr 0 _) _).trans string.terminated
    · obtain ⟨k, rfl⟩ := Nat.exists_eq_add_one_of_ne_zero (Nat.ne_of_gt positive)
      exact Trace.memory_cleared_first (by omega)
  · intro a changed
    by_contra outside
    apply changed
    have unchanged : final.memory a = start.memory a := Trace.memory_cleared_of_not
      fun j lower upper same => outside ⟨j, lower, by omega, same⟩
    exact unchanged.trans (congrFun (Trace.memory_reads t ptr 0 _) a)

/-- Where only blanks stand between `ptr` and the terminator, the loop reads the byte before. -/
theorem trimEnd_of_blanks {rest : List BYTE} {start : BitVec w}
    (string : IsString t.memory start rest) (fits : ptr.toNat + text.length < 2 ^ w)
    (behind : start + BitVec.ofNat w rest.length = ptr + BitVec.ofNat w text.length)
    (blanks : ∀ i < text.length, t.memory (ptr + BitVec.ofNat w i) = SPACE)
    (run : trimEnd fuel start t = some (out, t')) : ptr - 1 ∈ t'.accessed := by
  rw [trimEnd_eq string] at run
  split at run
  · obtain ⟨final, loop, same⟩ := Option.map_eq_some_iff.mp run
    obtain ⟨-, rfl⟩ := Prod.mk.inj same
    let scanned := t.reads start 0 (rest.length + 1)
    have from_ptr : trimLoop (fuel + (text.length + 1)) ptr (BitVec.ofNat w text.length) scanned =
        some final := by
      have moved := trimLoop_shift (fuel + (text.length + 1)) ptr (BitVec.ofNat w text.length) 0 scanned
      rw [← behind, trimLoop_shift] at moved
      simp only [BitVec.ofNat_eq_ofNat, BitVec.add_zero] at moved
      rw [← moved]
      exact trimLoop_more loop _
    have first : trimLoop (fuel + 1 + text.length) ptr (BitVec.ofNat w (0 + text.length)) scanned =
        trimLoop (fuel + 1) ptr (BitVec.ofNat w 0) (scanned.cleared ptr 0 text.length) := by
      apply trimLoop_blanks (by omega)
      intro i _ inside
      rw [Trace.memory_reads]
      exact blanks i (by omega)
    rw [Nat.zero_add] at first
    rw [show fuel + (text.length + 1) = fuel + 1 + text.length by omega, first, trimLoop] at from_ptr
    have before : ptr + (BitVec.ofNat w 0 - 1) = ptr - 1 := by
      rw [BitVec.sub_eq_add_neg ptr]
      simp
    rw [before] at from_ptr
    split at from_ptr
    · exact trimLoop_accessed from_ptr List.mem_cons_self
    · rw [← Option.some.inj from_ptr]
      exact List.mem_cons_self
  · cases run

end trimming

section results

variable {memory : BitVec w → BYTE} {ptr : BitVec w} {text : List BYTE}

theorem strrtrm_eq (string : IsString memory ptr text) (fuel : Nat) :
    strrtrm fuel memory ptr = trimEnd fuel ptr ⟨memory, []⟩ := if_neg string.notNull

theorem leading_le (text : List BYTE) : (text.takeWhile isBlank).length ≤ text.length :=
  (List.takeWhile_prefix isBlank).length_le

theorem drop_leading (text : List BYTE) :
    text.drop (text.takeWhile isBlank).length = text.dropWhile isBlank := by
  calc
    text.drop (text.takeWhile isBlank).length =
        (text.takeWhile isBlank ++ text.dropWhile isBlank).drop (text.takeWhile isBlank).length := by
      rw [List.takeWhile_append_dropWhile]
    _ = text.dropWhile isBlank := List.drop_left

theorem getElem_leading {i : Nat} (leading : i < (text.takeWhile isBlank).length)
    (inside : i < text.length) : text[i] = SPACE := by
  rw [← (List.takeWhile_prefix isBlank).getElem leading]
  have blank := List.mem_takeWhile_imp (List.getElem_mem leading)
  simpa only [isBlank, decide_eq_true_eq] using blank

theorem strtrm_eq (string : IsString memory ptr text) (fuel : Nat) :
    strtrm fuel memory ptr =
      if (text.takeWhile isBlank).length < fuel then
        trimEnd fuel (ptr + BitVec.ofNat w (text.takeWhile isBlank).length)
          (Trace.reads ⟨memory, []⟩ ptr 0 ((text.takeWhile isBlank).length + 1))
      else none := by
  have le := leading_le text
  have rest := string.drop le
  have blanks : ∀ j < (text.takeWhile isBlank).length, memory (ptr + BitVec.ofNat w j) = SPACE := by
    intro j inside
    rw [string.cells j (by omega)]
    exact getElem_leading inside _
  have other : memory (ptr + BitVec.ofNat w (text.takeWhile isBlank).length) ≠ SPACE := by
    rw [drop_leading] at rest
    cases found : text.dropWhile isBlank with
    | nil =>
      rw [found] at rest
      have zero := rest.terminated
      rw [List.length_nil, offset_zero] at zero
      rw [zero]
      decide
    | cons c behind =>
      rw [found] at rest
      have first := rest.cells 0 (Nat.zero_lt_succ _)
      rw [offset_zero, List.getElem_cons_zero] at first
      rw [first]
      have head := List.head_dropWhile_not isBlank (l := text) (by simp [found])
      simpa [found, isBlank] using head
  have skipped := skipLoop_eq (t := ⟨memory, []⟩) fuel blanks other (Nat.zero_le _)
  rw [offset_zero, Nat.sub_zero] at skipped
  rw [strtrm, if_neg string.notNull, skipped]
  split
  · rfl
  · rfl

theorem strrtrm_trims (string : IsString memory ptr text) (some_ : ∃ c ∈ text, c ≠ SPACE) :
    StrrtrmTrims memory ptr text := by
  obtain ⟨t', run, accessed, left, changed⟩ := trimEnd_of_some (t := ⟨memory, []⟩)
    (text.length + 1) string some_ (Nat.lt_succ_self _)
  have same := offset_zero ptr
  refine ⟨text.length + 1, t', ?_, fun a mem => ?_, ?_, changed⟩
  · rw [strrtrm_eq string, same, run]
  · exact (accessed a mem).resolve_left List.not_mem_nil
  · rw [same, List.drop_zero]
    exact left

theorem strtrm_trims (string : IsString memory ptr text) (some_ : ∃ c ∈ text, c ≠ SPACE) :
    StrtrmTrims memory ptr text := by
  have le := leading_le text
  have fits := string.fits
  have length : (text.drop (text.takeWhile isBlank).length).length =
      text.length - (text.takeWhile isBlank).length := List.length_drop
  have rest_some : ∃ c ∈ text.drop (text.takeWhile isBlank).length, c ≠ SPACE := by
    obtain ⟨c, mem, other⟩ := some_
    rw [← List.take_append_drop (text.takeWhile isBlank).length text, List.mem_append] at mem
    rcases mem with early | late
    · obtain ⟨i, inside, same⟩ := List.getElem_of_mem early
      rw [List.getElem_take] at same
      rw [List.length_take] at inside
      exact absurd (same.symm.trans (getElem_leading (by omega) (by omega))) other
    · exact ⟨c, late, other⟩
  obtain ⟨t', run, accessed, left, changed⟩ := trimEnd_of_some
    (t := Trace.reads ⟨memory, []⟩ ptr 0 ((text.takeWhile isBlank).length + 1))
    (text.length + 1) (by simpa using string.drop le) rest_some (by omega)
  refine ⟨text.length + 1, t', ?_, fun a mem => ?_, left, fun a differs => ?_⟩
  · rw [strtrm_eq string, if_pos (by omega), run]
  · rcases accessed a mem with skipped | trimming
    · rcases Trace.accessed_reads skipped with before | ⟨j, lower, upper, rfl⟩
      · cases before
      · exact within_offset fits (by omega)
    · have later := within_later (by omega) trimming
      rwa [length, Nat.add_sub_cancel' le] at later
  · obtain ⟨i, lower, upper, rfl⟩ := changed a (by rwa [Trace.memory_reads])
    refine ⟨(text.takeWhile isBlank).length + i, ?_, by omega, offset_add _ _ _⟩
    rw [length_trimmed_drop rest_some le]
    omega

theorem cell_of_blank (string : IsString memory ptr text) (blank : ∀ c ∈ text, c = SPACE) :
    ∀ i < text.length, memory (ptr + BitVec.ofNat w i) = SPACE := by
  intro i inside
  rw [string.cells i inside]
  exact blank _ (List.getElem_mem inside)

theorem strrtrm_leaves (string : IsString memory ptr text) (blank : ∀ c ∈ text, c = SPACE) :
    ¬ StrrtrmTrims memory ptr text := by
  intro trims
  obtain ⟨fuel, t', run, accessed, -, -⟩ := trims
  rw [strrtrm_eq string] at run
  exact not_within_before string.notNull _ (accessed _
    (trimEnd_of_blanks (t := ⟨memory, []⟩) string string.fits rfl (cell_of_blank string blank) run))

theorem strtrm_leaves (string : IsString memory ptr text) (blank : ∀ c ∈ text, c = SPACE) :
    ¬ StrtrmTrims memory ptr text := by
  intro trims
  obtain ⟨fuel, t', run, accessed, -, -⟩ := trims
  rw [strtrm_eq string] at run
  split at run
  · have rest := string.drop (leading_le text)
    have behind : ptr + BitVec.ofNat w (text.takeWhile isBlank).length +
        BitVec.ofNat w (text.drop (text.takeWhile isBlank).length).length =
          ptr + BitVec.ofNat w text.length := by
      rw [offset_add, List.length_drop, Nat.add_sub_of_le (leading_le text)]
    refine not_within_before string.notNull _ (accessed _
      (trimEnd_of_blanks (by simpa using rest) string.fits behind (fun i inside => ?_) run))
    rw [Trace.memory_reads]
    exact cell_of_blank string blank i inside
  · cases run

/-- Both functions trim every string but those that consist of blanks only or are empty. -/
theorem trims_iff_some_other (string : IsString memory ptr text) :
    (StrrtrmTrims memory ptr text ↔ ∃ c ∈ text, c ≠ SPACE) ∧
      (StrtrmTrims memory ptr text ↔ ∃ c ∈ text, c ≠ SPACE) := by
  by_cases some_ : ∃ c ∈ text, c ≠ SPACE
  · exact ⟨iff_of_true (strrtrm_trims string some_) some_,
      iff_of_true (strtrm_trims string some_) some_⟩
  · have blank : ∀ c ∈ text, c = SPACE := fun c mem => by_contra fun other => some_ ⟨c, mem, other⟩
    exact ⟨iff_of_false (strrtrm_leaves string blank) some_,
      iff_of_false (strtrm_leaves string blank) some_⟩

/-- A memory that holds one text and zeros. -/
def textMemory (ptr : BitVec w) (text : List BYTE) : BitVec w → BYTE :=
  fun a => text.getD (a - ptr).toNat 0

theorem isString_textMemory (notNull : ptr ≠ 0) (fits : ptr.toNat + text.length < 2 ^ w)
    (clean : ∀ c ∈ text, c ≠ 0) : IsString (textMemory ptr text) ptr text := by
  have cell : ∀ i ≤ text.length,
      textMemory ptr text (ptr + BitVec.ofNat w i) = text.getD i 0 := by
    intro i le
    have small : i < 2 ^ w := by omega
    have index : (ptr + BitVec.ofNat w i - ptr).toNat = i := by
      rw [BitVec.add_comm, BitVec.add_sub_cancel, BitVec.toNat_ofNat, Nat.mod_eq_of_lt small]
    rw [textMemory, index]
  refine ⟨notNull, fits, fun i inside => ?_, clean, ?_⟩
  · rw [cell i (Nat.le_of_lt inside), List.getD_eq_getElem _ _ inside]
  · rw [cell _ (Nat.le_refl _), List.getD_eq_default _ _ (Nat.le_refl _)]

theorem trims_a_word :
    (StrrtrmTrims (textMemory 0x1000#32 [SPACE, 0x61, SPACE]) 0x1000 [SPACE, 0x61, SPACE] ↔
        ∃ c ∈ [SPACE, 0x61, SPACE], c ≠ SPACE) ∧
      (StrtrmTrims (textMemory 0x1000#32 [SPACE, 0x61, SPACE]) 0x1000 [SPACE, 0x61, SPACE] ↔
        ∃ c ∈ [SPACE, 0x61, SPACE], c ≠ SPACE) :=
  trims_iff_some_other (isString_textMemory (by decide) (by decide) (by decide))

/-- The string of two blanks, and the empty string that stands behind them at its terminator. -/
theorem blanks_not_trimmed :
    (IsString (textMemory 0x1000#32 [SPACE, SPACE]) 0x1000 [SPACE, SPACE] ∧
      ¬ StrrtrmTrims (textMemory 0x1000#32 [SPACE, SPACE]) 0x1000 [SPACE, SPACE] ∧
      ¬ StrtrmTrims (textMemory 0x1000#32 [SPACE, SPACE]) 0x1000 [SPACE, SPACE]) ∧
    IsString (textMemory 0x1000#32 [SPACE, SPACE]) 0x1002 [] ∧
      ¬ StrrtrmTrims (textMemory 0x1000#32 [SPACE, SPACE]) 0x1002 [] ∧
      ¬ StrtrmTrims (textMemory 0x1000#32 [SPACE, SPACE]) 0x1002 [] := by
  have blanks : IsString (textMemory 0x1000#32 [SPACE, SPACE]) 0x1000 [SPACE, SPACE] :=
    isString_textMemory (by decide) (by decide) (by decide)
  have nothing : IsString (textMemory 0x1000#32 [SPACE, SPACE]) 0x1002 [] :=
    @IsString.drop _ _ _ 2 _ blanks (Nat.le_refl _)
  exact ⟨⟨blanks, strrtrm_leaves blanks (by decide), strtrm_leaves blanks (by decide)⟩,
    nothing, strrtrm_leaves nothing (by simp), strtrm_leaves nothing (by simp)⟩

end results

end Wstring
