import Mathlib.Algebra.BigOperators.Group.List.Basic
import Mathlib.Algebra.Order.BigOperators.Group.List
import Mathlib.Logic.Function.Basic

namespace Fsplit32

abbrev BYTE := BitVec 8

abbrev DWORD := BitVec 32

abbrev Name := List Char

abbrev Directory := Name → Option (List BYTE)

inductive Exit
  | finished
  | INFERR
deriving DecidableEq

/-- The handle of the input file stays open, and what is read is what the file has at that time. -/
structure State where
  files : Directory
  position : Nat
  filecou : Nat
  written : DWORD

def partName (OutFile : Name) (filecou : Nat) : Name := OutFile ++ '.' :: Nat.toDigits 10 filecou

def content (files : Directory) (name : Name) : List BYTE := (files name).getD []

/-- The file is opened with O_CREAT but not with O_TRUNC, and data is written at its beginning. -/
def overwrite (old data : List BYTE) : List BYTE := data ++ old.drop data.length

def writePart (files : Directory) (name : Name) (data : List BYTE) : Directory :=
  Function.update files name (some (overwrite (content files name) data))

/-- The loop of main. A directory has room for fewer than 2 ^ 32 files, so filecou does not wrap. -/
def splitLoop (InFile OutFile : Name) (outfsiz : DWORD) : Nat → State → Option (Exit × State)
  | 0, _ => none
  | fuel + 1, s =>
    let buffer := ((content s.files InFile).drop s.position).take outfsiz.toNat
    let bytesread := BitVec.ofNat 32 buffer.length
    if bytesread = -1 then some (.INFERR, s)
    else if bytesread = 0 then some (.finished, s)
    else
      let filecou := s.filecou + 1
      splitLoop InFile OutFile outfsiz fuel
        { files := writePart s.files (partName OutFile filecou) buffer
          position := s.position + buffer.length
          filecou := filecou
          written := s.written + bytesread }

/-- main once its arguments are read and the buffer is there. -/
def main (InFile OutFile : Name) (outfsiz : DWORD) (files : Directory) : Option (Exit × State) :=
  match files InFile with
  | none => some (.INFERR, ⟨files, 0, 0, 0⟩)
  | some input => splitLoop InFile OutFile outfsiz (input.length + 1) ⟨files, 0, 0, 0⟩

/-- The part files in numerical order make up the input, and none of them is longer than a part. -/
structure Joined (OutFile : Name) (outfsiz : DWORD) (input : List BYTE) (s : State) : Prop where
  present : ∀ k < s.filecou, ∃ bytes, s.files (partName OutFile (k + 1)) = some bytes ∧
    bytes.length ≤ outfsiz.toNat
  whole : (List.range s.filecou).flatMap (fun k => content s.files (partName OutFile (k + 1))) = input

def Right (InFile OutFile : Name) (outfsiz : DWORD) (files : Directory) (input : List BYTE) : Prop :=
  ∃ s, main InFile OutFile outfsiz files = some (.finished, s) ∧ Joined OutFile outfsiz input s

def part (n : Nat) (input : List BYTE) (k : Nat) : List BYTE := (input.drop (k * n)).take n

/-- No part file of an earlier run is longer than the part that is written to it. -/
def NoneLonger (OutFile : Name) (outfsiz : DWORD) (files : Directory) (input : List BYTE) : Prop :=
  ∀ k, k * outfsiz.toNat < input.length →
    (content files (partName OutFile (k + 1))).length ≤ (part outfsiz.toNat input k).length

/-- A read that fills the largest buffer returns what read returns for an error. -/
def Readable (outfsiz : DWORD) (input : List BYTE) : Prop :=
  ¬ (outfsiz.toNat = 2 ^ 32 - 1 ∧ 2 ^ 32 - 1 ≤ input.length)

instance (outfsiz : DWORD) (input : List BYTE) : Decidable (Readable outfsiz input) :=
  inferInstanceAs (Decidable (¬ (_ ∧ _)))

theorem partName_injective {OutFile : Name} {k l : Nat}
    (same : partName OutFile k = partName OutFile l) : k = l := by
  have digits := (List.cons.inj (List.append_cancel_left same)).2
  rw [← Nat.ofDigitChars_toDigits (by decide) (by decide) (n := k) (b := 10), digits]
  exact Nat.ofDigitChars_toDigits (by decide) (by decide)

theorem length_part (n : Nat) (input : List BYTE) (k : Nat) :
    (part n input k).length = min n (input.length - k * n) := by
  rw [part, List.length_take, List.length_drop]

theorem flatMap_part (n : Nat) (input : List BYTE) (count : Nat) :
    (List.range count).flatMap (part n input) = input.take (count * n) := by
  induction count with
  | zero => simp
  | succ count ih =>
    rw [List.range_succ, List.flatMap_append, ih, Nat.succ_mul, List.take_add, List.flatMap_singleton,
      part]

section Run

variable {InFile OutFile : Name} {outfsiz : DWORD} {files : Directory} {input : List BYTE}

/-- The state before a round, after as many parts. -/
structure After (InFile OutFile : Name) (n : Nat) (files : Directory) (input : List BYTE)
    (parts : Nat) (s : State) : Prop where
  filecou : s.filecou = parts
  position : s.position = min (parts * n) input.length
  written : ∀ k < parts, s.files (partName OutFile (k + 1)) =
    some (overwrite (content files (partName OutFile (k + 1))) (part n input k))
  others : ∀ name, (∀ k < parts, name ≠ partName OutFile (k + 1)) → s.files name = files name

/-- Also when a part file is the input file itself, what is ahead of the handle is unchanged. -/
theorem After.unread {parts : Nat} {s : State} {n : Nat}
    (after : After InFile OutFile n files input parts s) (opened : files InFile = some input) :
    (content s.files InFile).drop s.position = input.drop (parts * n) := by
  have ahead : input.drop s.position = input.drop (parts * n) := by
    rw [after.position]
    rcases Nat.le_total (parts * n) input.length with le | le
    · rw [Nat.min_eq_left le]
    · rw [Nat.min_eq_right le, List.drop_length, List.drop_eq_nil_of_le le]
  by_cases alias_ : ∃ k < parts, InFile = partName OutFile (k + 1)
  · obtain ⟨k, below, same⟩ := alias_
    have old : content files (partName OutFile (k + 1)) = input := by
      rw [← same, content, opened, Option.getD_some]
    have first : n ≤ parts * n := Nat.le_mul_of_pos_left n (Nat.zero_lt_of_lt below)
    have short : (part n input k).length ≤ s.position := by
      rw [length_part, after.position]
      omega
    obtain ⟨gap, position⟩ := Nat.exists_eq_add_of_le short
    rw [content, same, after.written k below, old, Option.getD_some, overwrite, position,
      List.drop_length_add_append, List.drop_drop, ← position, ahead]
  · have kept : s.files InFile = some input := by
      rw [after.others InFile fun k below same => alias_ ⟨k, below, same⟩, opened]
    rw [content, kept, Option.getD_some, ahead]

theorem After.step {parts : Nat} {s : State} {n : Nat}
    (after : After InFile OutFile n files input parts s)
    (more : parts * n < input.length) :
    After InFile OutFile n files input (parts + 1)
      { files := writePart s.files (partName OutFile (s.filecou + 1)) (part n input parts)
        position := s.position + (part n input parts).length
        filecou := s.filecou + 1
        written := s.written + BitVec.ofNat 32 (part n input parts).length } := by
  have fresh : ∀ k < parts, partName OutFile (parts + 1) ≠ partName OutFile (k + 1) := by
    intro k below same
    have equal := partName_injective same
    omega
  have old : content s.files (partName OutFile (parts + 1)) =
      content files (partName OutFile (parts + 1)) := by
    rw [content, after.others _ fresh, content]
  refine ⟨by rw [after.filecou], ?_, fun k below => ?_, fun name other => ?_⟩
  · dsimp only
    rw [after.position, length_part, Nat.succ_mul]
    omega
  · dsimp only
    rw [after.filecou, writePart, old]
    rcases Nat.lt_succ_iff_lt_or_eq.mp below with below | rfl
    · rw [Function.update_of_ne fun same => fresh k below same.symm]
      exact after.written k below
    · rw [Function.update_self]
  · dsimp only
    rw [after.filecou, writePart, Function.update_of_ne (other parts (Nat.lt_succ_self _))]
    exact after.others name fun k below => other k (Nat.lt_succ_of_lt below)

theorem bytesread_error {n : Nat} (bound : n < 2 ^ 32) :
    BitVec.ofNat 32 n = -1 ↔ n = 2 ^ 32 - 1 := by
  rw [← BitVec.toNat_inj, BitVec.toNat_ofNat, Nat.mod_eq_of_lt bound]
  rfl

theorem bytesread_end {n : Nat} (bound : n < 2 ^ 32) : BitVec.ofNat 32 n = 0 ↔ n = 0 := by
  rw [← BitVec.toNat_inj, BitVec.toNat_ofNat, Nat.mod_eq_of_lt bound]
  rfl

theorem splitLoop_finishes (positive : 0 < outfsiz.toNat) (opened : files InFile = some input)
    (readable : Readable outfsiz input) {fuel parts : Nat} {s : State}
    (after : After InFile OutFile outfsiz.toNat files input parts s)
    (used : ∀ k < parts, k * outfsiz.toNat < input.length)
    (enough : input.length < s.position + fuel) :
    ∃ s' count, splitLoop InFile OutFile outfsiz fuel s = some (.finished, s') ∧
      After InFile OutFile outfsiz.toNat files input count s' ∧
      ∀ k, k < count ↔ k * outfsiz.toNat < input.length := by
  induction fuel generalizing parts s with
  | zero =>
    have position := after.position
    omega
  | succ fuel ih =>
    have read : ((content s.files InFile).drop s.position).take outfsiz.toNat =
        part outfsiz.toNat input parts := by rw [after.unread opened, part]
    have length := length_part outfsiz.toNat input parts
    have bound : (part outfsiz.toNat input parts).length < 2 ^ 32 := by
      have size := outfsiz.isLt
      omega
    have good : ¬ (part outfsiz.toNat input parts).length = 2 ^ 32 - 1 := by
      intro full
      have size := outfsiz.isLt
      exact readable ⟨by omega, by omega⟩
    simp only [splitLoop, read, bytesread_error bound, bytesread_end bound, if_neg good]
    by_cases ended : (part outfsiz.toNat input parts).length = 0
    · rw [if_pos ended]
      refine ⟨s, parts, rfl, after, fun k => ⟨used k, fun more => ?_⟩⟩
      by_contra beyond
      have monotone : parts * outfsiz.toNat ≤ k * outfsiz.toNat :=
        Nat.mul_le_mul_right _ (Nat.le_of_not_lt beyond)
      omega
    · rw [if_neg ended]
      have more : parts * outfsiz.toNat < input.length := by omega
      apply ih (after.step more)
      · intro k below
        rcases Nat.lt_succ_iff_lt_or_eq.mp below with below | rfl
        · exact used k below
        · exact more
      · dsimp only
        omega

theorem main_finishes (positive : 0 < outfsiz.toNat) (opened : files InFile = some input)
    (readable : Readable outfsiz input) :
    ∃ s count, main InFile OutFile outfsiz files = some (.finished, s) ∧
      After InFile OutFile outfsiz.toNat files input count s ∧
      ∀ k, k < count ↔ k * outfsiz.toNat < input.length := by
  rw [main, opened]
  refine splitLoop_finishes positive opened readable
    ⟨rfl, by simp, fun k below => absurd below (Nat.not_lt_zero k), fun _ _ => rfl⟩
    (fun k below => absurd below (Nat.not_lt_zero k)) ?_
  dsimp only
  omega

theorem main_unreadable (opened : files InFile = some input)
    (unreadable : ¬ Readable outfsiz input) :
    main InFile OutFile outfsiz files = some (.INFERR, ⟨files, 0, 0, 0⟩) := by
  have ⟨size, long⟩ := not_not.mp unreadable
  have full : (input.take outfsiz.toNat).length = 2 ^ 32 - 1 := by
    rw [List.length_take]
    omega
  rw [main, opened]
  simp only [splitLoop, content, opened, Option.getD_some, List.drop_zero, full]
  rfl

end Run

theorem length_flatMap_append (f g : Nat → List BYTE) (count : Nat) :
    ((List.range count).flatMap fun k => f k ++ g k).length =
      ((List.range count).flatMap f).length + ((List.range count).flatMap g).length := by
  induction count with
  | zero => rfl
  | succ count ih =>
    simp only [List.range_succ, List.flatMap_append, List.flatMap_singleton, List.length_append, ih]
    omega

/-- Pieces with something behind them make up the same whole only when it is nothing. -/
theorem flatMap_append_eq_iff (f g : Nat → List BYTE) (count : Nat) :
    ((List.range count).flatMap fun k => f k ++ g k) = (List.range count).flatMap f ↔
      ∀ k < count, g k = [] := by
  constructor
  · intro same k below
    have lengths := congrArg List.length same
    rw [length_flatMap_append] at lengths
    have none_ : (List.range count).flatMap g = [] := List.eq_nil_of_length_eq_zero (by omega)
    exact List.flatMap_eq_nil_iff.mp none_ k (List.mem_range.mpr below)
  · intro none_
    apply List.flatMap_congr
    intro k mem
    rw [none_ k (List.mem_range.mp mem), List.append_nil]

section Result

variable {InFile OutFile : Name} {outfsiz : DWORD} {files : Directory} {input : List BYTE}

theorem After.joined_iff {count : Nat} {s : State}
    (after : After InFile OutFile outfsiz.toNat files input count s)
    (all : ∀ k, k < count ↔ k * outfsiz.toNat < input.length) :
    Joined OutFile outfsiz input s ↔ NoneLonger OutFile outfsiz files input := by
  have parts : (List.range s.filecou).flatMap
      (fun k => content s.files (partName OutFile (k + 1))) =
      (List.range count).flatMap fun k => part outfsiz.toNat input k ++
        (content files (partName OutFile (k + 1))).drop (part outfsiz.toNat input k).length := by
    rw [after.filecou]
    apply List.flatMap_congr
    intro k mem
    rw [content, after.written k (List.mem_range.mp mem), Option.getD_some, overwrite]
  have whole : (List.range count).flatMap (part outfsiz.toNat input) = input := by
    rw [flatMap_part]
    apply List.take_of_length_le
    by_contra short
    exact absurd ((all count).mpr (Nat.lt_of_not_le short)) (Nat.lt_irrefl _)
  have tails := flatMap_append_eq_iff (part outfsiz.toNat input)
    (fun k => (content files (partName OutFile (k + 1))).drop (part outfsiz.toNat input k).length)
    count
  rw [whole, ← parts] at tails
  constructor
  · intro joined k more
    exact List.drop_eq_nil_iff.mp (tails.mp joined.whole k ((all k).mpr more))
  · intro shorter
    have empty : ∀ k < count,
        (content files (partName OutFile (k + 1))).drop (part outfsiz.toNat input k).length = [] :=
      fun k below => List.drop_eq_nil_of_le (shorter k ((all k).mp below))
    refine ⟨fun k below => ?_, tails.mpr empty⟩
    rw [after.filecou] at below
    refine ⟨_, after.written k below, ?_⟩
    rw [overwrite, empty k below, List.append_nil, length_part]
    exact Nat.min_le_left _ _

/-- The parts make up the input file exactly when no part file was longer before. -/
theorem main_right_iff (positive : 0 < outfsiz.toNat) (opened : files InFile = some input) :
    Right InFile OutFile outfsiz files input ↔
      NoneLonger OutFile outfsiz files input ∧ Readable outfsiz input := by
  by_cases readable : Readable outfsiz input
  · obtain ⟨s, count, run, after, all⟩ := @main_finishes _ OutFile _ _ _ positive opened readable
    rw [and_iff_left readable, ← after.joined_iff all]
    constructor
    · intro right
      obtain ⟨s', run', joined⟩ := right
      rw [run] at run'
      cases run'
      exact joined
    · intro joined
      exact ⟨s, run, joined⟩
  · constructor
    · intro right
      obtain ⟨s', run', -⟩ := right
      rw [main_unreadable opened readable] at run'
      cases run'
    · intro facts
      exact absurd facts.2 readable

end Result

/-- Two bytes to be split into parts of one byte, beside a part file of an earlier run. -/
def earlierRun (old : List BYTE) : Directory := fun name =>
  if name = ['a'] then some [1, 2] else if name = ['a', '.', '2'] then some old else none

theorem main_right_shorter : Right ['a'] ['a'] 1 (earlierRun [9]) [1, 2] :=
  (main_right_iff (by decide) rfl).mpr ⟨fun k more => by
    rw [show BitVec.toNat (1 : DWORD) = 1 from rfl, Nat.mul_one] at more
    have cases : k = 0 ∨ k = 1 := by
      simp only [List.length_cons, List.length_nil] at more
      omega
    rcases cases with rfl | rfl <;> decide, by decide⟩

/-- A longer file keeps its end. -/
theorem main_keeps_tail : ¬ Right ['a'] ['a'] 1 (earlierRun [9, 9]) [1, 2] := by
  intro right
  obtain ⟨s, run, joined⟩ := right
  have same := (Prod.mk.inj (Option.some.inj run)).2
  subst same
  exact absurd joined.whole (by decide)

end Fsplit32
