import LtrData.Fdf.FileSystem
import LtrData.Library.LittleEndian

namespace Fdf

open Traced

variable {E F : Type}

inductive CompareStatus
  | equal
  | file1Failed
  | file2Failed
  | file1Longer
  | file2Longer
  | notEqual
deriving DecidableEq

/-- The 64-bit word at the start of a buffer. -/
def word (buffer : List BYTE) : QWORD := BitVec.ofNat 64 (leNat (buffer.take 8))

def compareMemory : Nat → List BYTE → List BYTE → Bool
  | 0, _, _ => true
  | dw64BitBlocks + 1, mem1, mem2 =>
    if word mem1 ≠ word mem2 then false
    else compareMemory dw64BitBlocks (mem1.drop 8) (mem2.drop 8)

def bufferSize : Nat := 16384

/-- What ReadFile delivers, a buffer at a time, up to the end of the file. -/
def readBlocks : Nat → List BYTE → List (List BYTE)
  | 0, _ => []
  | fuel + 1, data =>
    if data = [] then [] else data.take bufferSize :: readBlocks fuel (data.drop bufferSize)

def blocksOf (data : List BYTE) : List (List BYTE) := readBlocks data.length data

/-- A read size that is not 8 byte aligned is filled up with zeros. -/
def aligned (block : List BYTE) : List BYTE :=
  if block.length % 8 = 0 then block else block ++ List.replicate (8 - block.length % 8) 0

def sumWords : Nat → Nat → List BYTE → Checksum → Checksum
  | 0, _, _, sum => sum
  | n + 1, dwBufferIdx, buffer, sum =>
    let Checksum0 := sum.Checksum0 ^^^ word buffer
    sumWords n (dwBufferIdx + 1) (buffer.drop 8)
      ⟨Checksum0, sum.Checksum1 + (word buffer + Checksum0 + BitVec.ofNat 64 (dwBufferIdx + 1))⟩

def sumBlock (sum : Checksum) (block : List BYTE) : Checksum :=
  sumWords ((aligned block).length / 8) 0 (aligned block) sum

/-- The loop of GetFileCheckSum, with what is left to read. -/
def checkSumLoop (c : Config E F) : List (List BYTE) → Checksum → Run E F (Option Checksum)
  | [], sum => do if ← call c then pure (some sum) else pure none
  | block :: blocks, sum => do
    if ← call c then checkSumLoop c blocks (sumBlock sum block) else pure none

def getFileCheckSum (c : Config E F) (data : List BYTE) : Run E F (Option Checksum) :=
  checkSumLoop c (blocksOf data) ⟨0, 0⟩

/-- The loop of CompareFiles, with what is left to read of both files. -/
def compareLoop (c : Config E F) : List (List BYTE) → List (List BYTE) → Run E F CompareStatus
  | blocks1, blocks2 => do
    if ← call c then
      if ← call c then
        match blocks1, blocks2 with
        | [], [] => pure .equal
        | _ :: _, [] => pure .file1Longer
        | [], _ :: _ => pure .file2Longer
        | block1 :: blocks1, block2 :: blocks2 =>
          if block1.length > block2.length then pure .file1Longer
          else if block1.length < block2.length then pure .file2Longer
          else if compareMemory (block1.length / 8) block1 block2 then compareLoop c blocks1 blocks2
          else pure .notEqual
      else pure .file2Failed
    else pure .file1Failed

/-- A skip size from 2 GB on is a negative distance. The call fails, which goes unnoticed since the
    result is not zero, and the pointer stays at the start of the file. -/
def setFilePointer (dwSkipSize : DWORD) (data : List BYTE) : List BYTE :=
  if dwSkipSize.toNat < 2 ^ 31 then data.drop dwSkipSize.toNat else data

variable [DecidableEq E]

def compareFiles (c : Config E F) (szFile1 szFile2 : Path) : Run E F CompareStatus := do
  match ← createFile c szFile1 with
  | none => pure .file1Failed
  | some hFile1 =>
    match ← createFile c szFile2 with
    | none => pure .file2Failed
    | some hFile2 =>
      let file1 ← fileOf hFile1
      let file2 ← fileOf hFile2
      compareLoop c (blocksOf (setFilePointer c.dwSkipSize file1.data))
        (blocksOf (setFilePointer c.dwSkipSize file2.data))

section exactness

variable {a b : List BYTE}

theorem word_injective (length : (a.take 8).length = (b.take 8).length) (same : word a = word b) :
    a.take 8 = b.take 8 := by
  have bound (bytes : List BYTE) : leNat (bytes.take 8) < 2 ^ 64 :=
    Nat.lt_of_lt_of_le (leNat_lt _)
      (Nat.pow_le_pow_right (by decide) (List.length_take_le 8 bytes) : _ ≤ 256 ^ 8)
  have numbers := congrArg BitVec.toNat same
  rw [word, word, BitVec.toNat_ofNat, BitVec.toNat_ofNat, Nat.mod_eq_of_lt (bound a),
    Nat.mod_eq_of_lt (bound b)] at numbers
  exact leNat_injective length numbers

/-- Whole words are compared exactly. -/
theorem compareMemory_iff (dw64BitBlocks : Nat) : ∀ {a b : List BYTE}, a.length = b.length →
    8 * dw64BitBlocks ≤ a.length →
    (compareMemory dw64BitBlocks a b = true ↔ a.take (8 * dw64BitBlocks) = b.take (8 * dw64BitBlocks)) := by
  induction dw64BitBlocks with
  | zero => exact fun _ _ => ⟨fun _ => rfl, fun _ => rfl⟩
  | succ n ih =>
    intro a b length room
    have rest := ih (a := a.drop 8) (b := b.drop 8) (by rw [List.length_drop, List.length_drop, length])
      (by rw [List.length_drop]; omega)
    have split (l : List BYTE) : l.take (8 * (n + 1)) = l.take 8 ++ (l.drop 8).take (8 * n) := by
      rw [show 8 * (n + 1) = 8 + 8 * n by omega, List.take_add]
    have eight : (a.take 8).length = (b.take 8).length := by
      rw [List.length_take, List.length_take, length]
    rw [compareMemory, split, split]
    by_cases same : word a = word b
    · rw [if_neg (not_not.mpr same), rest, word_injective eight same, List.append_right_inj]
    · rw [if_pos same]
      refine ⟨fun absurd => (by cases absurd), fun equal => absurd ?_ same⟩
      rw [word, word, (List.append_inj equal eight).1]

/-- The XOR of the words of a buffer. -/
def xorWords : Nat → List BYTE → QWORD
  | 0, _ => 0
  | n + 1, buffer => word buffer ^^^ xorWords n (buffer.drop 8)

def xorBlock (block : List BYTE) : QWORD := xorWords ((aligned block).length / 8) (aligned block)

theorem sumWords_xor (n dwBufferIdx : Nat) (buffer : List BYTE) (sum : Checksum) :
    (sumWords n dwBufferIdx buffer sum).Checksum0 = sum.Checksum0 ^^^ xorWords n buffer := by
  induction n generalizing dwBufferIdx buffer sum with
  | zero => exact BitVec.xor_zero.symm
  | succ n ih => rw [sumWords, ih, xorWords, BitVec.xor_assoc]

theorem sumBlock_xor (sum : Checksum) (block : List BYTE) :
    (sumBlock sum block).Checksum0 = sum.Checksum0 ^^^ xorBlock block := sumWords_xor _ _ _ _

theorem xorWords_append (n : Nat) : ∀ {front : List BYTE}, front.length = 8 * n →
    ∀ (m : Nat) (back : List BYTE),
      xorWords (n + m) (front ++ back) = xorWords n front ^^^ xorWords m back := by
  induction n with
  | zero =>
    intro front length m back
    obtain rfl := List.length_eq_zero_iff.mp length
    rw [Nat.zero_add, List.nil_append]
    exact BitVec.zero_xor.symm
  | succ n ih =>
    intro front length m back
    have eight : 8 ≤ front.length := by omega
    have front_word : word (front ++ back) = word front := by
      rw [word, word, List.take_append_of_le_length eight]
    rw [show n + 1 + m = n + m + 1 by omega, xorWords, xorWords, front_word,
      List.drop_append_of_le_length eight,
      ih (by rw [List.length_drop]; omega), BitVec.xor_assoc]

/-- The bytes behind the last whole word, filled up with zeros. -/
def tailWord (block : List BYTE) : List BYTE :=
  block.drop (8 * (block.length / 8)) ++ List.replicate (8 - block.length % 8) 0

theorem length_tailWord (block : List BYTE) : (tailWord block).length = 8 := by
  rw [tailWord, List.length_append, List.length_drop, List.length_replicate]
  omega

theorem xorBlock_tail {block : List BYTE} (partial_ : block.length % 8 ≠ 0) :
    xorBlock block = xorWords (block.length / 8) (block.take (8 * (block.length / 8))) ^^^
      word (tailWord block) := by
  have split : aligned block = block.take (8 * (block.length / 8)) ++ tailWord block := by
    rw [aligned, if_neg partial_, tailWord, ← List.append_assoc, List.take_append_drop]
  have front : (block.take (8 * (block.length / 8))).length = 8 * (block.length / 8) := by
    rw [List.length_take]
    omega
  have words : (aligned block).length / 8 = block.length / 8 + 1 := by
    rw [split, List.length_append, front, length_tailWord]
    omega
  rw [xorBlock, words, split, xorWords_append _ front, xorWords, xorWords]
  exact congrArg _ BitVec.xor_zero

theorem block_exact (length : a.length = b.length)
    (same : compareMemory (a.length / 8) a b = true) (xor : xorBlock a = xorBlock b) : a = b := by
  have front := (compareMemory_iff (a.length / 8) length (by omega)).mp same
  by_cases whole : a.length % 8 = 0
  · have all : 8 * (a.length / 8) = a.length := by omega
    rw [all, List.take_length, length, List.take_length] at front
    exact front
  · have whole' : b.length % 8 ≠ 0 := length ▸ whole
    rw [xorBlock_tail whole, xorBlock_tail whole', front, ← length] at xor
    have words : word (tailWord a) = word (tailWord b) := (BitVec.xor_right_inj _).mp xor
    have full (block : List BYTE) : (tailWord block).take 8 = tailWord block :=
      List.take_of_length_le (Nat.le_of_eq (length_tailWord block))
    have tails : tailWord a = tailWord b := by
      have equal := word_injective (by rw [full, full, length_tailWord, length_tailWord]) words
      rwa [full, full] at equal
    have behind : a.drop (8 * (a.length / 8)) = b.drop (8 * (a.length / 8)) := by
      unfold tailWord at tails
      rw [← length] at tails
      exact (List.append_inj tails (by rw [List.length_drop, List.length_drop, length])).1
    rw [← List.take_append_drop (8 * (a.length / 8)) a, front, behind, List.take_append_drop]

/-- What CompareFiles has found equal. -/
def SameBlocks : List (List BYTE) → List (List BYTE) → Prop :=
  List.Forall₂ fun block1 block2 => block1.length = block2.length ∧
    compareMemory (block1.length / 8) block1 block2 = true

theorem sameBlocks_refl (blocks : List (List BYTE)) : SameBlocks blocks blocks :=
  List.forall₂_same.mpr fun _ _ => ⟨rfl, (compareMemory_iff _ rfl (by omega)).mpr rfl⟩

theorem blocks_exact {blocks1 blocks2 : List (List BYTE)} (same : SameBlocks blocks1 blocks2)
    (whole : ∀ block ∈ blocks1.dropLast, block.length % 8 = 0) {sum1 sum2 : Checksum}
    (start : sum1.Checksum0 = sum2.Checksum0)
    (sums : (blocks1.foldl sumBlock sum1).Checksum0 = (blocks2.foldl sumBlock sum2).Checksum0) :
    blocks1 = blocks2 := by
  induction same generalizing sum1 sum2 with
  | nil => rfl
  | @cons block1 block2 rest1 rest2 first rest ih =>
    obtain ⟨length, equal⟩ := first
    cases rest with
    | nil =>
      simp only [List.foldl_cons, List.foldl_nil, sumBlock_xor, start] at sums
      rw [block_exact length equal ((BitVec.xor_right_inj _).mp sums)]
    | @cons next1 next2 rest1 rest2 next rest =>
      rw [List.dropLast_cons_cons] at whole
      have all : 8 * (block1.length / 8) = block1.length := by
        have eight := whole block1 List.mem_cons_self
        omega
      have first := (compareMemory_iff (block1.length / 8) length (by omega)).mp equal
      rw [all, List.take_length, length, List.take_length] at first
      subst first
      have start : (sumBlock sum1 block1).Checksum0 = (sumBlock sum2 block1).Checksum0 := by
        rw [sumBlock_xor, sumBlock_xor, start]
      rw [ih (fun block mem => whole block (List.mem_cons_of_mem _ mem)) start sums]

theorem readBlocks_flatten (fuel : Nat) : ∀ {data : List BYTE}, data.length ≤ fuel →
    (readBlocks fuel data).flatten = data := by
  induction fuel with
  | zero =>
    intro data enough
    exact (List.length_eq_zero_iff.mp (Nat.le_zero.mp enough)).symm
  | succ fuel ih =>
    intro data enough
    unfold readBlocks
    by_cases empty : data = []
    · rw [if_pos empty, empty]
      rfl
    · have positive := List.length_pos_iff.mpr empty
      have size : bufferSize = 16384 := rfl
      rw [if_neg empty, List.flatten_cons, ih (by rw [List.length_drop]; omega),
        List.take_append_drop]

theorem blocksOf_flatten (data : List BYTE) : (blocksOf data).flatten = data :=
  readBlocks_flatten _ (Nat.le_refl _)

theorem blocksOf_injective {data data' : List BYTE} (same : blocksOf data = blocksOf data') :
    data = data' := by
  rw [← blocksOf_flatten data, same, blocksOf_flatten]

theorem readBlocks_whole (fuel : Nat) : ∀ {data : List BYTE},
    ∀ block ∈ (readBlocks fuel data).dropLast, block.length % 8 = 0 := by
  induction fuel with
  | zero => exact fun _ absurd => by cases absurd
  | succ fuel ih =>
    intro data block mem
    unfold readBlocks at mem
    by_cases empty : data = []
    · rw [if_pos empty] at mem
      cases mem
    · rw [if_neg empty] at mem
      cases rest : readBlocks fuel (data.drop bufferSize) with
      | nil =>
        rw [rest] at mem
        cases mem
      | cons next blocks =>
        rw [rest, List.dropLast_cons_cons] at mem
        rcases List.mem_cons.mp mem with rfl | mem
        · have more : data.drop bufferSize ≠ [] := by
            intro none
            rw [none] at rest
            cases fuel <;> simp [readBlocks] at rest
          have length := List.length_pos_iff.mpr more
          rw [List.length_drop] at length
          rw [List.length_take, Nat.min_eq_left (by omega)]
          rfl
        · exact ih block (rest ▸ mem)

theorem blocksOf_whole (data : List BYTE) :
    ∀ block ∈ (blocksOf data).dropLast, block.length % 8 = 0 := readBlocks_whole _

def checksumOf (data : List BYTE) : Checksum := (blocksOf data).foldl sumBlock ⟨0, 0⟩

/-- Comparing equal with the same checksum is being equal. -/
theorem content_exact {data data' : List BYTE} (same : SameBlocks (blocksOf data) (blocksOf data'))
    (sums : checksumOf data = checksumOf data') : data = data' :=
  blocksOf_injective (blocks_exact same (blocksOf_whole data) rfl (congrArg Checksum.Checksum0 sums))

end exactness

def Works (t : List Event) : Prop := ∀ e ∈ t, e ≠ .called false

/-- Calls that leave the volume and the table alone. -/
structure Quiet (s s' : State E F) : Prop where
  fs : s'.fs = s.fs
  table : s'.table = s.table

omit [DecidableEq E] in
theorem Quiet.trans {s s' s'' : State E F} (first : Quiet s s') (second : Quiet s' s'') : Quiet s s'' :=
  ⟨second.fs.trans first.fs, second.table.trans first.table⟩

omit [DecidableEq E] in
theorem quiet_composes : Composes fun (s : State E F) (_ : List Event) s' => Quiet s s' :=
  ⟨fun _ => ⟨rfl, rfl⟩, Quiet.trans⟩

/-- What holds of the value and the state that a run ends in, as long as only events of `kept` occur. -/
def Runs (kept : Event → Prop) {α : Type} (x : Run E F α) (s : State E F)
    (Q : α → State E F → Prop) : Prop :=
  Along kept (fun _ _ _ => True) (fun _ => False) x s fun _ a s' => Q a s'

section Runs

variable {kept : Event → Prop} {α β : Type} {s : State E F}

omit [DecidableEq E]

theorem runs_pure {a : α} {Q : α → State E F → Prop} (h : Q a s) :
    Runs kept (pure a : Run E F α) s Q := along_pure composes_true h

theorem runs_of_ok {x : Run E F α} {s' : State E F} {t : List Event} {a : α} (run : x s = .ok t a s')
    {Q : α → State E F → Prop} (h : (∀ e ∈ t, kept e) → Q a s') : Runs kept x s Q :=
  along_of_ok run fun all => ⟨trivial, h all⟩

theorem runs_intro {x : Run E F α} {Q : α → State E F → Prop}
    (h : ∀ t a s', x s = .ok t a s' → (∀ e ∈ t, kept e) → Q a s') : Runs kept x s Q := by
  cases run : x s with
  | ok t a s' => exact runs_of_ok run (h t a s' run)
  | error _ e _ => exact nomatch e

theorem runs_bind {x : Run E F α} {f : α → Run E F β} {Q : α → State E F → Prop}
    {Q' : β → State E F → Prop} (first : Runs kept x s Q)
    (next : ∀ a s', Q a s' → Runs kept (f a) s' Q') : Runs kept (x >>= f) s Q' :=
  along_bind composes_true first fun _ a s' _ => next a s'

theorem runs_bind_ok {x : Run E F α} {f : α → Run E F β} {s' : State E F} {t : List Event} {a : α}
    (run : x s = .ok t a s') {Q : β → State E F → Prop} (next : Runs kept (f a) s' Q) :
    Runs kept (x >>= f) s Q := along_bind_ok composes_true run trivial next

theorem Runs.mono {x : Run E F α} {Q Q' : α → State E F → Prop} (h : Runs kept x s Q)
    (weaker : ∀ a s', Q a s' → Q' a s') : Runs kept x s Q' :=
  Along.mono h fun _ a s' _ => weaker a s'

theorem Runs.imp {x : Run E F α} {p : Prop} {Q : α → State E F → Prop} (h : p → Runs kept x s Q) :
    Runs kept x s fun a s' => p → Q a s' := by
  by_cases holds : p
  · exact (h holds).mono fun _ _ value _ => value
  · exact ensures_all (fun _ _ _ _ => ⟨trivial, fun absurd => (holds absurd).elim⟩)
      (fun _ e _ => nomatch e)

end Runs

/-- A run that only looks, and has the value it has as long as only events of `kept` occur. -/
def Reads (kept : Event → Prop) {α : Type} (x : Run E F α) (s : State E F) (Q : α → Prop) : Prop :=
  Along kept (fun s _ s' => Quiet s s') (fun _ => False) x s fun _ a _ => Q a

section Reads

variable {kept : Event → Prop} {α β : Type} {s : State E F}

omit [DecidableEq E]

theorem reads_pure {a : α} {Q : α → Prop} (h : Q a) : Reads kept (pure a : Run E F α) s Q :=
  along_pure quiet_composes h

theorem reads_of_ok {x : Run E F α} {s' : State E F} {t : List Event} {a : α} (run : x s = .ok t a s')
    (quiet : Quiet s s') {Q : α → Prop} (h : (∀ e ∈ t, kept e) → Q a) : Reads kept x s Q :=
  along_of_ok run fun all => ⟨quiet, h all⟩

theorem reads_bind {x : Run E F α} {f : α → Run E F β} {Q : α → Prop} {Q' : β → Prop}
    (first : Reads kept x s Q)
    (next : ∀ a s', Quiet s s' → Q a → Reads kept (f a) s' Q') : Reads kept (x >>= f) s Q' :=
  along_bind quiet_composes first fun _ a s' => next a s'

theorem Reads.mono {x : Run E F α} {Q Q' : α → Prop} (h : Reads kept x s Q)
    (weaker : ∀ a, Q a → Q' a) : Reads kept x s Q' :=
  Along.mono h fun _ a _ _ => weaker a

theorem Reads.runs {x : Run E F α} {Q : α → Prop} (h : Reads kept x s Q) :
    Runs kept x s fun a s' => Quiet s s' ∧ Q a :=
  (Along.mono h fun _ _ _ quiet value => (⟨quiet, value⟩ : _ ∧ _)).weaken (fun _ => id)
    fun _ _ _ _ => trivial

theorem reads_call (c : Config E F) (s : State E F) :
    Reads kept (call c) s fun succeeded => kept (.called succeeded) :=
  reads_of_ok (x := call c) rfl ⟨rfl, rfl⟩ fun all => all _ List.mem_cons_self

theorem reads_fileOf (f : F) (s : State E F) : Reads kept (fileOf f) s (· = s.fs.file f) :=
  reads_of_ok (x := fileOf f) rfl ⟨rfl, rfl⟩ fun _ => rfl

theorem reads_checkSumLoop (c : Config E F) (blocks : List (List BYTE)) (sum : Checksum)
    (s : State E F) : Reads kept (checkSumLoop c blocks sum) s fun calculated =>
      calculated = some (blocks.foldl sumBlock sum) ∨ calculated = none ∧ kept (.called false) := by
  induction blocks generalizing sum s with
  | nil =>
    apply reads_bind (reads_call c s)
    intro succeeded s' _ kept
    cases succeeded with
    | true => exact reads_pure (.inl rfl)
    | false => exact reads_pure (.inr ⟨rfl, kept⟩)
  | cons block blocks ih =>
    apply reads_bind (reads_call c s)
    intro succeeded s' _ kept
    cases succeeded with
    | true => exact ih (sumBlock sum block) s'
    | false => exact reads_pure (.inr ⟨rfl, kept⟩)

theorem reads_getFileCheckSum (c : Config E F) (data : List BYTE) (s : State E F) :
    Reads kept (getFileCheckSum c data) s fun calculated =>
      calculated = some (checksumOf data) ∨ calculated = none ∧ kept (.called false) :=
  reads_checkSumLoop c (blocksOf data) ⟨0, 0⟩ s

/-- What a comparison says, and what it does not say as long as no call fails. -/
structure Compared (kept : Event → Prop) (same : Prop) (status : CompareStatus) : Prop where
  sound : status = .equal → same
  complete : same → status = .equal ∨ kept (.called false)
  works : status = .file1Failed → kept (.called false)

theorem compared_failed {same : Prop} {status : CompareStatus} (differs : status ≠ .equal)
    (failed : kept (.called false)) : Compared kept same status :=
  ⟨fun equal => absurd equal differs, fun _ => .inr failed, fun _ => failed⟩

theorem compared_differs {same : Prop} {status : CompareStatus} (differs : ¬ same)
    (told : status ≠ .equal ∧ status ≠ .file1Failed) : Compared kept same status :=
  ⟨fun equal => absurd equal told.1, fun equal => absurd equal differs,
    fun failed => absurd failed told.2⟩

theorem reads_compareLoop (c : Config E F) (blocks1 : List (List BYTE)) :
    ∀ (blocks2 : List (List BYTE)) (s : State E F), Reads kept (compareLoop c blocks1 blocks2) s
      (Compared kept (SameBlocks blocks1 blocks2)) := by
  induction blocks1 with
  | nil =>
    intro blocks2 s
    unfold compareLoop
    apply reads_bind (reads_call c s)
    intro succeeded s' _ kept
    cases succeeded with
    | false => exact reads_pure (compared_failed (by decide) kept)
    | true =>
      apply reads_bind (reads_call c s')
      intro succeeded s' _ kept
      cases succeeded with
      | false => exact reads_pure (compared_failed (by decide) kept)
      | true =>
        cases blocks2 with
        | nil => exact reads_pure ⟨fun _ => .nil, fun _ => .inl rfl, fun absurd => (by cases absurd)⟩
        | cons => exact reads_pure (compared_differs (fun same => by cases same) (by decide))
  | cons block1 rest1 ih =>
    intro blocks2 s
    unfold compareLoop
    apply reads_bind (reads_call c s)
    intro succeeded s' _ kept
    cases succeeded with
    | false => exact reads_pure (compared_failed (by decide) kept)
    | true =>
      apply reads_bind (reads_call c s')
      intro succeeded s' _ kept
      cases succeeded with
      | false => exact reads_pure (compared_failed (by decide) kept)
      | true =>
        cases blocks2 with
        | nil => exact reads_pure (compared_differs (fun same => by cases same) (by decide))
        | cons block2 rest2 =>
          show Reads _ (if block1.length > block2.length then _ else _) _ _
          by_cases longer : block1.length > block2.length
          · rw [if_pos longer]
            refine reads_pure (compared_differs (fun same => ?_) (by decide))
            cases same with
            | cons first _ => exact absurd first.1 (by omega)
          · rw [if_neg longer]
            by_cases shorter : block1.length < block2.length
            · rw [if_pos shorter]
              refine reads_pure (compared_differs (fun same => ?_) (by decide))
              cases same with
              | cons first _ => exact absurd first.1 (by omega)
            · rw [if_neg shorter]
              have length : block1.length = block2.length := by omega
              by_cases equal : compareMemory (block1.length / 8) block1 block2 = true
              · rw [if_pos equal]
                refine (ih rest2 s').mono fun status compared =>
                  ⟨fun told => .cons ⟨length, equal⟩ (compared.sound told), fun same => ?_, compared.works⟩
                cases same with
                | cons _ same => exact compared.complete same
              · rw [if_neg equal]
                refine reads_pure (compared_differs (fun same => ?_) (by decide))
                cases same with
                | cons first _ => exact absurd first.2 equal

end Reads

theorem reads_onFile {kept : Event → Prop} (c : Config E F) (szFilePath : Path) (s : State E F) :
    Reads kept (onFile c szFilePath) s fun found =>
      (∃ f, c.lookup s.fs szFilePath = some f ∧ found = some f) ∨
        found = none ∧ kept (.called false) := by
  refine reads_of_ok (x := onFile c szFilePath) rfl ⟨rfl, rfl⟩ fun all => ?_
  have seen := all _ List.mem_cons_self
  by_cases answers : c.answers s.calls = true
  · rw [if_pos answers] at seen ⊢
    cases found : c.lookup s.fs szFilePath with
    | none => exact .inr ⟨rfl, by rwa [found] at seen⟩
    | some f => exact .inl ⟨f, rfl, rfl⟩
  · rw [if_neg answers] at seen ⊢
    exact .inr ⟨rfl, seen⟩

def content (c : Config E F) (fs : FileSystem E F) (f : F) : List BYTE :=
  setFilePointer c.dwSkipSize (fs.file f).data

/-- Two paths lead to files that CompareFiles can tell equal. -/
def SameFiles (c : Config E F) (fs : FileSystem E F) (szFile1 szFile2 : Path) : Prop :=
  ∃ f1 f2, c.lookup fs szFile1 = some f1 ∧ c.lookup fs szFile2 = some f2 ∧
    SameBlocks (blocksOf (content c fs f1)) (blocksOf (content c fs f2))

theorem reads_compareFiles {kept : Event → Prop} (c : Config E F) (szFile1 szFile2 : Path)
    (s : State E F) : Reads kept (compareFiles c szFile1 szFile2) s
      (Compared kept (SameFiles c s.fs szFile1 szFile2)) := by
  apply reads_bind (reads_onFile c szFile1 s)
  rintro found s' quiet (⟨f1, found1, rfl⟩ | ⟨rfl, failed⟩)
  swap
  · exact reads_pure (compared_failed (by decide) failed)
  apply reads_bind (reads_onFile c szFile2 s')
  rintro found s'' quiet' (⟨f2, found2, rfl⟩ | ⟨rfl, failed⟩)
  swap
  · exact reads_pure (compared_failed (by decide) failed)
  apply reads_bind (reads_fileOf f1 s'')
  rintro _ s₁ quiet₁ rfl
  apply reads_bind (reads_fileOf f2 s₁)
  rintro _ s₂ quiet₂ rfl
  rw [quiet₁.fs, quiet'.fs, quiet.fs]
  rw [quiet.fs] at found2
  refine (reads_compareLoop c _ _ s₂).mono fun status told =>
    ⟨fun equal => ⟨f1, f2, found1, found2, told.sound equal⟩,
      fun same => told.complete ?_, told.works⟩
  obtain ⟨g1, g2, same1, same2, blocks⟩ := same
  cases found1.symm.trans same1
  cases found2.symm.trans same2
  exact blocks

end Fdf
