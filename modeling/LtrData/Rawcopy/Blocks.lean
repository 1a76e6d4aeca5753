import LtrData.Rawcopy.CopyLoop
import Mathlib.Data.Nat.Find

namespace Rawcopy

def outBase (c : Config) : Nat := c.current_out_pointer + c.sizWriteOffset

def blockEnd (c : Config) (k : Nat) : Nat := k * c.bufsiz + (blockAt c k).length

/-- What is to be stored for byte `i` of the copy, with zeros for what cannot be read. -/
def content (c : Config) (i : Nat) : BYTE := (blockAt c (i / c.bufsiz)).getD (i % c.bufsiz) 0

/-- The output file with the first `n` bytes of the copy in it. -/
def copied (c : Config) (n : Nat) : OutFile :=
  if n = 0 then c.existing else c.existing.write (outBase c) n (content c)

/-- The comparison of block `k` reaches behind the end of the output file. -/
def Unreadable (c : Config) (k : Nat) : Prop :=
  c.bDifferential = true ∧ blockEnd c k ≤ c.existing_out_file_size ∧
    c.existing.size < outBase c + blockEnd c k

instance (c : Config) (k : Nat) : Decidable (Unreadable c k) :=
  inferInstanceAs (Decidable (_ ∧ _ ∧ _))

/-- Block `k` is not written, when it is in the buffer. -/
def skipped (c : Config) (k : Nat) (buffer : Nat → BYTE) : Bool :=
  c.bCreateSparse && decide (c.existing_out_file_size ≤ (k * c.bufsiz : Nat)) &&
      allZero buffer (blockAt c k).length ||
    c.bDifferential && decide (blockEnd c k ≤ c.existing_out_file_size) &&
      (List.range (blockAt c k).length).all fun i =>
        buffer i = c.existing.byte (outBase c + k * c.bufsiz + i)

/-- Block `k` is written and that fails. -/
def Lost (c : Config) (k : Nat) (buffer : Nat → BYTE) : Prop :=
  skipped c k buffer = false ∧ c.writeFails (outBase c + k * c.bufsiz) = true

instance (c : Config) (k : Nat) (buffer : Nat → BYTE) : Decidable (Lost c k buffer) :=
  inferInstanceAs (Decidable (_ ∧ _))

/-- The state before block `k`, with all blocks before it in the output file. -/
structure Copied (c : Config) (s : State) (k : Nat) : Prop extends Aligned c s k where
  buffer : ∀ i, c.bufsiz ≤ i → s.buffer i = c.memory i
  out : s.out = copied c (k * c.bufsiz)

section lengths

variable {c : Config} {k : Nat}

theorem blockAt_length (more : k * c.bufsiz < total c) :
    0 < (blockAt c k).length ∧ blockLength c k ≤ (blockAt c k).length ∧
      (blockAt c k).length ≤ c.bufsiz := by
  have positive := c.bufsiz_pos
  unfold blockAt blockLength total at *
  by_cases unlimited : c.copylength = 0
  · rw [if_pos unlimited] at more ⊢
    rw [if_neg (show ¬(c.copylength ≠ 0 ∧ _) from fun limited => limited.1 unlimited)]
    split <;> simp only [List.length_replicate, List.length_take, List.length_drop] <;> omega
  · rw [if_neg unlimited] at more ⊢
    split <;> split <;> simp only [List.length_replicate, List.length_take, List.length_drop] <;> omega

theorem blockAt_full (more : (k + 1) * c.bufsiz < total c) : (blockAt c k).length = c.bufsiz := by
  have expand : (k + 1) * c.bufsiz = k * c.bufsiz + c.bufsiz := Nat.succ_mul k c.bufsiz
  have bounds := blockAt_length (c := c) (k := k) (by omega)
  unfold blockLength at bounds
  omega

theorem blockEnd_full (more : (k + 1) * c.bufsiz < total c) :
    blockEnd c k = (k + 1) * c.bufsiz := by
  rw [blockEnd, blockAt_full more, Nat.succ_mul]

theorem total_le_blockEnd (more : k * c.bufsiz < total c) (last : total c ≤ (k + 1) * c.bufsiz) :
    total c ≤ blockEnd c k := by
  have expand : (k + 1) * c.bufsiz = k * c.bufsiz + c.bufsiz := Nat.succ_mul k c.bufsiz
  have bounds := blockAt_length more
  unfold blockLength at bounds
  unfold blockEnd
  omega

theorem content_block {i : Nat} (inside : i < (blockAt c k).length) (more : k * c.bufsiz < total c) :
    content c (k * c.bufsiz + i) = (blockAt c k).getD i 0 := by
  have short : i < c.bufsiz := by
    have bounds := blockAt_length more
    omega
  have quotient : (k * c.bufsiz + i) / c.bufsiz = k := by
    rw [Nat.mul_comm, Nat.mul_add_div c.bufsiz_pos, Nat.div_eq_of_lt short, Nat.add_zero]
  have remainder : (k * c.bufsiz + i) % c.bufsiz = i := by
    rw [Nat.mul_comm, Nat.mul_add_mod, Nat.mod_eq_of_lt short]
  rw [content, quotient, remainder]

end lengths

/-! ### One block -/

section blocks

variable {c : Config} {s : State} {k : Nat}

theorem readBlock_aligned (aligned : Aligned c s k) : readBlock c s =
    ({ s with
        inPosition := c.skipforward + k * c.bufsiz +
          if c.readFails (c.skipforward + k * c.bufsiz) then c.bufsiz else (blockAt c k).length
        buffer := load s.buffer (blockAt c k) }, blockAt c k) := by
  have bounds := dwBlockSize_bounds aligned
  have inside : c.skipforward + k * c.bufsiz < c.input.length := by
    have more := aligned.more
    unfold total at more
    split at more <;> omega
  have present : (c.input.drop s.inPosition).take (dwBlockSize c s) ≠ [] := by
    rw [Ne, List.take_eq_nil_iff, List.drop_eq_nil_iff, aligned.inPosition]
    omega
  have block : blockAt c k = if c.readFails (c.skipforward + k * c.bufsiz) then
      List.replicate (dwBlockSize c s) 0
      else (c.input.drop (c.skipforward + k * c.bufsiz)).take (dwBlockSize c s) := by
    rw [blockAt, dwBlockSize_aligned aligned]
  rw [readBlock, if_neg present, aligned.inPosition, block]
  by_cases fails : c.readFails (c.skipforward + k * c.bufsiz) = true
  · simp only [if_pos fails]
  · simp only [if_neg fails]

theorem load_content {buffer : Nat → BYTE} {i : Nat} (inside : i < (blockAt c k).length)
    (more : k * c.bufsiz < total c) :
    load buffer (blockAt c k) i = content c (k * c.bufsiz + i) := by
  rw [load, if_pos inside, content_block inside more]

theorem allZero_bytes {buffer : Nat → BYTE} {n i : Nat} (zero : allZero buffer n = true)
    (inside : i < n) : buffer i = 0 := by
  unfold allZero at zero
  have each := List.all_eq_true.mp zero i (List.mem_range.mpr (by omega))
  exact of_decide_eq_true each

theorem copied_size_le (n : Nat) : (copied c n).size ≤ max c.existing.size (outBase c + n) := by
  unfold copied
  split
  · exact Nat.le_max_left _ _
  · exact Nat.le_refl _

theorem le_copied_size (n : Nat) : c.existing.size ≤ (copied c n).size := by
  unfold copied
  split
  · exact Nat.le_refl _
  · exact Nat.le_max_left _ _

theorem copied_byte (n i : Nat) : (copied c n).byte i =
    if outBase c ≤ i ∧ i < outBase c + n then content c (i - outBase c) else c.existing.byte i := by
  unfold copied
  by_cases none : n = 0
  · rw [if_pos none, if_neg (by omega)]
  · rw [if_neg none, OutFile.write_byte]

theorem copied_size {n : Nat} (some : n ≠ 0) :
    (copied c n).size = max c.existing.size (outBase c + n) := by
  rw [copied, if_neg some, OutFile.write_size]

theorem blockEnd_ne_zero (more : k * c.bufsiz < total c) : blockEnd c k ≠ 0 := by
  have bounds := blockAt_length more
  unfold blockEnd
  omega

theorem copied_write {buffer : Nat → BYTE} (more : k * c.bufsiz < total c)
    (loaded : ∀ i, i < (blockAt c k).length → buffer i = content c (k * c.bufsiz + i)) :
    (copied c (k * c.bufsiz)).write (outBase c + k * c.bufsiz) (blockAt c k).length buffer =
      copied c (blockEnd c k) := by
  have bounds := blockAt_length more
  have lower := le_copied_size (c := c) (k * c.bufsiz)
  have upper := copied_size_le (c := c) (k * c.bufsiz)
  have some := blockEnd_ne_zero more
  ext i : 2
  · rw [copied_size some, blockEnd, OutFile.write_size]
    omega
  · rw [copied_byte, OutFile.write_byte]
    by_cases inside : outBase c + k * c.bufsiz ≤ i ∧
        i < outBase c + k * c.bufsiz + (blockAt c k).length
    · rw [if_pos inside, if_pos (by unfold blockEnd; omega), loaded _ (by omega)]
      congr 1
      omega
    · rw [if_neg inside, copied_byte]
      by_cases before : outBase c ≤ i ∧ i < outBase c + k * c.bufsiz
      · rw [if_pos before, if_pos (by unfold blockEnd; omega)]
      · rw [if_neg before, if_neg (by unfold blockEnd; omega)]

/-- Moving the end of the file behind a block of zeros does what writing them does, when the
    output file ends before the block. -/
theorem copied_setEndOfFile (more : k * c.bufsiz < total c)
    (behind : c.existing_out_file_size ≤ (k * c.bufsiz : Nat))
    (zero : ∀ i, i < (blockAt c k).length → content c (k * c.bufsiz + i) = 0) :
    (copied c (k * c.bufsiz)).setEndOfFile (outBase c + blockEnd c k) =
      copied c (blockEnd c k) := by
  have bounds := blockAt_length more
  have upper := copied_size_le (c := c) (k * c.bufsiz)
  unfold Config.existing_out_file_size at behind
  have ends : c.existing.size ≤ outBase c + k * c.bufsiz := by
    unfold outBase
    omega
  have some := blockEnd_ne_zero more
  ext i : 2
  · rw [copied_size some, OutFile.setEndOfFile_size]
    unfold blockEnd
    omega
  · rw [copied_byte, OutFile.setEndOfFile_byte, copied_byte]
    by_cases before : outBase c ≤ i ∧ i < outBase c + k * c.bufsiz
    · rw [if_pos (by unfold blockEnd; omega), if_pos before, if_pos (by unfold blockEnd; omega)]
    · rw [if_neg before]
      by_cases inside : outBase c ≤ i ∧ i < outBase c + blockEnd c k
      · rw [if_pos inside.2, if_pos inside, c.existing.behind i (by omega)]
        have position : i - outBase c = k * c.bufsiz + (i - outBase c - k * c.bufsiz) := by omega
        rw [position, zero _ (by unfold blockEnd at inside; omega)]
      · rw [if_neg inside]
        split
        · rfl
        · exact (c.existing.behind i (by unfold blockEnd at *; omega)).symm

theorem copied_same (more : k * c.bufsiz < total c)
    (inside : outBase c + blockEnd c k ≤ c.existing.size)
    (same : ∀ i, i < (blockAt c k).length →
      content c (k * c.bufsiz + i) = c.existing.byte (outBase c + k * c.bufsiz + i)) :
    copied c (k * c.bufsiz) = copied c (blockEnd c k) := by
  have bounds := blockAt_length more
  have lower := le_copied_size (c := c) (k * c.bufsiz)
  have upper := copied_size_le (c := c) (k * c.bufsiz)
  have some := blockEnd_ne_zero more
  ext i : 2
  · rw [copied_size some]
    unfold blockEnd at *
    omega
  · rw [copied_byte, copied_byte]
    by_cases before : outBase c ≤ i ∧ i < outBase c + k * c.bufsiz
    · rw [if_pos before, if_pos (by unfold blockEnd; omega)]
    · rw [if_neg before]
      by_cases here : outBase c ≤ i ∧ i < outBase c + blockEnd c k
      · rw [if_pos here]
        have position : i - outBase c = k * c.bufsiz + (i - outBase c - k * c.bufsiz) := by omega
        rw [position, same _ (by unfold blockEnd at here; omega)]
        congr 1
        omega
      · rw [if_neg here]

def loaded (c : Config) (s : State) (k : Nat) : State :=
  { s with
    inPosition := c.skipforward + k * c.bufsiz +
      if c.readFails (c.skipforward + k * c.bufsiz) then c.bufsiz else (blockAt c k).length
    buffer := load s.buffer (blockAt c k)
    readbytes := blockEnd c k }

def passed (c : Config) (s : State) (k : Nat) : State :=
  { loaded c s k with
    out := copied c (blockEnd c k)
    outPosition := outBase c + blockEnd c k }

/-- What may become of block `k`. -/
inductive Outcome (c : Config) (s : State) (k : Nat) : State → Prop
  | unreadable {after : State} (unreadable : Unreadable c k) (point : after.point = .failed) :
      Outcome c s k after
  | lost {after : State} (readable : ¬Unreadable c k)
      (lost : Lost c k (load s.buffer (blockAt c k))) (point : after.point = .ended)
      (readbytes : after.readbytes = blockEnd c k) (out : after.out = copied c (k * c.bufsiz)) :
      Outcome c s k after
  | passed (readable : ¬Unreadable c k) (kept : ¬Lost c k (load s.buffer (blockAt c k))) :
      Outcome c s k (nextBlock c (passed c s k))

theorem outPosition_copied (state : Copied c s k) : s.outPosition = outBase c + k * c.bufsiz := by
  rw [outBase, state.outPosition]

theorem putBlock_copied (state : Copied c s k) (readable : ¬Unreadable c k) {skip : Bool}
    (skips : skip = skipped c k (load s.buffer (blockAt c k))) :
    Outcome c s k (putBlock c (loaded c s k) (blockAt c k).length skip) := by
  have more := state.more
  have position : (loaded c s k).outPosition + (blockAt c k).length = outBase c + blockEnd c k := by
    rw [loaded, outPosition_copied state, blockEnd, Nat.add_assoc]
  have start : (loaded c s k).outPosition = outBase c + k * c.bufsiz := by
    rw [loaded, outPosition_copied state]
  have out : (loaded c s k).out = copied c (k * c.bufsiz) := state.out
  have contents : ∀ i, i < (blockAt c k).length →
      (loaded c s k).buffer i = content c (k * c.bufsiz + i) := by
    intro i inside
    exact load_content inside more
  unfold putBlock
  rw [position, start, out]
  subst skips
  by_cases skips : skipped c k (load s.buffer (blockAt c k)) = true
  · have kept : ¬Lost c k (load s.buffer (blockAt c k)) := by
      intro lost
      have written := lost.1
      rw [skips] at written
      cases written
    have skippedOut : (if c.existing_out_file_size < (loaded c s k).readbytes then
        (copied c (k * c.bufsiz)).setEndOfFile (outBase c + blockEnd c k)
        else copied c (k * c.bufsiz)) = copied c (blockEnd c k) := by
      have bounds := blockAt_length more
      show (if c.existing_out_file_size < (blockEnd c k : Nat) then _ else _) = _
      unfold skipped at skips
      rcases Bool.or_eq_true_iff.mp skips with sparse | same
      · simp only [Bool.and_eq_true, decide_eq_true_eq] at sparse
        obtain ⟨⟨_, behind⟩, zero⟩ := sparse
        rw [if_pos (by unfold blockEnd; omega)]
        apply copied_setEndOfFile more behind
        intro i inside
        rw [← contents i inside]
        exact allZero_bytes zero inside
      · simp only [Bool.and_eq_true, decide_eq_true_eq, List.all_eq_true, List.mem_range] at same
        obtain ⟨⟨differential, before⟩, same⟩ := same
        rw [if_neg (by omega)]
        have inside : outBase c + blockEnd c k ≤ c.existing.size := by
          by_contra short
          exact readable ⟨differential, before, by omega⟩
        apply copied_same more inside
        intro i bound
        rw [← contents i bound]
        exact same i bound
    rw [if_pos skips, skippedOut]
    exact .passed readable kept
  · rw [if_neg skips]
    by_cases fails : c.writeFails (outBase c + k * c.bufsiz) = true
    · rw [if_pos fails]
      exact .lost readable ⟨Bool.not_eq_true _ ▸ skips, fails⟩ rfl rfl rfl
    · rw [if_neg fails, copied_write more contents]
      exact .passed readable fun lost => fails lost.2

theorem step_copied (state : Copied c s k) : Outcome c s k (step c s) := by
  have more := state.more
  have bounds := blockAt_length more
  have going : ¬(c.copylength ≠ 0 ∧ c.copylength ≤ s.readbytes) := by
    rw [state.readbytes]
    unfold total at more
    split at more <;> omega
  have some : blockAt c k ≠ [] := List.ne_nil_of_length_pos bounds.1
  have readbytes : s.readbytes + (blockAt c k).length = blockEnd c k := by
    rw [state.readbytes, blockEnd]
  have position : (loaded c s k).outPosition = outBase c + k * c.bufsiz := by
    rw [loaded, outPosition_copied state]
  have reaches : ((loaded c s k).out.size < (loaded c s k).outPosition + (blockAt c k).length) =
      (s.out.size < outBase c + blockEnd c k) := by
    rw [position, blockEnd, ← Nat.add_assoc, loaded]
  have sizes : c.existing.size ≤ s.out.size ∧
      s.out.size ≤ max c.existing.size (outBase c + k * c.bufsiz) := by
    rw [state.out]
    exact ⟨le_copied_size _, copied_size_le _⟩
  have stepped : step c s = compareBlock c (loaded c s k) (blockAt c k).length
      (c.bCreateSparse && decide (c.existing_out_file_size ≤ (k * c.bufsiz : Nat)) &&
        allZero (load s.buffer (blockAt c k)) (blockAt c k).length) := by
    rw [step, if_neg (not_not.mpr state.point), if_neg going, readBlock_aligned state.toAligned]
    simp only [if_neg some, copyBlock, blockEnd, loaded, state.readbytes]
  rw [stepped, compareBlock]
  by_cases compare : c.bDifferential = true ∧ (blockEnd c k : Nat) ≤ c.existing_out_file_size
  · rw [if_pos (show c.bDifferential ∧ ((loaded c s k).readbytes : Int) ≤ _ from compare)]
    by_cases short : (loaded c s k).out.size < (loaded c s k).outPosition + (blockAt c k).length
    · rw [if_pos short]
      refine .unreadable ⟨compare.1, compare.2, ?_⟩ rfl
      rw [reaches] at short
      omega
    · rw [if_neg short]
      rw [reaches] at short
      apply putBlock_copied state
      · intro unreadable
        have behind := unreadable.2.2
        unfold blockEnd at *
        omega
      · -- behind the blocks in front of it, the output file is as it was
        have same : sameBlock (loaded c s k) (blockAt c k).length =
            (List.range (blockAt c k).length).all fun i =>
              load s.buffer (blockAt c k) i = c.existing.byte (outBase c + k * c.bufsiz + i) := by
          have out : (loaded c s k).out = copied c (k * c.bufsiz) := state.out
          have untouched : ∀ i, (copied c (k * c.bufsiz)).byte (outBase c + k * c.bufsiz + i) =
              c.existing.byte (outBase c + k * c.bufsiz + i) := by
            intro i
            rw [copied_byte, if_neg (by omega)]
          unfold sameBlock
          rw [position, out]
          simp only [untouched]
          rfl
        rw [same, skipped, compare.1, decide_eq_true compare.2, Bool.true_and, Bool.true_and]
  · rw [if_neg (show ¬(c.bDifferential ∧ ((loaded c s k).readbytes : Int) ≤ _) from compare)]
    apply putBlock_copied state
    · intro unreadable
      exact compare ⟨unreadable.1, unreadable.2.1⟩
    · have differs : (c.bDifferential && decide ((blockEnd c k : Nat) ≤ c.existing_out_file_size)) =
          false := by
        rw [Bool.eq_false_iff, Ne, Bool.and_eq_true, decide_eq_true_eq]
        exact compare
      rw [skipped, differs, Bool.false_and, Bool.or_false]

end blocks

/-! ### The whole loop -/

/-- The loop has ended with everything copied. -/
def AtEnd (c : Config) (s : State) : Prop := s.point = .ended ∧ total c ≤ s.readbytes

/-- Block `k` lets the loop get to the next one. -/
def Passes (c : Config) (k : Nat) : Prop :=
  ¬Unreadable c k ∧ ¬Lost c k (load c.memory (blockAt c k))

def lastBlock (c : Config) : Nat := (total c - 1) / c.bufsiz

section runs

variable {c : Config} {s : State} {k : Nat}

theorem ended_ne_running : Point.ended ≠ Point.running := by decide

theorem lastBlock_bounds (some : 0 < total c) :
    lastBlock c * c.bufsiz < total c ∧ total c ≤ (lastBlock c + 1) * c.bufsiz := by
  have expand : (lastBlock c + 1) * c.bufsiz = lastBlock c * c.bufsiz + c.bufsiz :=
    Nat.succ_mul _ _
  have lower : lastBlock c * c.bufsiz ≤ total c - 1 := Nat.div_mul_le_self _ _
  have upper : total c - 1 < lastBlock c * c.bufsiz + c.bufsiz :=
    Nat.lt_div_mul_add c.bufsiz_pos
  omega

theorem lt_lastBlock (some : 0 < total c) : k < lastBlock c ↔ (k + 1) * c.bufsiz < total c := by
  rw [lastBlock, ← Nat.succ_le_iff, Nat.le_div_iff_mul_le c.bufsiz_pos]
  show (k + 1) * c.bufsiz ≤ total c - 1 ↔ _
  omega

theorem le_lastBlock (some : 0 < total c) : k ≤ lastBlock c ↔ k * c.bufsiz < total c := by
  rw [lastBlock, Nat.le_div_iff_mul_le c.bufsiz_pos]
  omega

theorem lost_full (state : Copied c s k) (more : (k + 1) * c.bufsiz < total c) :
    load s.buffer (blockAt c k) = load c.memory (blockAt c k) := by
  funext i
  unfold load
  rw [blockAt_full more]
  by_cases inside : i < c.bufsiz
  · rw [if_pos inside, if_pos inside]
  · rw [if_neg inside, if_neg inside, state.buffer i (by omega)]

theorem start_copied (some : 0 < total c) : Copied c (start c) 0 where
  point := rfl
  more := by omega
  inPosition := by
    rw [Nat.zero_mul]
    rfl
  readbytes := by
    rw [Nat.zero_mul]
    rfl
  outPosition := by
    rw [Nat.zero_mul]
    rfl
  writtenblocks := rfl
  buffer _ _ := rfl
  out := by
    rw [Nat.zero_mul, copied, if_pos rfl]
    rfl

theorem next_copied (state : Copied c s k) (more : (k + 1) * c.bufsiz < total c) :
    Copied c (nextBlock c (passed c s k)) (k + 1) := by
  have expand : (k + 1) * c.bufsiz = k * c.bufsiz + c.bufsiz := Nat.succ_mul k c.bufsiz
  have unlimited : ¬(c.copylength ≠ 0 ∧ c.copylength ≤ ((passed c s k).writtenblocks + 1 : Nat)) := by
    have count : (passed c s k).writtenblocks = k := state.writtenblocks
    have blocks : k + 1 ≤ (k + 1) * c.bufsiz := Nat.le_mul_of_pos_right _ c.bufsiz_pos
    rw [count]
    unfold total at more
    split at more <;> omega
  have ends : (passed c s k).readbytes = (k + 1) * c.bufsiz := blockEnd_full more
  have position : (passed c s k).outPosition = outBase c + (k + 1) * c.bufsiz := by
    rw [← blockEnd_full more]
    rfl
  have out : (passed c s k).out = copied c ((k + 1) * c.bufsiz) := by
    rw [← blockEnd_full more]
    rfl
  have point : (passed c s k).point = .running := state.point
  have input : (passed c s k).inPosition = c.skipforward + (k + 1) * c.bufsiz := by
    show _ + ite _ _ _ = _
    rw [blockAt_full more, ite_self, expand, Nat.add_assoc]
  exact {
    point := by rw [nextBlock, if_neg unlimited, point]
    more
    inPosition := input
    readbytes := ends
    outPosition := position
    writtenblocks := congrArg (· + 1) state.writtenblocks
    buffer := by
      intro i outside
      show load s.buffer (blockAt c k) i = _
      rw [load, if_neg (by rw [blockAt_full more]; omega), state.buffer i outside]
    out }

theorem next_last (state : Copied c s k) (last : total c ≤ (k + 1) * c.bufsiz) :
    (nextBlock c (passed c s k)).point = .ended ∨ Exhausted c (nextBlock c (passed c s k)) := by
  have expand : (k + 1) * c.bufsiz = k * c.bufsiz + c.bufsiz := Nat.succ_mul k c.bufsiz
  by_cases enough : c.copylength ≠ 0 ∧ c.copylength ≤ ((passed c s k).writtenblocks + 1 : Nat)
  · left
    rw [nextBlock, if_pos enough]
  · right
    have more := state.more
    have all := total_le_blockEnd more last
    have bounds := blockAt_length more
    refine ⟨by rw [nextBlock, if_neg enough]; exact state.point, all, ?_⟩
    show c.copylength ≠ 0 ∧ c.copylength ≤ (blockEnd c k : Nat) ∨
      c.input.length ≤ c.skipforward + k * c.bufsiz +
        if c.readFails (c.skipforward + k * c.bufsiz) then c.bufsiz else (blockAt c k).length
    unfold total at *
    unfold blockEnd at *
    by_cases unlimited : c.copylength = 0
    · rw [if_pos unlimited] at *
      split <;> omega
    · rw [if_neg unlimited] at *
      split <;> omega

theorem exhausted_ends (state : Exhausted c s) : step c s = { s with point := .ended } := by
  rw [step, if_neg (not_not.mpr state.point)]
  by_cases limited : c.copylength ≠ 0 ∧ c.copylength ≤ s.readbytes
  · rw [if_pos limited]
  · rw [if_neg limited]
    have none : c.input.length ≤ s.inPosition := by
      rcases state.none with copied | none
      · exact absurd copied limited
      · exact none
    have empty : (c.input.drop s.inPosition).take (dwBlockSize c s) = [] := by
      rw [List.drop_eq_nil_of_le none, List.take_nil]
    rw [readBlock, if_pos empty]
    rfl

theorem run_stays {n : Nat} (stopped : (run c n).point ≠ .running) (m : Nat) :
    run c (n + m) = run c n := by
  induction m with
  | zero => rfl
  | succ m ih =>
    rw [← Nat.add_assoc, run, ih, step, if_pos stopped]

theorem run_stopped {m n : Nat} (first : (run c m).point ≠ .running)
    (second : (run c n).point ≠ .running) : run c m = run c n := by
  rcases Nat.le_total m n with le | le
  · rw [← run_stays first (n - m), Nat.add_sub_of_le le]
  · rw [← run_stays second (m - n), Nat.add_sub_of_le le]

theorem run_copied (more : k * c.bufsiz < total c) (passes : ∀ j < k, Passes c j) :
    Copied c (run c k) k := by
  induction k with
  | zero => exact start_copied (by omega)
  | succ k ih =>
    have expand : (k + 1) * c.bufsiz = k * c.bufsiz + c.bufsiz := Nat.succ_mul k c.bufsiz
    have before := ih (by omega) fun j less => passes j (by omega)
    have here := passes k (by omega)
    rw [Passes, ← lost_full before more] at here
    have outcome := step_copied before
    rw [run]
    generalize step c (run c k) = after at outcome
    cases outcome with
    | unreadable unreadable _ => exact absurd unreadable here.1
    | lost _ lost _ _ _ => exact absurd lost here.2
    | passed _ _ => exact next_copied before more

theorem stops_early (more : (k + 1) * c.bufsiz < total c) (passes : ∀ j < k, Passes c j)
    (stops : ¬Passes c k) : (run c (k + 1)).point ≠ .running ∧ ¬AtEnd c (run c (k + 1)) := by
  have expand : (k + 1) * c.bufsiz = k * c.bufsiz + c.bufsiz := Nat.succ_mul k c.bufsiz
  have before := run_copied (c := c) (k := k) (by omega) passes
  rw [Passes, ← lost_full before more] at stops
  have outcome := step_copied before
  rw [run]
  generalize step c (run c k) = after at outcome
  cases outcome with
  | unreadable _ point =>
    rw [AtEnd, point]
    exact ⟨by decide, fun ended => absurd ended.1 (by decide)⟩
  | lost _ _ point readbytes _ =>
    rw [AtEnd, point, readbytes, blockEnd_full more]
    exact ⟨by decide, fun ended => by omega⟩
  | passed readable kept => exact absurd ⟨readable, kept⟩ stops

/-- What the loop has done when it has stopped behind the last block. -/
inductive Finish (c : Config) (after : State) : Prop
  | empty (none : total c = 0) (ended : AtEnd c after) (out : after.out = c.existing)
  | unreadable (some : 0 < total c) (unreadable : Unreadable c (lastBlock c))
      (point : after.point = .failed)
  | lost (some : 0 < total c) (readable : ¬Unreadable c (lastBlock c))
      (fails : c.writeFails (outBase c + lastBlock c * c.bufsiz) = true) (ended : AtEnd c after)
      (out : after.out = copied c (lastBlock c * c.bufsiz))
  | all (some : 0 < total c) (readable : ¬Unreadable c (lastBlock c)) (ended : AtEnd c after)
      (out : after.out = copied c (blockEnd c (lastBlock c)))

theorem run_finishes (passes : ∀ j, (j + 1) * c.bufsiz < total c → Passes c j) :
    ∃ n, (run c n).point ≠ .running ∧ Finish c (run c n) := by
  by_cases none : total c = 0
  · have exhausted : Exhausted c (start c) := by
      refine ⟨rfl, by omega, ?_⟩
      show c.copylength ≠ 0 ∧ c.copylength ≤ (0 : Nat) ∨ c.input.length ≤ c.skipforward
      unfold total at none
      split at none <;> omega
    refine ⟨1, ?_⟩
    rw [run, run, exhausted_ends exhausted]
    exact ⟨ended_ne_running, .empty none ⟨rfl, by omega⟩ rfl⟩
  · have some : 0 < total c := by omega
    have last := lastBlock_bounds some
    have all := total_le_blockEnd last.1 last.2
    have before : Copied c (run c (lastBlock c)) (lastBlock c) :=
      run_copied last.1 fun j less => passes j ((lt_lastBlock some).mp less)
    have outcome := step_copied before
    have stepped : run c (lastBlock c + 1) = step c (run c (lastBlock c)) := rfl
    generalize after_def : step c (run c (lastBlock c)) = after at outcome stepped
    cases outcome with
    | unreadable unreadable point =>
      refine ⟨lastBlock c + 1, ?_⟩
      rw [stepped]
      exact ⟨by rw [point]; decide, .unreadable some unreadable point⟩
    | lost readable lost point readbytes out =>
      refine ⟨lastBlock c + 1, ?_⟩
      rw [stepped]
      exact ⟨by rw [point]; decide, .lost some readable lost.2 ⟨point, readbytes ▸ all⟩ out⟩
    | passed readable _ =>
      rcases next_last before last.2 with ended | exhausted
      · refine ⟨lastBlock c + 1, ?_⟩
        rw [stepped]
        exact ⟨by rw [ended]; decide, .all some readable ⟨ended, all⟩ rfl⟩
      · refine ⟨lastBlock c + 2, ?_⟩
        rw [run, stepped, exhausted_ends exhausted]
        exact ⟨ended_ne_running, .all some readable ⟨rfl, all⟩ rfl⟩

/-- The loop copies everything exactly when every block but the last passes and the last can be
    compared. -/
theorem atEnd_iff : (∃ n, AtEnd c (run c n)) ↔
    (∀ k, k * c.bufsiz < total c → ¬Unreadable c k) ∧
      ∀ k, (k + 1) * c.bufsiz < total c → ¬Lost c k (load c.memory (blockAt c k)) := by
  by_cases passes : ∀ j, (j + 1) * c.bufsiz < total c → Passes c j
  · have kept : ∀ k, (k + 1) * c.bufsiz < total c → ¬Lost c k (load c.memory (blockAt c k)) :=
      fun k more => (passes k more).2
    have readable : (∀ k, k * c.bufsiz < total c → ¬Unreadable c k) ↔
        (0 < total c → ¬Unreadable c (lastBlock c)) := by
      constructor
      · intro readable some
        exact readable _ (lastBlock_bounds some).1
      · intro readable k more
        by_cases last : (k + 1) * c.bufsiz < total c
        · exact (passes k last).1
        · have some : 0 < total c := by omega
          have isLast : k = lastBlock c :=
            Nat.le_antisymm ((le_lastBlock some).mpr more)
              (Nat.le_of_not_lt fun less => last ((lt_lastBlock some).mp less))
          rw [isLast]
          exact readable some
    obtain ⟨n, stopped, finish⟩ := run_finishes passes
    rw [readable]
    cases finish with
    | empty none ended _ => exact iff_of_true ⟨n, ended⟩ ⟨fun some => by omega, kept⟩
    | unreadable some unreadable point =>
      refine iff_of_false (fun atEnd => ?_) fun holds => holds.1 some unreadable
      rcases atEnd with ⟨m, ended⟩
      have same := run_stopped (by rw [ended.1]; decide) stopped
      rw [same, AtEnd, point] at ended
      cases ended.1
    | lost some readable _ ended _ => exact iff_of_true ⟨n, ended⟩ ⟨fun _ => readable, kept⟩
    | all some readable ended _ => exact iff_of_true ⟨n, ended⟩ ⟨fun _ => readable, kept⟩
  · have least : ∃ j, ((j + 1) * c.bufsiz < total c ∧ ¬Passes c j) := by
      push Not at passes
      exact passes
    classical
    have minimal := Nat.find_spec least
    have passesBefore : ∀ j < Nat.find least, Passes c j := by
      intro j less
      by_contra stops
      have multiples : (j + 1) * c.bufsiz ≤ (Nat.find least + 1) * c.bufsiz :=
        Nat.mul_le_mul_right _ (by omega)
      exact Nat.find_min least less ⟨by omega, stops⟩
    have early := stops_early minimal.1 passesBefore minimal.2
    apply iff_of_false
    · intro atEnd
      rcases atEnd with ⟨m, ended⟩
      have same := run_stopped (by rw [ended.1]; decide) early.1
      rw [same] at ended
      exact early.2 ended
    · intro holds
      rcases holds with ⟨readable, kept⟩
      have expand : (Nat.find least + 1) * c.bufsiz = Nat.find least * c.bufsiz + c.bufsiz :=
        Nat.succ_mul _ _
      have inside : Nat.find least * c.bufsiz < total c := by
        have more := minimal.1
        omega
      exact minimal.2 ⟨readable _ inside, kept _ minimal.1⟩

end runs

end Rawcopy
