import LtrData.Rawcopy.Blocks

namespace Rawcopy

/-- Byte `i` of the copy, with zeros for a block that cannot be read. -/
def sourceByte (c : Config) (i : Nat) : BYTE :=
  if c.readFails (c.skipforward + i / c.bufsiz * c.bufsiz) then 0
  else c.input.getD (c.skipforward + i) 0

/-- The loop gets to the end of the input, and every block that can be written is at its own offset
    in the output file. -/
def GetsPastErrors (c : Config) : Prop :=
  ∃ n, AtEnd c (run c n) ∧ ∀ i < total c,
    c.writeFails (outBase c + i / c.bufsiz * c.bufsiz) = false →
      (run c n).out.byte (outBase c + i) = sourceByte c i

section contents

variable {c : Config} {k i : Nat}

theorem block_more (inside : i < total c) : i / c.bufsiz * c.bufsiz < total c := by
  have lower : i / c.bufsiz * c.bufsiz ≤ i := Nat.div_mul_le_self i c.bufsiz
  omega

theorem within_block (inside : i < total c) : i % c.bufsiz < (blockAt c (i / c.bufsiz)).length := by
  have bounds := blockAt_length (block_more inside)
  have position : i / c.bufsiz * c.bufsiz + i % c.bufsiz = i := Nat.div_add_mod' i c.bufsiz
  have remainder : i % c.bufsiz < c.bufsiz := Nat.mod_lt i c.bufsiz_pos
  unfold blockLength at bounds
  omega

theorem content_source (inside : i < total c) : content c i = sourceByte c i := by
  have bound := within_block inside
  have position : i / c.bufsiz * c.bufsiz + i % c.bufsiz = i := Nat.div_add_mod' i c.bufsiz
  unfold content sourceByte
  unfold blockAt at *
  by_cases fails : c.readFails (c.skipforward + i / c.bufsiz * c.bufsiz) = true
  · simp only [if_pos fails] at *
    rw [List.getD_eq_getElem _ _ bound, List.getElem_replicate]
  · simp only [if_neg fails] at *
    rw [List.getD_eq_getElem _ _ bound, List.getElem_take, List.getElem_drop]
    simp only [List.length_take, List.length_drop] at bound
    rw [List.getD_eq_getElem _ _ (by omega)]
    congr 1
    omega

theorem copied_source {n : Nat} (inside : i < total c) (before : i < n) :
    (copied c n).byte (outBase c + i) = sourceByte c i := by
  rw [copied_byte, if_pos (by omega), Nat.add_sub_cancel_left, content_source inside]

theorem finish_stored {after : State} (finish : Finish c after) (inside : i < total c)
    (ended : AtEnd c after) (written : c.writeFails (outBase c + i / c.bufsiz * c.bufsiz) = false) :
    after.out.byte (outBase c + i) = sourceByte c i := by
  have position : i / c.bufsiz * c.bufsiz + i % c.bufsiz = i := Nat.div_add_mod' i c.bufsiz
  have remainder : i % c.bufsiz < c.bufsiz := Nat.mod_lt i c.bufsiz_pos
  cases finish with
  | empty none _ _ => omega
  | unreadable _ _ point =>
    rw [AtEnd, point] at ended
    cases ended.1
  | lost some _ fails _ out =>
    have last := (le_lastBlock some).mpr (block_more inside)
    have other : i / c.bufsiz ≠ lastBlock c := by
      intro same
      rw [same, fails] at written
      cases written
    have before : (i / c.bufsiz + 1) * c.bufsiz ≤ lastBlock c * c.bufsiz :=
      Nat.mul_le_mul_right _ (by omega)
    have expand : (i / c.bufsiz + 1) * c.bufsiz = i / c.bufsiz * c.bufsiz + c.bufsiz :=
      Nat.succ_mul _ _
    rw [out, copied_source inside (by omega)]
  | all some _ _ out =>
    have last := lastBlock_bounds some
    have all := total_le_blockEnd last.1 last.2
    rw [out, copied_source inside (by omega)]

end contents

/-- The loop gets past the errors exactly when no write of a block but the last fails, and no block
    has to be compared with bytes behind the end of the output file. -/
theorem getsPastErrors_iff (c : Config) : GetsPastErrors c ↔
    (∀ k, k * c.bufsiz < total c → ¬Unreadable c k) ∧
      ∀ k, (k + 1) * c.bufsiz < total c → ¬Lost c k (load c.memory (blockAt c k)) := by
  rw [← atEnd_iff]
  constructor
  · intro gets
    rcases gets with ⟨n, ended, _⟩
    exact ⟨n, ended⟩
  · intro ends
    rcases ends with ⟨n, ended⟩
    have holds := atEnd_iff.mp ⟨n, ended⟩
    have passes : ∀ j, (j + 1) * c.bufsiz < total c → Passes c j := by
      intro j more
      have expand : (j + 1) * c.bufsiz = j * c.bufsiz + c.bufsiz := Nat.succ_mul j c.bufsiz
      exact ⟨holds.1 j (by omega), holds.2 j more⟩
    obtain ⟨m, stopped, finish⟩ := run_finishes passes
    have same := run_stopped (by rw [ended.1]; decide) stopped
    refine ⟨n, ended, fun i inside written => ?_⟩
    rw [same] at ended ⊢
    exact finish_stored finish inside ended written

def firstWriteFails : Config where
  input := [1, 2]
  skipforward := 0
  copylength := 0
  bufsiz := 1
  bufsiz_pos := by decide
  bufsiz_dword := by decide
  bCreateSparse := false
  bDifferential := false
  memory _ := 0
  existing := {
    size := 0
    byte _ := 0
    behind _ _ := rfl }
  current_out_pointer := 0
  sizWriteOffset := 0
  readFails _ := false
  writeFails i := i = 0

/-- The second block is never read. -/
theorem first_write_ends : ¬GetsPastErrors firstWriteFails := by
  intro gets
  rcases gets with ⟨n, ended, _⟩
  have stopped := run_stopped (c := firstWriteFails) (m := n) (n := 1) (by rw [ended.1]; decide)
    (by decide)
  rw [AtEnd, stopped] at ended
  have short := ended.2
  revert short
  decide

end Rawcopy
