import LtrData.Rawcopy.Blocks

namespace Rawcopy

def plain (c : Config) : Config := { c with bCreateSparse := false, bDifferential := false }

/-- The options change neither whether the loop gets to the end of the input nor what is in the
    output file then. -/
def SameAsPlain (c : Config) : Prop :=
  ((∃ n, AtEnd c (run c n)) ↔ ∃ n, AtEnd c (run (plain c) n)) ∧
    ∀ m n, AtEnd c (run c m) → AtEnd c (run (plain c) n) → (run c m).out = (run (plain c) n).out

section plain

variable {c : Config}

theorem plain_readable (k : Nat) : ¬Unreadable (plain c) k := by
  intro unreadable
  cases unreadable.1

/-- Without failing writes, what the loop leaves depends on the blocks only. -/
theorem atEnd_out (writable : ∀ i, c.writeFails i = false) {n : Nat} (ended : AtEnd c (run c n)) :
    (run c n).out =
      if total c = 0 then c.existing else copied c (blockEnd c (lastBlock c)) := by
  have stopped : (run c n).point ≠ .running := by
    rw [ended.1]
    exact ended_ne_running
  have passes : ∀ j, (j + 1) * c.bufsiz < total c → Passes c j := by
    intro j more
    have expand : (j + 1) * c.bufsiz = j * c.bufsiz + c.bufsiz := Nat.succ_mul j c.bufsiz
    have holds := atEnd_iff.mp ⟨n, ended⟩
    exact ⟨holds.1 j (by omega), holds.2 j more⟩
  obtain ⟨m, last, finish⟩ := run_finishes passes
  rw [run_stopped stopped last]
  cases finish with
  | empty none _ out => rw [if_pos none, out]
  | unreadable some unreadable _ =>
    have readable := (atEnd_iff.mp ⟨n, ended⟩).1 _ (lastBlock_bounds some).1
    exact absurd unreadable readable
  | lost _ _ fails _ _ =>
    rw [writable] at fails
    cases fails
  | all some _ _ out => rw [if_neg (by omega), out]

theorem blockEnd_readable (readable : ∀ i, c.readFails i = false) {k : Nat}
    (more : k * c.bufsiz < total c) : blockEnd c k = min ((k + 1) * c.bufsiz) (total c) := by
  have expand : (k + 1) * c.bufsiz = k * c.bufsiz + c.bufsiz := Nat.succ_mul k c.bufsiz
  have positive := c.bufsiz_pos
  have success : ¬c.readFails (c.skipforward + k * c.bufsiz) = true := by
    rw [readable]
    decide
  unfold blockEnd blockAt total at *
  simp only [if_neg success, List.length_take, List.length_drop]
  by_cases unlimited : c.copylength = 0
  · rw [if_pos unlimited] at *
    rw [if_neg (show ¬(c.copylength ≠ 0 ∧ _) from fun limited => limited.1 unlimited)]
    omega
  · rw [if_neg unlimited] at *
    split <;> omega

end plain

def twoBytes (sizWriteOffset : Nat) : Config where
  input := [1, 2]
  skipforward := 0
  copylength := 0
  bufsiz := 2
  bufsiz_pos := by decide
  bufsiz_dword := by decide
  bCreateSparse := true
  bDifferential := true
  memory _ := 0
  existing := {
    size := 2
    byte i := if i = 0 then 1 else 0
    behind i outside := if_neg (by omega) }
  current_out_pointer := 0
  sizWriteOffset
  readFails _ := false
  writeFails _ := false

end Rawcopy
