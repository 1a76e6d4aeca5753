import Mathlib.Data.List.Basic

def xorAll {w : Nat} (words : List (BitVec w)) : BitVec w := words.foldr (· ^^^ ·) 0

section

variable {w : Nat}

@[simp] theorem xorAll_nil : xorAll ([] : List (BitVec w)) = 0 := rfl

@[simp] theorem xorAll_cons (head : BitVec w) (tail : List (BitVec w)) :
    xorAll (head :: tail) = head ^^^ xorAll tail := rfl

@[simp] theorem xorAll_append (front back : List (BitVec w)) :
    xorAll (front ++ back) = xorAll front ^^^ xorAll back := by
  induction front with
  | nil => exact BitVec.zero_xor.symm
  | cons head tail ih => rw [List.cons_append, xorAll_cons, xorAll_cons, ih, BitVec.xor_assoc]

theorem xorAll_zeros {words : List (BitVec w)} (zeros : ∀ word ∈ words, word = 0) :
    xorAll words = 0 := by
  induction words with
  | nil => rfl
  | cons head tail ih =>
    rw [xorAll_cons, zeros head List.mem_cons_self, ih fun word mem => zeros word (List.mem_cons_of_mem _ mem)]
    exact BitVec.xor_zero

/-- A word that is lost is restored by putting the exclusive or of all words in its place. -/
theorem xorAll_restored (before after : List (BitVec w)) (lost : BitVec w) :
    xorAll (before ++ xorAll (before ++ lost :: after) :: after) = lost := by
  simp only [xorAll_append, xorAll_cons]
  generalize xorAll before = x
  generalize xorAll after = y
  calc x ^^^ ((x ^^^ (lost ^^^ y)) ^^^ y)
      = (x ^^^ x) ^^^ lost ^^^ (y ^^^ y) := by ac_rfl
    _ = lost := by rw [BitVec.xor_self, BitVec.xor_self, BitVec.zero_xor, BitVec.xor_zero]

theorem xorAll_dropLast {words : List (BitVec w)} (nonempty : words ≠ []) :
    xorAll words.dropLast = xorAll words ^^^ words.getLast nonempty := by
  have split : xorAll words = xorAll words.dropLast ^^^ words.getLast nonempty := by
    conv_lhs => rw [← List.dropLast_append_getLast nonempty]
    rw [xorAll_append, xorAll_cons, xorAll_nil]
    exact congrArg _ BitVec.xor_zero
  rw [split, BitVec.xor_assoc, BitVec.xor_self, BitVec.xor_zero]

theorem xor_eq_self_iff {x y : BitVec w} : x ^^^ y = x ↔ y = 0 := by
  constructor
  · intro same
    have cancelled : x ^^^ (x ^^^ y) = x ^^^ x := congrArg _ same
    rwa [← BitVec.xor_assoc, BitVec.xor_self, BitVec.zero_xor] at cancelled
  · rintro rfl
    exact BitVec.xor_zero

end
