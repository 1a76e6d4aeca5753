import Mathlib.Data.List.Basic
import Mathlib.Tactic.Ring

/-- The low `width` bytes of a number, lowest first. -/
def leBytes : Nat → Nat → List (BitVec 8)
  | 0, _ => []
  | width + 1, n => BitVec.ofNat 8 n :: leBytes width (n / 256)

def leNat : List (BitVec 8) → Nat
  | [] => 0
  | head :: tail => head.toNat + 256 * leNat tail

@[simp] theorem length_leBytes (width n : Nat) : (leBytes width n).length = width := by
  induction width generalizing n with
  | zero => rfl
  | succ width ih => simp [leBytes, ih]

theorem leNat_lt (bytes : List (BitVec 8)) : leNat bytes < 256 ^ bytes.length := by
  induction bytes with
  | nil => decide
  | cons head tail ih =>
    have bound := head.isLt
    simp only [leNat, List.length_cons, Nat.pow_succ]
    omega

theorem leNat_leBytes (width n : Nat) (bound : n < 256 ^ width) : leNat (leBytes width n) = n := by
  induction width generalizing n with
  | zero =>
    simp only [Nat.pow_zero] at bound
    have zero : n = 0 := by omega
    simp [leBytes, leNat, zero]
  | succ width ih =>
    have quotient : n / 256 < 256 ^ width := by
      rw [Nat.pow_succ] at bound
      exact Nat.div_lt_of_lt_mul (by rwa [Nat.mul_comm])
    simp only [leBytes, leNat, ih _ quotient, BitVec.toNat_ofNat]
    omega

theorem leNat_injective : ∀ {bytes bytes' : List (BitVec 8)}, bytes.length = bytes'.length →
    leNat bytes = leNat bytes' → bytes = bytes'
  | [], [], _, _ => rfl
  | head :: tail, head' :: tail', length, same => by
    have low := head.isLt
    have low' := head'.isLt
    simp only [leNat] at same
    have heads : head = head' := BitVec.eq_of_toNat_eq (by omega)
    have tails : leNat tail = leNat tail' := by omega
    rw [heads, leNat_injective (Nat.succ.inj length) tails]

theorem ofNat_leNat_take (width : Nat) {w : Nat} (size : 2 ^ w = 256 ^ width) (word : BitVec w)
    (rest : List (BitVec 8)) :
    BitVec.ofNat w (leNat ((leBytes width word.toNat ++ rest).take width)) = word := by
  rw [List.take_left' (length_leBytes width _), leNat_leBytes _ _ (size ▸ word.isLt),
    BitVec.ofNat_toNat, BitVec.setWidth_eq]
