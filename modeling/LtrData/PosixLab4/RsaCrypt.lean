import Mathlib.Data.Nat.ModEq
import Mathlib.Algebra.Order.Ring.Nat
import Mathlib.Algebra.Group.Basic

namespace PosixLab4

abbrev int := BitVec 32

/-- The loop of `rsacrypt`. `ST` is an unsigned long long, which `BC` is converted to. -/
def powered (BC : int) : Nat → BitVec 64 → BitVec 64
  | 0, ST => ST
  | ED + 1, ST => powered BC ED (ST * BC.signExtend 64)

/-- The same in the server and in the client. -/
def rsacrypt (BC ED N : int) : int := (powered BC ED.toNat 1 % N.signExtend 64).setWidth 32

/-- `randnr` and `cryptnr` when the loop ends, from what rand returns call after call. -/
def challenge (E N : int) : List Nat → Option (int × int)
  | [] => none
  | rand :: rands =>
    let randnr := BitVec.ofNat 32 (rand % 12)
    let cryptnr := rsacrypt randnr E N
    if randnr = cryptnr then challenge E N rands else some (randnr, cryptnr)

/-- Whether the server goes past "Access was denied", when it gets as far as the challenge. -/
def handshake (E N : int) (rands : List Nat) (answer : int → int) : Option Bool :=
  (challenge E N rands).map fun drawn => decide (answer drawn.2 = drawn.1)

structure KeyPair where
  E : int
  D : int
  N : int
  nonneg_E : 0 ≤ E.toInt
  nonneg_D : 0 ≤ D.toInt
  large : 12 ≤ N.toInt
  inverse : ∀ x : Nat, x ^ (E.toNat * D.toNat) % N.toNat = x % N.toNat

/-- The number a call should return. -/
def Right (BC ED N : int) : Prop := (rsacrypt BC ED N).toInt = BC.toInt ^ ED.toNat % N.toInt

instance (BC ED N : int) : Decidable (Right BC ED N) := inferInstanceAs (Decidable (_ = _))

/-- What the power has above its low 64 bits is a multiple of the modulus. -/
def NoLoss (BC ED N : Nat) : Prop := N ∣ 2 ^ 64 * (BC ^ ED / 2 ^ 64)

instance (BC ED N : Nat) : Decidable (NoLoss BC ED N) := inferInstanceAs (Decidable (_ ∣ _))

theorem noLoss_iff {BC ED N : Nat} : NoLoss BC ED N ↔ BC ^ ED % 2 ^ 64 % N = BC ^ ED % N := by
  have split := Nat.div_add_mod (BC ^ ED) (2 ^ 64)
  have le : BC ^ ED % 2 ^ 64 ≤ BC ^ ED := Nat.mod_le _ _
  have high : 2 ^ 64 * (BC ^ ED / 2 ^ 64) = BC ^ ED - BC ^ ED % 2 ^ 64 := by omega
  rw [NoLoss, high]
  exact (Nat.modEq_iff_dvd' le).symm

theorem noLoss_of_lt {BC ED N : Nat} (fits : BC ^ ED < 2 ^ 64) : NoLoss BC ED N := by
  rw [NoLoss, Nat.div_eq_of_lt fits]
  exact Nat.dvd_zero N

theorem toInt_of_nonneg {x : int} (nonneg : 0 ≤ x.toInt) : x.toInt = x.toNat ∧ x.toNat < 2 ^ 31 := by
  have bound := x.isLt
  rw [BitVec.toInt] at nonneg ⊢
  split <;> omega

theorem toNat_signExtend {x : int} (nonneg : 0 ≤ x.toInt) : (x.signExtend 64).toNat = x.toNat := by
  have small := (toInt_of_nonneg nonneg).2
  have positive : x.msb = false := by
    rw [BitVec.msb_eq_false_iff_two_mul_lt]
    omega
  rw [BitVec.signExtend_eq_setWidth_of_msb_false positive, BitVec.toNat_setWidth]
  omega

theorem toNat_powered {BC : int} (nonneg : 0 ≤ BC.toInt) (ED : Nat) (ST : BitVec 64) :
    (powered BC ED ST).toNat = ST.toNat * BC.toNat ^ ED % 2 ^ 64 := by
  induction ED generalizing ST with
  | zero =>
    rw [powered, Nat.pow_zero, Nat.mul_one]
    exact (Nat.mod_eq_of_lt ST.isLt).symm
  | succ ED ih =>
    rw [powered, ih, BitVec.toNat_mul, toNat_signExtend nonneg, Nat.mod_mul_mod, Nat.mul_assoc,
      ← pow_succ']

/-- The power is cut to 64 bits before the modulus is taken. -/
theorem toInt_rsacrypt {BC N : int} (ED : int) (nonneg : 0 ≤ BC.toInt) (positive : 0 < N.toInt) :
    (rsacrypt BC ED N).toInt = (BC.toNat ^ ED.toNat % 2 ^ 64 % N.toNat : Nat) := by
  have ⟨signed, small⟩ := toInt_of_nonneg (Int.le_of_lt positive)
  have below : BC.toNat ^ ED.toNat % 2 ^ 64 % N.toNat < N.toNat := Nat.mod_lt _ (by omega)
  have value : (rsacrypt BC ED N).toNat = BC.toNat ^ ED.toNat % 2 ^ 64 % N.toNat := by
    rw [rsacrypt, BitVec.toNat_setWidth, BitVec.toNat_umod, toNat_powered nonneg,
      toNat_signExtend (Int.le_of_lt positive)]
    simp only [BitVec.ofNat_eq_ofNat, BitVec.toNat_ofNat]
    rw [Nat.mod_eq_of_lt (a := 1) (by decide), Nat.one_mul]
    exact Nat.mod_eq_of_lt (by omega)
  rw [BitVec.toInt, value, if_pos (by omega)]

theorem right_iff {BC ED N : int} (nonneg : 0 ≤ BC.toInt) (positive : 0 < N.toInt) :
    Right BC ED N ↔ NoLoss BC.toNat ED.toNat N.toNat := by
  rw [Right, toInt_rsacrypt ED nonneg positive, noLoss_iff, (toInt_of_nonneg nonneg).1,
    (toInt_of_nonneg (Int.le_of_lt positive)).1]
  norm_cast

theorem Right.toNat {BC ED N : int} (nonneg : 0 ≤ BC.toInt) (positive : 0 < N.toInt)
    (right : Right BC ED N) : (rsacrypt BC ED N).toNat = BC.toNat ^ ED.toNat % N.toNat ∧
      0 ≤ (rsacrypt BC ED N).toInt := by
  have value := toInt_rsacrypt ED nonneg positive
  have kept := noLoss_iff.mp ((right_iff nonneg positive).mp right)
  have nonneg_result : 0 ≤ (rsacrypt BC ED N).toInt := by omega
  have signed := (toInt_of_nonneg nonneg_result).1
  omega

theorem challenge_spec {E N randnr cryptnr : int} {rands : List Nat}
    (drawn : challenge E N rands = some (randnr, cryptnr)) :
    randnr.toNat < 12 ∧ cryptnr = rsacrypt randnr E N := by
  induction rands with
  | nil => cases drawn
  | cons rand rands ih =>
    rw [challenge] at drawn
    split at drawn
    · exact ih drawn
    · cases drawn
      refine ⟨?_, rfl⟩
      rw [BitVec.toNat_ofNat]
      have below : rand % 12 < 12 := Nat.mod_lt _ (by decide)
      omega

/-- Decryption undoes encryption, as numbers. -/
theorem KeyPair.decrypts (keys : KeyPair) {x : Nat} (below : x < 12) :
    (x ^ keys.E.toNat % keys.N.toNat) ^ keys.D.toNat % keys.N.toNat = x := by
  have large := keys.large
  have signed := (toInt_of_nonneg (show 0 ≤ keys.N.toInt by omega)).1
  rw [← Nat.pow_mod, ← Nat.pow_mul, keys.inverse]
  exact Nat.mod_eq_of_lt (by omega)

section Handshake

variable (keys : KeyPair) {rands : List Nat} {randnr cryptnr : int}

theorem KeyPair.positive : 0 < keys.N.toInt := by
  have large := keys.large
  omega

theorem handshake_of_drawn (drawn : challenge keys.E keys.N rands = some (randnr, cryptnr)) :
    handshake keys.E keys.N rands (rsacrypt · keys.D keys.N) = some true ↔
      rsacrypt cryptnr keys.D keys.N = randnr := by
  simp [handshake, drawn]

theorem challenge_nonneg (drawn : challenge keys.E keys.N rands = some (randnr, cryptnr)) :
    0 ≤ randnr.toInt := by
  have below := (challenge_spec drawn).1
  rw [BitVec.toInt, if_pos (by omega)]
  omega

theorem accepted_iff_cut (drawn : challenge keys.E keys.N rands = some (randnr, cryptnr)) :
    handshake keys.E keys.N rands (rsacrypt · keys.D keys.N) = some true ↔
      (randnr.toNat ^ keys.E.toNat % 2 ^ 64 % keys.N.toNat) ^ keys.D.toNat % 2 ^ 64 % keys.N.toNat =
        randnr.toNat := by
  have nonneg := challenge_nonneg keys drawn
  have cipher := toInt_rsacrypt keys.E nonneg keys.positive
  rw [← (challenge_spec drawn).2] at cipher
  have nonneg_cipher : 0 ≤ cryptnr.toInt := by omega
  have same := (toInt_of_nonneg nonneg_cipher).1
  have clear := toInt_rsacrypt keys.D nonneg_cipher keys.positive
  have value : cryptnr.toNat = randnr.toNat ^ keys.E.toNat % 2 ^ 64 % keys.N.toNat := by omega
  rw [value] at clear
  rw [handshake_of_drawn keys drawn, ← BitVec.toInt_inj, clear, (toInt_of_nonneg nonneg).1]
  norm_cast

/-- A challenge that is the encrypted number is answered with that number exactly when the
    power the client takes loses nothing either. -/
theorem accepted_iff (drawn : challenge keys.E keys.N rands = some (randnr, cryptnr)) :
    (Right randnr keys.E keys.N ∧
        handshake keys.E keys.N rands (rsacrypt · keys.D keys.N) = some true) ↔
      NoLoss randnr.toNat keys.E.toNat keys.N.toNat ∧
        NoLoss (randnr.toNat ^ keys.E.toNat % keys.N.toNat) keys.D.toNat keys.N.toNat := by
  rw [right_iff (challenge_nonneg keys drawn) keys.positive]
  apply and_congr_right
  intro kept
  rw [accepted_iff_cut keys drawn, noLoss_iff.mp kept, noLoss_iff,
    keys.decrypts (challenge_spec drawn).1]

end Handshake

theorem pow_mod_of_period {n e : Nat} (period : ∀ x < n, x ^ e % n = x % n) (positive : 0 < n)
    (x : Nat) : x ^ e % n = x % n := by
  rw [Nat.pow_mod, period _ (Nat.mod_lt x positive), Nat.mod_mod]

/-- The key pair of the primes 3 and 11, small enough for every challenge. -/
def keys33 : KeyPair where
  E := 3
  D := 7
  N := 33
  nonneg_E := by decide
  nonneg_D := by decide
  large := by decide
  inverse := pow_mod_of_period (by decide +kernel) (by decide)

/-- The key pair of the primes 7 and 11. -/
def keys77 : KeyPair where
  E := 7
  D := 43
  N := 77
  nonneg_E := by decide
  nonneg_D := by decide
  large := by decide
  inverse := pow_mod_of_period (by decide +kernel) (by decide)

end PosixLab4
