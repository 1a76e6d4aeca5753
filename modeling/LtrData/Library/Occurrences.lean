import Mathlib.Data.List.Basic

namespace Occurrences

variable {α : Type} [DecidableEq α]

/-- The offset of the first occurrence of a text. -/
def firstAt (needle : List α) : List α → Option Nat
  | [] => if needle = [] then some 0 else none
  | x :: rest => if needle <+: x :: rest then some 0 else (firstAt needle rest).map (· + 1)

/-- The replacements from a place on, where the next `skip` elements belong to an occurrence. -/
def replaceFrom (needle replacement : List α) : Nat → List α → List α
  | _, [] => []
  | skip + 1, _ :: rest => replaceFrom needle replacement skip rest
  | 0, x :: rest =>
    if needle <+: x :: rest then replacement ++ replaceFrom needle replacement (needle.length - 1) rest
    else x :: replaceFrom needle replacement 0 rest

def replaceAll (needle replacement s : List α) : List α := replaceFrom needle replacement 0 s

theorem firstAt_some {needle s : List α} {i : Nat} (found : firstAt needle s = some i) :
    needle <+: s.drop i := by
  induction s generalizing i with
  | nil =>
    rw [firstAt] at found
    split at found
    · next empty =>
      rw [empty]
      exact List.nil_prefix
    · cases found
  | cons x rest ih =>
    rw [firstAt] at found
    split at found
    · next here =>
      obtain rfl := Option.some.inj found
      exact here
    · obtain ⟨j, later, rfl⟩ := Option.map_eq_some_iff.mp found
      exact ih later

theorem firstAt_eq_none {needle s : List α} : firstAt needle s = none ↔ ¬ needle <:+: s := by
  induction s with
  | nil => simp [firstAt]
  | cons x rest ih =>
    rw [firstAt, List.infix_cons_iff]
    split
    · next here => simp [here]
    · next elsewhere => simp [elsewhere, ih]

theorem firstAt_short {needle s : List α} (short : s.length < needle.length) :
    firstAt needle s = none := by
  rw [firstAt_eq_none]
  intro occurs
  have le := occurs.length_le
  omega

omit [DecidableEq α] in
theorem le_of_found {needle s : List α} {p : Nat} (some_ : needle ≠ []) (found : needle <+: s.drop p) :
    p + needle.length ≤ s.length := by
  have positive : 0 < needle.length := List.length_pos_iff.mpr some_
  have length := found.length_le
  rw [List.length_drop] at length
  omega

theorem firstAt_inside {needle s : List α} (some_ : needle ≠ []) {i : Nat}
    (found : firstAt needle s = some i) : i + needle.length ≤ s.length :=
  le_of_found some_ (firstAt_some found)

theorem replaceFrom_skip (needle replacement : List α) (skip : Nat) (s : List α) :
    replaceFrom needle replacement skip s = replaceAll needle replacement (s.drop skip) := by
  induction skip generalizing s with
  | zero => rfl
  | succ skip ih =>
    cases s with
    | nil => rfl
    | cons x rest =>
      rw [replaceFrom, ih]
      rfl

theorem replaceAll_none {needle replacement s : List α} (none_ : firstAt needle s = none) :
    replaceAll needle replacement s = s := by
  induction s with
  | nil => rfl
  | cons x rest ih =>
    rw [firstAt] at none_
    split at none_
    · cases none_
    · next elsewhere =>
      have later := ih (Option.map_eq_none_iff.mp none_)
      rw [replaceAll, replaceFrom, if_neg elsewhere]
      exact congrArg (x :: ·) later

theorem replaceAll_some {needle replacement s : List α} {i : Nat} (some_ : needle ≠ [])
    (found : firstAt needle s = some i) :
    replaceAll needle replacement s =
      s.take i ++ replacement ++ replaceAll needle replacement (s.drop (i + needle.length)) := by
  induction s generalizing i with
  | nil =>
    rw [firstAt, if_neg some_] at found
    cases found
  | cons x rest ih =>
    have positive : 0 < needle.length := List.length_pos_iff.mpr some_
    rw [firstAt] at found
    split at found
    · next here =>
      obtain rfl := Option.some.inj found
      rw [replaceAll, replaceFrom, if_pos here, replaceFrom_skip,
        show 0 + needle.length = needle.length - 1 + 1 by omega]
      rfl
    · next elsewhere =>
      obtain ⟨j, later, rfl⟩ := Option.map_eq_some_iff.mp found
      rw [replaceAll, replaceFrom, if_neg elsewhere,
        show j + 1 + needle.length = j + needle.length + 1 by omega]
      exact congrArg (x :: ·) (ih later)

end Occurrences
