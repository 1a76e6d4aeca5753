import LtrData.Library.Occurrences
import Mathlib.Data.Nat.Find

/-! Replacements of a text by one of the same length, one after the other in the text itself. -/

namespace Occurrences

variable {α : Type}

/-- The positions of the occurrences that are replaced in a text that starts at `pos`, where the next
    `skip` elements belong to an occurrence. -/
def occurrencesFrom [DecidableEq α] (needle : List α) : Nat → Nat → List α → List Nat
  | _, _, [] => []
  | skip + 1, pos, _ :: rest => occurrencesFrom needle skip (pos + 1) rest
  | 0, pos, x :: rest =>
    if needle <+: x :: rest then pos :: occurrencesFrom needle (needle.length - 1) (pos + 1) rest
    else occurrencesFrom needle 0 (pos + 1) rest

/-- The positions of the leftmost occurrences that do not overlap. -/
def occurrences [DecidableEq α] (needle s : List α) : List Nat := occurrencesFrom needle 0 0 s

def overwrite (s : List α) (p : Nat) (replacement : List α) : List α :=
  s.take p ++ (replacement ++ s.drop (p + replacement.length))

/-- One text is made from another by replacing the needle at positions from `bound` on, in this
    order. -/
inductive Replaced (needle replacement : List α) : Nat → List Nat → List α → List α → Prop
  | done {bound : Nat} {s : List α} : Replaced needle replacement bound [] s s
  | here {bound p : Nat} {positions : List Nat} {s s' : List α} (later : bound ≤ p)
    (found : needle <+: s.drop p)
    (rest : Replaced needle replacement (p + 1) positions (overwrite s p replacement) s') :
    Replaced needle replacement bound (p :: positions) s s'

variable {needle replacement s s' : List α} {bound p i d skip pos : Nat} {positions : List Nat}

section occurrencesFrom

variable [DecidableEq α]

theorem occurrencesFrom_skip (needle : List α) (skip pos : Nat) (s : List α) :
    occurrencesFrom needle skip pos s = occurrencesFrom needle 0 (pos + skip) (s.drop skip) := by
  induction skip generalizing pos s with
  | zero => rfl
  | succ skip ih =>
    cases s with
    | nil => rfl
    | cons x rest =>
      rw [occurrencesFrom, ih, List.drop_succ_cons, show pos + 1 + skip = pos + (skip + 1) by omega]

theorem occurrencesFrom_here (some_ : needle ≠ []) (here : needle <+: s) (pos : Nat) :
    occurrencesFrom needle 0 pos s =
      pos :: occurrencesFrom needle 0 (pos + needle.length) (s.drop needle.length) := by
  have positive : 0 < needle.length := List.length_pos_iff.mpr some_
  cases s with
  | nil => exact absurd (List.prefix_nil.mp here) some_
  | cons x rest =>
    obtain ⟨length, same⟩ := Nat.exists_eq_add_one_of_ne_zero (Nat.pos_iff_ne_zero.mp positive)
    rw [occurrencesFrom, if_pos here, occurrencesFrom_skip, same, Nat.add_sub_cancel,
      List.drop_succ_cons, show pos + 1 + length = pos + (length + 1) by omega]

theorem occurrencesFrom_absent (inside : pos < s.length) (absent : ¬ needle <+: s.drop pos) :
    occurrencesFrom needle 0 pos (s.drop pos) =
      occurrencesFrom needle 0 (pos + 1) (s.drop (pos + 1)) := by
  rw [← List.drop_drop]
  cases start : s.drop pos with
  | nil =>
    rw [List.drop_eq_nil_iff] at start
    omega
  | cons x more =>
    rw [occurrencesFrom, if_neg (start ▸ absent)]
    rfl

theorem le_of_mem_occurrencesFrom (mem : p ∈ occurrencesFrom needle skip pos s) :
    pos + skip ≤ p := by
  induction s generalizing skip pos with
  | nil => exact absurd mem List.not_mem_nil
  | cons x rest ih =>
    cases skip with
    | zero =>
      rw [occurrencesFrom] at mem
      split at mem
      · rcases List.mem_cons.mp mem with rfl | mem
        · exact Nat.le_refl _
        · have later := ih mem
          omega
      · have later := ih mem
        omega
    | succ skip =>
      have later := ih (show p ∈ occurrencesFrom needle skip (pos + 1) rest from mem)
      omega

end occurrencesFrom

section overwrite

theorem drop_overwrite (inside : p ≤ s.length) (d : Nat) (replacement : List α) :
    (overwrite s p replacement).drop (p + d) =
      (replacement ++ s.drop (p + replacement.length)).drop d := by
  rw [overwrite, ← List.drop_drop, List.drop_left' (List.length_take_of_le inside)]

theorem take_overwrite (inside : p ≤ s.length) (replacement : List α) :
    (overwrite s p replacement).take (p + replacement.length) = s.take p ++ replacement := by
  have length : (s.take p ++ replacement).length = p + replacement.length := by
    rw [List.length_append, List.length_take_of_le inside]
  rw [overwrite, ← List.append_assoc, List.take_left' length]

theorem length_overwrite (inside : p + replacement.length ≤ s.length) :
    (overwrite s p replacement).length = s.length := by
  rw [overwrite, List.length_append, List.length_append, List.length_take_of_le (by omega),
    List.length_drop]
  omega

theorem getElem?_overwrite (inside : p ≤ s.length) (within : d < replacement.length) :
    (overwrite s p replacement)[p + d]? = replacement[d]? := by
  rw [overwrite, List.getElem?_append_right (by rw [List.length_take_of_le inside]; omega),
    List.length_take_of_le inside, Nat.add_sub_cancel_left, List.getElem?_append_left within]

theorem getElem?_overwrite_before (inside : p ≤ s.length) (before : i < p) :
    (overwrite s p replacement)[i]? = s[i]? := by
  rw [overwrite, List.getElem?_append_left (by rw [List.length_take_of_le inside]; omega),
    List.getElem?_take_of_lt before]

theorem getElem?_overwrite_behind (inside : p ≤ s.length) (behind : p + replacement.length ≤ i) :
    (overwrite s p replacement)[i]? = s[i]? := by
  obtain ⟨d, rfl⟩ := Nat.exists_eq_add_of_le behind
  have all : (overwrite s p replacement).drop p =
      replacement ++ s.drop (p + replacement.length) := drop_overwrite inside 0 replacement
  rw [Nat.add_assoc, ← List.getElem?_drop, all, List.getElem?_append_right (Nat.le_add_right _ _),
    List.getElem?_drop, Nat.add_sub_cancel_left, Nat.add_assoc]

theorem overwrite_self (found : needle <+: s.drop p) : overwrite s p needle = s := by
  obtain ⟨rest, same⟩ := found
  have behind : s.drop (p + needle.length) = rest := by
    rw [← List.drop_drop, ← same, List.drop_left]
  rw [overwrite, behind, same, List.take_append_drop]

end overwrite

section Replaced

theorem Replaced.weaken {lower : Nat} (replaced : Replaced needle replacement bound positions s s')
    (le : lower ≤ bound) : Replaced needle replacement lower positions s s' := by
  cases replaced with
  | done => exact .done
  | here later found rest => exact .here (Nat.le_trans le later) found rest

/-- Replacing all occurrences is replacing them one after the other. -/
theorem replaced_replaceAll [DecidableEq α] (some_ : needle ≠ []) (same : replacement.length = needle.length)
    (inside : pos ≤ s.length) :
    Replaced needle replacement pos (occurrencesFrom needle 0 pos (s.drop pos)) s
      (s.take pos ++ replaceAll needle replacement (s.drop pos)) := by
  generalize left : s.length - pos = n
  induction n using Nat.strongRecOn generalizing s pos with
  | ind n ih =>
    cases rest : s.drop pos with
    | nil =>
      have whole : s.take pos = s := List.take_of_length_le (List.drop_eq_nil_iff.mp rest)
      rw [whole]
      show Replaced needle replacement pos [] s (s ++ [])
      rw [List.append_nil]
      exact .done
    | cons x more =>
      have below : pos < s.length := by
        by_contra behind
        rw [List.drop_of_length_le (Nat.not_lt.mp behind)] at rest
        cases rest
      rw [← rest]
      by_cases here : needle <+: s.drop pos
      · have room := le_of_found some_ here
        have positive : 0 < needle.length := List.length_pos_iff.mpr some_
        have length : (overwrite s pos replacement).length = s.length :=
          length_overwrite (by rw [same]; exact room)
        have behind : (overwrite s pos replacement).drop (pos + needle.length) =
            s.drop (pos + needle.length) := by
          rw [drop_overwrite inside, ← same, List.drop_left]
        have front : (overwrite s pos replacement).take (pos + needle.length) =
            s.take pos ++ replacement := by rw [← same, take_overwrite inside]
        have all : replaceAll needle replacement (s.drop pos) =
            replacement ++ replaceAll needle replacement (s.drop (pos + needle.length)) := by
          have first : firstAt needle (s.drop pos) = some 0 := by
            rw [rest, firstAt, if_pos (rest ▸ here)]
          rw [replaceAll_some some_ first, List.take_zero, List.nil_append, Nat.zero_add,
            List.drop_drop]
        have room' : pos + needle.length ≤ (overwrite s pos replacement).length := by omega
        have later := ih (s.length - (pos + needle.length)) (by omega) room' (by rw [length])
        rw [behind, front, List.append_assoc] at later
        rw [occurrencesFrom_here some_ here, List.drop_drop, all]
        exact .here (Nat.le_refl _) here (later.weaken (by omega))
      · have later := ih (s.length - (pos + 1)) (by omega) (show pos + 1 ≤ s.length from below) rfl
        have drop : s.drop (pos + 1) = more := by
          rw [← List.drop_drop, rest]
          rfl
        have elsewhere : ¬ needle <+: x :: more := rest ▸ here
        have kept : s.take pos ++ replaceAll needle replacement (s.drop pos) =
            s.take (pos + 1) ++ replaceAll needle replacement (s.drop (pos + 1)) := by
          have element : s.take (pos + 1) = s.take pos ++ [x] := by
            rw [List.take_add, rest]
            rfl
          rw [rest, drop, element, List.append_assoc, replaceAll, replaceFrom, if_neg elsewhere]
          rfl
        rw [occurrencesFrom_absent below here, kept]
        exact later.weaken (Nat.le_succ pos)

/-- Up to where needle and replacement differ, later replacements change nothing. -/
theorem Replaced.keeps {k : Nat} (replaced : Replaced needle replacement bound positions s s')
    (some_ : needle ≠ []) (same : replacement.length = needle.length)
    (agree : ∀ d < k, replacement[d]? = needle[d]?) (before : i < bound + k) : s'[i]? = s[i]? := by
  induction replaced with
  | done => rfl
  | @here bound p positions s s' later found rest ih =>
    have room := le_of_found some_ found
    rw [ih (by omega)]
    by_cases front : i < p
    · exact getElem?_overwrite_before (by omega) front
    · obtain ⟨d, rfl⟩ := Nat.exists_eq_add_of_le (Nat.not_lt.mp front)
      by_cases within : d < replacement.length
      · rw [getElem?_overwrite (by omega) within, agree d (by omega)]
        obtain ⟨behind, split⟩ := found
        rw [← List.getElem?_drop, ← split, List.getElem?_append_left (by omega)]
      · exact getElem?_overwrite_behind (by omega) (by omega)

/-- The first place where needle and replacement differ. -/
theorem exists_differ (same : replacement.length = needle.length) (other : replacement ≠ needle) :
    ∃ k < needle.length, replacement[k]? ≠ needle[k]? ∧
      ∀ d < k, replacement[d]? = needle[d]? := by
  classical
  have some_ : ∃ k : Nat, replacement[k]? ≠ needle[k]? := by
    by_contra none
    exact other (List.ext_getElem? fun k => not_not.mp fun differ => none ⟨k, differ⟩)
  refine ⟨Nat.find some_, ?_, Nat.find_spec some_, fun d less => ?_⟩
  · by_contra behind
    apply Nat.find_spec some_
    rw [List.getElem?_eq_none (by omega), List.getElem?_eq_none (by omega)]
  · by_contra differ
    exact Nat.find_min some_ less differ

/-- The result tells at which positions there were replacements. -/
theorem Replaced.unique {others : List Nat} (some_ : needle ≠ [])
    (same : replacement.length = needle.length) (other : replacement ≠ needle)
    (replaced : Replaced needle replacement bound positions s s')
    (replaced' : Replaced needle replacement bound others s s') : positions = others := by
  obtain ⟨k, inside, differ, agree⟩ := exists_differ same other
  -- behind its first replacement a result has the replacement's element where it differs
  have first {bound p : Nat} {positions : List Nat} {s s' : List α} (later : bound ≤ p)
      (found : needle <+: s.drop p)
      (rest : Replaced needle replacement (p + 1) positions (overwrite s p replacement) s') :
      s'[p + k]? ≠ s[p + k]? := by
    have room := le_of_found some_ found
    obtain ⟨behind, split⟩ := found
    rw [rest.keeps some_ same agree (show p + k < p + 1 + k by omega),
      getElem?_overwrite (by omega) (by omega), ← List.getElem?_drop, ← split,
      List.getElem?_append_left inside]
    exact differ
  induction replaced generalizing others with
  | done =>
    cases replaced' with
    | done => rfl
    | here later found rest => exact absurd rfl (first later found rest)
  | @here bound p positions s s' later found rest ih =>
    cases replaced' with
    | done => exact absurd rfl (first later found rest)
    | @here _ q others _ _ later' found' rest' =>
      rcases Nat.lt_trichotomy p q with less | rfl | less
      · have kept := (Replaced.here less found' rest').keeps some_ same agree
          (show p + k < p + 1 + k by omega)
        exact absurd kept (first later found rest)
      · rw [ih rest']
      · have kept := (Replaced.here less found rest).keeps some_ same agree
          (show q + k < q + 1 + k by omega)
        exact absurd kept (first later' found' rest')

theorem Replaced.functional {other : List α}
    (replaced : Replaced needle replacement bound positions s s')
    (replaced' : Replaced needle replacement bound positions s other) : s' = other := by
  induction replaced with
  | done =>
    cases replaced' with
    | done => rfl
  | here _ _ _ ih =>
    cases replaced' with
    | here _ _ rest => exact ih rest

/-- A text that is replaced by itself stays as it is. -/
theorem Replaced.self (replaced : Replaced needle needle bound positions s s') : s' = s := by
  induction replaced with
  | done => rfl
  | here _ found _ ih => rw [ih, overwrite_self found]

end Replaced

end Occurrences
