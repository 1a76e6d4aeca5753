import Mathlib.Data.List.TakeWhile

/-! Tokens of a text, taken one after another with delimiters that may change. -/

namespace Strtok

variable {α : Type} [DecidableEq α]

/-- The next token, and what is left for the search after it. -/
def next (delim s : List α) : Option (List α) × List α :=
  let s := s.dropWhile (· ∈ delim)
  if s = [] then (none, []) else (some (s.takeWhile (· ∉ delim)), (s.dropWhile (· ∉ delim)).drop 1)

/-- Without a text, the search goes on in what the last one left. -/
def strtok (str : Option (List α)) (delim saved : List α) : Option (List α) × List α :=
  next delim (str.getD saved)

variable {delim token rest : List α} {d : α}

theorem strtok_some (s delim saved : List α) : strtok (some s) delim saved = next delim s := rfl

theorem strtok_none (delim saved : List α) : strtok none delim saved = next delim saved := rfl

theorem next_nil (delim : List α) : next delim [] = (none, []) := rfl

theorem dropWhile_token (some_ : token ≠ []) (clean : ∀ c ∈ token, c ∉ delim) (rest : List α) :
    (token ++ rest).dropWhile (· ∈ delim) = token ++ rest := by
  cases token with
  | nil => exact absurd rfl some_
  | cons c token =>
    rw [List.cons_append, List.dropWhile_cons_of_neg]
    simpa using clean c List.mem_cons_self

theorem next_last (some_ : token ≠ []) (clean : ∀ c ∈ token, c ∉ delim) :
    next delim token = (some token, []) := by
  have all : ∀ c ∈ token, decide (c ∉ delim) = true := fun c mem => decide_eq_true (clean c mem)
  have start := dropWhile_token some_ clean []
  rw [List.append_nil] at start
  rw [next, start, if_neg some_, List.takeWhile_eq_self_iff.mpr all,
    List.dropWhile_eq_nil_iff.mpr all]
  rfl

theorem next_token (some_ : token ≠ []) (clean : ∀ c ∈ token, c ∉ delim) (ends : d ∈ delim)
    (rest : List α) : next delim (token ++ d :: rest) = (some token, rest) := by
  have all : ∀ c ∈ token, decide (c ∉ delim) = true := fun c mem => decide_eq_true (clean c mem)
  have nonempty : token ++ d :: rest ≠ [] := by simp
  have stop : ¬ decide (d ∉ delim) = true := by simpa using ends
  rw [next, dropWhile_token some_ clean, if_neg nonempty, List.takeWhile_append_of_pos all,
    List.takeWhile_cons_of_neg (p := fun c => decide (c ∉ delim)) stop, List.append_nil,
    List.dropWhile_append_of_pos all,
    List.dropWhile_cons_of_neg (p := fun c => decide (c ∉ delim)) stop]
  rfl

theorem next_all (some_ : rest ≠ []) : next [] rest = (some rest, []) :=
  next_last some_ fun _ _ => List.not_mem_nil

theorem next_ne_nil {s : List α} (found : (next delim s).1 = some token) : token ≠ [] := by
  rw [next] at found
  rcases rest : s.dropWhile (· ∈ delim) with - | ⟨c, tail⟩
  · rw [rest] at found
    cases found
  · have other : decide (c ∉ delim) = true := by
      have first := List.head?_dropWhile_not (fun c => decide (c ∈ delim)) s
      rw [rest] at first
      simpa using first
    rw [rest] at found
    simp only [List.takeWhile_cons_of_pos (p := fun c => decide (c ∉ delim)) other] at found
    rw [← Option.some.inj found]
    exact List.cons_ne_nil _ _

theorem next_within {s : List α} (found : (next delim s).1 = some token) : token <:+: s := by
  rw [next] at found
  split at found
  · cases found
  · rw [← Option.some.inj found]
    exact (List.takeWhile_prefix _).isInfix.trans (List.dropWhile_suffix _).isInfix

theorem next_suffix (delim s : List α) : (next delim s).2 <:+ s := by
  rw [next]
  split
  · exact List.nil_suffix
  · exact (List.drop_suffix _ _).trans ((List.dropWhile_suffix _).trans (List.dropWhile_suffix _))

end Strtok
