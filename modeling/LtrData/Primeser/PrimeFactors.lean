import LtrData.Library.Cells
import Mathlib.Data.Nat.Factors
import Mathlib.NumberTheory.LucasLehmer

namespace Primeser

def INT_MAX : Nat := 2147483647

/-- An addition of ints, which are not negative here. It gives none where it overflows. -/
def plus (a b : Nat) : Option Nat := if a + b ≤ INT_MAX then some (a + b) else none

/-- The loop over c in getprimefactors. It finds no divisor where the function returns 0. -/
def divisorLoop (i : Nat) : Nat → Nat → Option (Option Nat)
  | 0, _ => none
  | fuel + 1, c =>
    if i % c = 0 then some (some c)
    else if c > i then some none
    else (plus c 2).bind (divisorLoop i fuel)

/-- The loop of getprimefactors, with the numbers passed to the callback so far, which its answer
    may depend on. -/
def factorLoop (f : List Nat → Int) : Nat → List Nat → Nat → Option (Int × List Nat)
  | 0, _, _ => none
  | fuel + 1, calls, i =>
    if i > 0 then
      if i &&& 1 = 0 then
        if f (calls ++ [2]) ≠ 0 then some (1, calls ++ [2])
        else factorLoop f fuel (calls ++ [2]) (i >>> 1)
      else
        match divisorLoop i (i + 1) 3 with
        | none => none
        | some none => some (0, calls)
        | some (some c) =>
          if f (calls ++ [c]) ≠ 0 then some (1, calls ++ [c])
          else factorLoop f fuel (calls ++ [c]) (i / c)
    else some (-1, calls)

/-- What getprimefactors returns, and the numbers it has passed to the callback. -/
def getprimefactors (i : Nat) (f : List Nat → Int) : Option (Int × List Nat) :=
  factorLoop f (i + 1) [] i

/-- The loop over seekcou in isprimeno, with the prime at which one of the two tests holds. -/
def seek (no : Nat) : List Nat → Option Nat
  | [] => none
  | prime :: rest =>
    if no = prime then some prime
    else if no / prime * prime = no then some prime
    else seek no rest

/-- The arguments that stay the same in the nested calls come first, then a bound on the nesting. -/
def isprimeno (primeseries : List Nat) (verbose : Bool) :
    Nat → Nat → Nat → Cells Nat → Option (Bool × Cells Nat)
  | 0, _, _, _ => none
  | fuel + 1, no, place, primefactors =>
    match seek no primeseries with
    | none => some (true, primefactors)
    | some prime =>
      if no = prime then some (true, primefactors.write place [prime, 1])
      else if verbose then
        (isprimeno primeseries verbose fuel (no / prime) (place + 1)
          (primefactors.write place [prime, 1])).map fun nested => (false, nested.2)
      else some (false, primefactors)

/-- The loop over counter, from the number of rounds left. The last of them is verbose. -/
def seriesLoop (no place : Nat) : Nat → Nat → List Nat → Cells Nat → Option (Bool × Cells Nat)
  | 0, _, _, primefactors => some (true, primefactors)
  | left + 1, currentno, primeseries, primefactors =>
    match isprimeno primeseries (decide (left = 0)) (currentno + 1) currentno place primefactors with
    | none => none
    | some (true, primefactors) =>
      if left = 0 then some (true, primefactors.write place [no, 1])
      else (plus currentno 2).bind fun next =>
        seriesLoop no place left next (primeseries ++ [currentno]) primefactors
    | some (false, primefactors) =>
      (plus currentno 2).bind fun next => seriesLoop no place left next primeseries primefactors

/-- The loop that divides by two, with the place primefactors points to. -/
def halveLoop : Nat → Nat → Nat → Cells Nat → Option (Nat × Nat × Cells Nat)
  | 0, _, _, _ => none
  | fuel + 1, place, no, primefactors =>
    if no &&& 1 = 0 then halveLoop fuel (place + 1) (no >>> 1) (primefactors.write place [2])
    else some (place, no, primefactors)

/-- The memory for the series is there. -/
def primefactorexpress (primefactors : Cells Nat) (no : Nat) : Option (Bool × Cells Nat) :=
  if no < 2 then some (true, primefactors.write 0 [1])
  else
    match halveLoop (no + 1) 0 no primefactors with
    | none => none
    | some (place, no, primefactors) =>
      if no < 3 then some (true, primefactors.write place [1])
      else seriesLoop no place (no >>> 1) 3 [] primefactors

/-- The numbers stored from a place on, before the 1 that ends them. -/
def Stored (primefactors : Cells Nat) (place : Nat) (factors : List Nat) : Prop :=
  primefactors.read place (factors.length + 1) = factors ++ [1] ∧ 1 ∉ factors

theorem primeFactorsList_eq {n : Nat} (le : 2 ≤ n) :
    n.primeFactorsList = n.minFac :: (n / n.minFac).primeFactorsList := by
  obtain ⟨m, rfl⟩ := Nat.exists_eq_add_of_le' le
  exact Nat.primeFactorsList_add_two m

theorem even_iff {n : Nat} : n &&& 1 = 0 ↔ n.minFac = 2 := by
  rw [Nat.and_one_is_mod, Nat.minFac_eq_two_iff, Nat.dvd_iff_mod_eq_zero]

theorem shiftRight_eq (n : Nat) : n >>> 1 = n / 2 := Nat.shiftRight_one n

/-- An odd number from 3 on has its least factor among the odd numbers from 3 on. -/
theorem minFac_odd {n : Nat} (le : 2 ≤ n) (odd : ¬ n &&& 1 = 0) :
    3 ≤ n.minFac ∧ n.minFac % 2 = 1 := by
  have prime := Nat.minFac_prime (show n ≠ 1 by omega)
  rcases prime.eq_two_or_odd with two | odd'
  · exact absurd (even_iff.mpr two) odd
  · have two_le := prime.two_le
    omega

section Divisors

variable {n : Nat}

theorem divisorLoop_one : divisorLoop 1 2 3 = some none := rfl

/-- The odd numbers are tried in order, so that the first divisor is the least factor. -/
theorem divisorLoop_spec {fuel c : Nat} (bound : n ≤ INT_MAX) (le : 2 ≤ n) (odd : ¬ n &&& 1 = 0)
    (three : 3 ≤ c) (odd_c : c % 2 = 1) (below : c ≤ n.minFac) (enough : n.minFac < c + fuel) :
    divisorLoop n fuel c = some (some n.minFac) := by
  induction fuel generalizing c with
  | zero => omega
  | succ fuel ih =>
    obtain ⟨-, odd_min⟩ := minFac_odd le odd
    have small := Nat.minFac_le (show 0 < n by omega)
    rw [divisorLoop]
    by_cases divides : n % c = 0
    · have least := Nat.minFac_le_of_dvd (show 2 ≤ c by omega) (Nat.dvd_of_mod_eq_zero divides)
      rw [if_pos divides, Nat.le_antisymm below least]
    · have other : c ≠ n.minFac := by
        intro same
        exact divides (same ▸ Nat.mod_eq_zero_of_dvd (Nat.minFac_dvd n))
      rw [if_neg divides, if_neg (by omega), plus, if_pos (by omega), Option.bind_some]
      exact ih (by omega) (by omega) (by omega) (by omega)

theorem minFac_two_le (le : 2 ≤ n) : 2 ≤ n.minFac :=
  (Nat.minFac_prime (show n ≠ 1 by omega)).two_le

/-- The quotient by the least factor, smaller and not 0. -/
theorem quotient_bounds (le : 2 ≤ n) : 0 < n / n.minFac ∧ n / n.minFac < n :=
  ⟨Nat.div_pos (Nat.minFac_le (by omega)) (Nat.minFac_pos n),
    Nat.div_lt_self (by omega) (minFac_two_le le)⟩

theorem factorLoop_spec {f : List Nat → Int} (zero : ∀ calls, f calls = 0) {fuel : Nat}
    (calls : List Nat) (positive : 0 < n) (bound : n ≤ INT_MAX) (enough : n < fuel) :
    factorLoop f fuel calls n = some (0, calls ++ n.primeFactorsList) := by
  induction fuel generalizing calls n with
  | zero => omega
  | succ fuel ih =>
    rw [factorLoop, if_pos positive]
    rcases Nat.eq_or_lt_of_le positive with one | more
    · subst one
      rw [if_neg (by decide), divisorLoop_one, Nat.primeFactorsList_one, List.append_nil]
    · have ⟨some_, less⟩ := quotient_bounds more
      rw [primeFactorsList_eq more]
      by_cases even : n &&& 1 = 0
      · have two := even_iff.mp even
        rw [two] at some_ less ⊢
        rw [if_pos even, if_neg (not_not.mpr (zero _)), shiftRight_eq,
          ih _ some_ (by omega) (by omega), List.append_assoc]
        rfl
      · obtain ⟨three, -⟩ := minFac_odd more even
        rw [if_neg even, divisorLoop_spec bound more even (Nat.le_refl 3) rfl three
          (by have small := Nat.minFac_le positive; omega)]
        dsimp only
        rw [if_neg (not_not.mpr (zero _)), ih _ some_ (by omega) (by omega), List.append_assoc]
        rfl

end Divisors

section Series

variable {n : Nat} {series : List Nat}

/-- The odd primes below a bound, in ascending order. -/
structure Series (bound : Nat) (series : List Nat) : Prop where
  ascending : series.Pairwise (· < ·)
  primes : ∀ p, p ∈ series ↔ p.Prime ∧ 3 ≤ p ∧ p < bound

theorem series_start : Series 3 [] := by
  refine ⟨List.Pairwise.nil, fun p => ⟨fun mem => absurd mem List.not_mem_nil, fun facts => ?_⟩⟩
  omega

theorem Series.step {c : Nat} (known : Series c series) (three : 3 ≤ c) (odd : c % 2 = 1) :
    Series (c + 2) (if c.Prime then series ++ [c] else series) := by
  have next : ¬ (c + 1).Prime := by
    intro prime
    have odd' := prime.eq_two_or_odd
    omega
  have below (p : Nat) (prime : p.Prime) : p < c + 2 ↔ p < c ∨ p = c := by
    have other : p ≠ c + 1 := fun same => next (same ▸ prime)
    omega
  by_cases prime : c.Prime
  · rw [if_pos prime]
    refine ⟨List.pairwise_append.mpr ⟨known.ascending, List.pairwise_singleton _ _, ?_⟩, fun p => ?_⟩
    · intro p mem q last
      rw [List.mem_singleton.mp last]
      exact ((known.primes p).mp mem).2.2
    · rw [List.mem_append, known.primes, List.mem_singleton]
      constructor
      · intro facts
        rcases facts with ⟨prime', le, less⟩ | rfl
        · exact ⟨prime', le, by omega⟩
        · exact ⟨prime, three, by omega⟩
      · intro facts
        rcases (below p facts.1).mp facts.2.2 with less | same
        · exact Or.inl ⟨facts.1, facts.2.1, less⟩
        · exact Or.inr same
  · rw [if_neg prime]
    refine ⟨known.ascending, fun p => ?_⟩
    rw [known.primes]
    constructor
    · intro facts
      exact ⟨facts.1, facts.2.1, by omega⟩
    · intro facts
      rcases (below p facts.1).mp facts.2.2 with less | same
      · exact ⟨facts.1, facts.2.1, less⟩
      · exact absurd (same ▸ facts.1) prime

theorem div_mul_eq_iff {p : Nat} : n / p * p = n ↔ p ∣ n :=
  ⟨Dvd.intro_left _, Nat.div_mul_cancel⟩

/-- A table in ascending order that has the least factor finds it first. -/
theorem seek_least (ascending : series.Pairwise (· < ·))
    (primes : ∀ p ∈ series, p.Prime) (found : n.minFac ∈ series) :
    seek n series = some n.minFac := by
  induction series with
  | nil => cases found
  | cons p rest ih =>
    have ⟨first, later⟩ := List.pairwise_cons.mp ascending
    have prime := primes p List.mem_cons_self
    rw [seek]
    by_cases same : n = p
    · rw [if_pos same, same, prime.minFac_eq]
    · rw [if_neg same]
      by_cases divides : p ∣ n
      · have least := Nat.minFac_le_of_dvd prime.two_le divides
        rcases List.mem_cons.mp found with here | there
        · rw [if_pos (div_mul_eq_iff.mpr divides), here]
        · have less := first _ there
          omega
      · rw [if_neg (mt div_mul_eq_iff.mp divides)]
        rcases List.mem_cons.mp found with here | there
        · exact absurd (here ▸ Nat.minFac_dvd n) divides
        · exact ih later (fun p mem => primes p (List.mem_cons_of_mem _ mem)) there

theorem seek_none (none_ : ∀ p ∈ series, ¬ p ∣ n) : seek n series = none := by
  induction series with
  | nil => rfl
  | cons p rest ih =>
    have here := none_ p List.mem_cons_self
    have other : n ≠ p := fun same => here (same ▸ Nat.dvd_refl n)
    rw [seek, if_neg other, if_neg (mt div_mul_eq_iff.mp here)]
    exact ih fun p mem => none_ p (List.mem_cons_of_mem _ mem)

theorem Series.seek_prime (known : Series n series) (prime : n.Prime) : seek n series = none := by
  apply seek_none
  intro p mem divides
  have ⟨prime', three, less⟩ := (known.primes p).mp mem
  rcases prime.eq_one_or_self_of_dvd p divides with one | same
  · omega
  · omega

/-- The prime factors of an odd number that is no prime are in the table of the primes below it. -/
theorem Series.factors (known : Series n series) (odd : ¬ n &&& 1 = 0) (three : 3 ≤ n)
    (composite : ¬ n.Prime) : ∀ p, p.Prime → p ∣ n → p ∈ series := by
  intro p prime divides
  have small := Nat.le_of_dvd (by omega) divides
  have other : p ≠ n := fun same => composite (same ▸ prime)
  have least := Nat.minFac_le_of_dvd prime.two_le divides
  obtain ⟨le, -⟩ := minFac_odd (show 2 ≤ n by omega) odd
  exact (known.primes p).mpr ⟨prime, by omega, by omega⟩

theorem minFac_eq_self_iff (le : 2 ≤ n) : n.minFac = n ↔ n.Prime := by
  constructor
  · intro same
    exact same ▸ Nat.minFac_prime (show n ≠ 1 by omega)
  · intro prime
    exact prime.minFac_eq

/-- The nested calls store the factors of a number one behind the other. -/
theorem isprimeno_verbose {fuel : Nat} (place : Nat) (primefactors : Cells Nat)
    (ascending : series.Pairwise (· < ·)) (primes : ∀ p ∈ series, p.Prime)
    (le : 2 ≤ n) (complete : ∀ p, p.Prime → p ∣ n → p ∈ series) (enough : n < fuel) :
    ∃ primefactors', isprimeno series true fuel n place primefactors =
        some (decide (n.minFac = n), primefactors') ∧
      primefactors'.read place (n.primeFactorsList.length + 1) = n.primeFactorsList ++ [1] ∧
      ∀ i < place, primefactors' i = primefactors i := by
  induction fuel generalizing n place primefactors with
  | zero => omega
  | succ fuel ih =>
    have least := complete _ (Nat.minFac_prime (show n ≠ 1 by omega)) (Nat.minFac_dvd n)
    rw [isprimeno, seek_least ascending primes least]
    dsimp only
    by_cases same : n = n.minFac
    · have prime := (minFac_eq_self_iff le).mp same.symm
      rw [if_pos same, ← same, decide_eq_true rfl, Nat.primeFactorsList_prime prime]
      exact ⟨_, rfl, Cells.read_write_same primefactors place [n, 1], fun i below => by
        simp [Cells.write, below]⟩
    · obtain ⟨some_, less⟩ := quotient_bounds le
      have product := Nat.div_mul_cancel (Nat.minFac_dvd n)
      have quotient : 2 ≤ n / n.minFac := by
        by_contra one
        have unit : n / n.minFac = 1 := by omega
        rw [unit, Nat.one_mul] at product
        exact same product.symm
      obtain ⟨primefactors', run, stored, kept⟩ := ih (place + 1)
        (primefactors.write place [n.minFac, 1]) quotient
        (fun p prime divides => complete p prime
          (Nat.dvd_trans divides (Nat.div_dvd_of_dvd (Nat.minFac_dvd n)))) (by omega)
      have first : primefactors' place = n.minFac := by
        rw [kept place (Nat.lt_succ_self _)]
        simp [Cells.write]
      have result : decide (n.minFac = n) = false := decide_eq_false fun h => same h.symm
      rw [if_neg same, if_pos rfl, run, result, primeFactorsList_eq le]
      refine ⟨primefactors', rfl, ?_, fun i below => ?_⟩
      · rw [List.length_cons, Cells.read, first, stored, List.cons_append]
      · rw [kept i (Nat.lt_succ_of_lt below)]
        simp [Cells.write, below]

theorem isprimeno_quiet (fuel place : Nat) (primefactors : Cells Nat) (known : Series n series)
    (three : 3 ≤ n) (odd : ¬ n &&& 1 = 0) :
    isprimeno series false (fuel + 1) n place primefactors =
      some (decide n.Prime, primefactors) := by
  rw [isprimeno]
  by_cases prime : n.Prime
  · rw [known.seek_prime prime, decide_eq_true prime]
  · have least := known.factors odd three prime _ (Nat.minFac_prime (show n ≠ 1 by omega))
      (Nat.minFac_dvd n)
    rw [seek_least known.ascending (fun p mem => ((known.primes p).mp mem).1) least,
      decide_eq_false prime]
    have other : n ≠ n.minFac := fun same =>
      prime ((minFac_eq_self_iff (show 2 ≤ n by omega)).mp same.symm)
    exact if_neg other

/-- The largest int is a prime, so that `currentno` is not stepped beyond it. -/
theorem INT_MAX_prime : Nat.Prime INT_MAX := by
  have prime := lucas_lehmer_sufficiency 31 (by decide) (by norm_num)
  exact prime

end Series

section Express

variable {n : Nat}

/-- From the number that is looked at on, up to the number whose factors are wanted. -/
theorem seriesLoop_spec {left currentno : Nat} {series : List Nat} (place : Nat)
    (primefactors : Cells Nat) (bound : n ≤ INT_MAX) (odd : n % 2 = 1)
    (known : Series currentno series) (three : 3 ≤ currentno) (odd_c : currentno % 2 = 1)
    (some_ : 0 < left) (rounds : currentno + 2 * left = n + 2) :
    ∃ primefactors', seriesLoop n place left currentno series primefactors =
        some (true, primefactors') ∧
      primefactors'.read place (n.primeFactorsList.length + 1) = n.primeFactorsList ++ [1] ∧
      ∀ i < place, primefactors' i = primefactors i := by
  induction left generalizing currentno series with
  | zero => omega
  | succ left ih =>
    have bits : ¬ currentno &&& 1 = 0 := by
      rw [Nat.and_one_is_mod]
      omega
    rw [seriesLoop]
    by_cases last : left = 0
    · have same : currentno = n := by omega
      subst last same
      rw [decide_eq_true rfl]
      by_cases prime : currentno.Prime
      · rw [isprimeno, known.seek_prime prime, Nat.primeFactorsList_prime prime]
        exact ⟨_, rfl, Cells.read_write_same primefactors place [currentno, 1], fun i below => by
          simp [Cells.write, below]⟩
      · have other : ¬ currentno = INT_MAX := fun same => prime (same ▸ INT_MAX_prime)
        have room : currentno + 2 ≤ INT_MAX := by
          have odd_max : INT_MAX % 2 = 1 := rfl
          omega
        obtain ⟨primefactors', run, stored, kept⟩ := isprimeno_verbose place primefactors
          known.ascending (fun p mem => ((known.primes p).mp mem).1) (show 2 ≤ currentno by omega)
          (known.factors bits three prime) (Nat.lt_succ_self _)
        have result : decide (currentno.minFac = currentno) = false :=
          decide_eq_false fun same => prime ((minFac_eq_self_iff (by omega)).mp same)
        rw [result] at run
        rw [run]
        dsimp only
        rw [plus, if_pos room, Option.bind_some]
        exact ⟨primefactors', rfl, stored, kept⟩
    · have next : plus currentno 2 = some (currentno + 2) := if_pos (by omega)
      have longer := known.step three odd_c
      rw [decide_eq_false last, isprimeno_quiet currentno place primefactors known three bits]
      by_cases prime : currentno.Prime
      · rw [decide_eq_true prime]
        dsimp only
        rw [if_neg last, next, Option.bind_some]
        rw [if_pos prime] at longer
        exact ih longer (by omega) (by omega) (by omega) (by omega)
      · rw [decide_eq_false prime]
        dsimp only
        rw [next, Option.bind_some]
        rw [if_neg prime] at longer
        exact ih longer (by omega) (by omega) (by omega) (by omega)

theorem halveLoop_spec {fuel : Nat} (place : Nat) (primefactors : Cells Nat) (positive : 0 < n)
    (enough : n < fuel) :
    ∃ k m primefactors', halveLoop fuel place n primefactors = some (place + k, m, primefactors') ∧
      m % 2 = 1 ∧ m ≤ n ∧ n.primeFactorsList = List.replicate k 2 ++ m.primeFactorsList ∧
      primefactors'.read place k = List.replicate k 2 ∧
      ∀ i < place, primefactors' i = primefactors i := by
  induction fuel generalizing n place primefactors with
  | zero => omega
  | succ fuel ih =>
    rw [halveLoop]
    by_cases even : n &&& 1 = 0
    · have two := even_iff.mp even
      have le : 2 ≤ n := by
        have divides := Nat.minFac_dvd n
        rw [two] at divides
        exact Nat.le_of_dvd positive divides
      obtain ⟨k, m, primefactors', run, odd, small, factors, stored, kept⟩ := ih (place + 1)
        (primefactors.write place [2]) (show 0 < n / 2 by omega) (by omega)
      have first : primefactors' place = 2 := by
        rw [kept place (Nat.lt_succ_self _)]
        simp [Cells.write]
      rw [if_pos even, shiftRight_eq, run]
      refine ⟨k + 1, m, primefactors', by rw [Nat.add_assoc, Nat.add_comm 1], odd, by omega, ?_, ?_,
        fun i below => ?_⟩
      · rw [primeFactorsList_eq le, two, factors, List.replicate_succ, List.cons_append]
      · rw [Cells.read, first, stored, List.replicate_succ]
      · rw [kept i (Nat.lt_succ_of_lt below)]
        simp [Cells.write, below]
    · rw [if_neg even]
      rw [Nat.and_one_is_mod] at even
      exact ⟨0, n, primefactors, rfl, by omega, Nat.le_refl n, rfl, rfl, fun _ _ => rfl⟩

theorem one_not_mem_primeFactorsList (n : Nat) : 1 ∉ n.primeFactorsList :=
  fun mem => Nat.not_prime_one (Nat.prime_of_mem_primeFactorsList mem)

theorem primefactorexpress_spec (primefactors : Cells Nat) (positive : 0 < n)
    (bound : n ≤ INT_MAX) :
    ∃ primefactors', primefactorexpress primefactors n = some (true, primefactors') ∧
      Stored primefactors' 0 n.primeFactorsList := by
  rw [primefactorexpress]
  by_cases one : n < 2
  · have same : n = 1 := by omega
    subst same
    rw [if_pos one]
    refine ⟨_, rfl, ?_, one_not_mem_primeFactorsList 1⟩
    rw [Nat.primeFactorsList_one]
    exact Cells.read_write_same primefactors 0 [1]
  · obtain ⟨k, m, halved, run, odd, small, factors, twos, -⟩ :=
      halveLoop_spec 0 primefactors positive (Nat.lt_succ_self n)
    rw [Nat.zero_add] at run
    rw [if_neg one, run]
    dsimp only
    by_cases rest : m < 3
    · have same : m = 1 := by omega
      subst same
      rw [Nat.primeFactorsList_one, List.append_nil] at factors
      rw [if_pos rest]
      refine ⟨_, rfl, ?_, one_not_mem_primeFactorsList n⟩
      have written := Cells.read_write_append halved [1] 0 k
      rw [Nat.zero_add, twos] at written
      rw [factors, List.length_replicate]
      exact written
    · obtain ⟨primefactors', ends, stored, kept⟩ := seriesLoop_spec k halved (by omega) odd
        series_start (Nat.le_refl 3) rfl (show 0 < m / 2 by omega) (by omega)
      rw [if_neg rest, shiftRight_eq, ends]
      refine ⟨primefactors', rfl, ?_, one_not_mem_primeFactorsList n⟩
      have front : primefactors'.read 0 k = List.replicate k 2 := by
        rw [← twos]
        exact Cells.read_congr fun i _ below => kept i (by omega)
      rw [factors, List.length_append, List.length_replicate, Nat.add_assoc, Cells.read_add, front,
        Nat.zero_add, stored, List.append_assoc]

end Express

/-- Both routines come to their end, with the prime factors in ascending order. -/
theorem factorisations_agree {no : Nat} (positive : 1 ≤ no) (bound : no ≤ 2147483647)
    {f : List Nat → Int} (zero : ∀ calls, f calls = 0) (primefactors : Cells Nat) :
    ∃ factors primefactors',
      primefactorexpress primefactors no = some (true, primefactors') ∧
      Stored primefactors' 0 factors ∧ getprimefactors no f = some (0, factors) ∧
      factors.Pairwise (· ≤ ·) ∧ (∀ p ∈ factors, p.Prime) ∧ factors.prod = no ∧
      (no = 1 → factors = []) := by
  obtain ⟨primefactors', express, stored⟩ := primefactorexpress_spec primefactors positive bound
  have passed := factorLoop_spec zero [] positive bound (Nat.lt_succ_self no)
  refine ⟨no.primeFactorsList, primefactors', express, stored, passed,
    (Nat.primeFactorsList_sorted no).pairwise, fun p mem => Nat.prime_of_mem_primeFactorsList mem,
    Nat.prod_primeFactorsList (by omega), ?_⟩
  intro one
  rw [one, Nat.primeFactorsList_one]

theorem factorisations_agree_12 : ∃ factors primefactors',
    primefactorexpress (fun _ => 0) 12 = some (true, primefactors') ∧
    Stored primefactors' 0 factors ∧ getprimefactors 12 (fun _ => 0) = some (0, factors) ∧
    factors.Pairwise (· ≤ ·) ∧ (∀ p ∈ factors, p.Prime) ∧ factors.prod = 12 ∧
    (12 = 1 → factors = []) :=
  factorisations_agree (by decide) (by decide) (fun _ => rfl) _

end Primeser
