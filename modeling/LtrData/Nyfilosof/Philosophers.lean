import LtrData.Library.TransitionSystem
import Mathlib.Data.Fintype.EquivFin
import Mathlib.Logic.Function.Basic
import Mathlib.Tactic.Convert

namespace Nyfilosof

/-- Where a philosopher stands. The waits and signals are those about to be done. -/
inductive Philosopher
  | notCreated
  | waitFirst
  | sleepChopstick
  | waitSecond
  | eating
  | signalLeft
  | signalRight
  | thinking
deriving DecidableEq

/-- Where main stands in its loop: before semctl, before pthread_create or behind the loop. -/
inductive MainThread (N : Nat)
  | setval (i : Fin N)
  | create (i : Fin N)
  | exited
deriving DecidableEq

@[ext] structure State (N : Nat) where
  semaphores : Fin N → Nat
  main : MainThread N
  philosophers : Fin N → Philosopher

variable {N : Nat}

def Left (p : Fin N) : Fin N := p

def Right (p : Fin N) : Fin N := ⟨(p.val + 1) % N, Nat.mod_lt _ p.pos⟩

def odd (me : Fin N) : Bool := me.val % 2 = 1

/-- The chopsticks in the order pick_up takes them. -/
def first (me : Fin N) : Fin N := if odd me then Right me else Left me

def second (me : Fin N) : Fin N := if odd me then Left me else Right me

/-- The end of one round of main's loop. -/
def nextCreate (i : Fin N) : MainThread N :=
  if more : i.val + 1 < N then .setval ⟨i.val + 1, more⟩ else .exited

namespace State

def moveMain (s : State N) (main : MainThread N) : State N := { s with main }

def move (s : State N) (me : Fin N) (point : Philosopher) : State N :=
  { s with philosophers := Function.update s.philosophers me point }

def set (s : State N) (i : Fin N) (val : Nat) : State N :=
  { s with semaphores := Function.update s.semaphores i val }

/-- semop with -1, which is only done when the semaphore is not 0. -/
def wait (s : State N) (i : Fin N) : State N := s.set i (s.semaphores i - 1)

def signal (s : State N) (i : Fin N) : State N := s.set i (s.semaphores i + 1)

end State

/-- One step of main or of one of the philosophers. -/
inductive Step : State N → State N → Prop
  | setval {s : State N} {i : Fin N} (point : s.main = .setval i) :
    Step s ((s.set i 1).moveMain (.create i))
  | create {s : State N} {i : Fin N} (point : s.main = .create i) :
    Step s ((s.move i .waitFirst).moveMain (nextCreate i))
  | waitFirst {s : State N} {me : Fin N} (point : s.philosophers me = .waitFirst)
    (free : s.semaphores (first me) ≠ 0) : Step s ((s.wait (first me)).move me .sleepChopstick)
  | sleepChopstick {s : State N} {me : Fin N} (point : s.philosophers me = .sleepChopstick) :
    Step s (s.move me .waitSecond)
  | waitSecond {s : State N} {me : Fin N} (point : s.philosophers me = .waitSecond)
    (free : s.semaphores (second me) ≠ 0) : Step s ((s.wait (second me)).move me .eating)
  | eating {s : State N} {me : Fin N} (point : s.philosophers me = .eating) :
    Step s (s.move me .signalLeft)
  | signalLeft {s : State N} {me : Fin N} (point : s.philosophers me = .signalLeft) :
    Step s ((s.signal (Left me)).move me .signalRight)
  | signalRight {s : State N} {me : Fin N} (point : s.philosophers me = .signalRight) :
    Step s ((s.signal (Right me)).move me .thinking)
  | thinking {s : State N} {me : Fin N} (point : s.philosophers me = .thinking) :
    Step s (s.move me .waitFirst)

/-- The program for a number of philosophers. semget leaves the semaphores at 0. -/
def program (two : 2 ≤ N) : TransitionSystem (State N) where
  start s := s = ⟨fun _ => 0, .setval ⟨0, by omega⟩, fun _ => .notCreated⟩
  step := Step

def Blocked (s : State N) (me : Fin N) : Prop :=
  s.philosophers me = .waitFirst ∧ s.semaphores (first me) = 0 ∨
    s.philosophers me = .waitSecond ∧ s.semaphores (second me) = 0

instance (s : State N) (me : Fin N) : Decidable (Blocked s me) :=
  inferInstanceAs (Decidable (_ ∨ _))

/-! ### Who holds which chopstick -/

def holdsLeft (me : Fin N) : Philosopher → Nat
  | .sleepChopstick | .waitSecond => if odd me then 0 else 1
  | .eating | .signalLeft => 1
  | _ => 0

def holdsRight (me : Fin N) : Philosopher → Nat
  | .sleepChopstick | .waitSecond => if odd me then 1 else 0
  | .eating | .signalLeft | .signalRight => 1
  | _ => 0

/-- What main has set a semaphore to. -/
def MainThread.hasSet (i : Fin N) : MainThread N → Nat
  | setval j => if i < j then 1 else 0
  | create j => if i ≤ j then 1 else 0
  | exited => 1

def MainThread.hasCreated (i : Fin N) : MainThread N → Prop
  | setval j | create j => i < j
  | exited => True

/-- Every chopstick that has been laid out lies between its philosophers or is held by one. -/
structure LaidOut (s : State N) : Prop where
  chopstick : ∀ p, s.semaphores (Right p) + holdsRight p (s.philosophers p) +
    holdsLeft (Right p) (s.philosophers (Right p)) = s.main.hasSet (Right p)
  created : ∀ p, s.main.hasCreated p ↔ s.philosophers p ≠ .notCreated

section chopsticks

variable {s : State N} {me : Fin N}

theorem right_ne (two : 2 ≤ N) (p : Fin N) : Right p ≠ p := by
  intro same
  have value : (p.val + 1) % N = p.val := congrArg Fin.val same
  have bound := p.isLt
  by_cases last : p.val + 1 < N
  · rw [Nat.mod_eq_of_lt last] at value
    omega
  · have whole : p.val + 1 = N := by omega
    rw [whole, Nat.mod_self] at value
    omega

theorem right_injective : Function.Injective (Right (N := N)) := by
  intro p q same
  have value : (p.val + 1) % N = (q.val + 1) % N := congrArg Fin.val same
  have pBound := p.isLt
  have qBound := q.isLt
  have values : ∀ r : Fin N, (r.val + 1) % N = if r.val + 1 < N then r.val + 1 else 0 := by
    intro r
    have bound := r.isLt
    split
    · exact Nat.mod_eq_of_lt ‹_›
    · rw [show r.val + 1 = N by omega, Nat.mod_self]
  rw [values, values] at value
  apply Fin.ext
  split at value <;> split at value <;> omega

theorem exists_right (p : Fin N) : ∃ q : Fin N, Right q = p :=
  (Finite.injective_iff_surjective.mp right_injective) p

theorem laidOut_move (s' : State N) (two : 2 ≤ N) (laidOut : LaidOut s) (main : s'.main = s.main)
    (others : ∀ q, q ≠ me → s'.philosophers q = s.philosophers q)
    (there : s.philosophers me ≠ .notCreated ∧ s'.philosophers me ≠ .notCreated)
    (elsewhere : ∀ i, i ≠ me → i ≠ Right me → s'.semaphores i = s.semaphores i)
    (left : s'.semaphores me + holdsLeft me (s'.philosophers me) =
      s.semaphores me + holdsLeft me (s.philosophers me))
    (right : s'.semaphores (Right me) + holdsRight me (s'.philosophers me) =
      s.semaphores (Right me) + holdsRight me (s.philosophers me)) : LaidOut s' where
  chopstick p := by
    have before := laidOut.chopstick p
    rw [main]
    by_cases own : p = me
    · subst own
      rw [others _ (right_ne two p)]
      omega
    · by_cases neighbour : Right p = me
      · subst neighbour
        rw [others p own]
        omega
      · rw [others p own, others _ neighbour, elsewhere _ neighbour fun same =>
          own (right_injective same)]
        exact before
  created p := by
    rw [main, laidOut.created p]
    by_cases own : p = me
    · subst own
      exact iff_of_true there.1 there.2
    · rw [others p own]

end chopsticks

/-! ### What a step keeps -/

section steps

variable {s s' : State N} {me i : Fin N}

@[simp] theorem move_main (point : Philosopher) : (s.move me point).main = s.main := rfl

@[simp] theorem move_semaphores (point : Philosopher) :
    (s.move me point).semaphores = s.semaphores := rfl

@[simp] theorem move_self (point : Philosopher) : (s.move me point).philosophers me = point :=
  Function.update_self ..

theorem move_other (point : Philosopher) {q : Fin N} (other : q ≠ me) :
    (s.move me point).philosophers q = s.philosophers q := Function.update_of_ne other ..

@[simp] theorem set_self (val : Nat) : (s.set i val).semaphores i = val := Function.update_self ..

theorem set_other (val : Nat) {j : Fin N} (other : j ≠ i) :
    (s.set i val).semaphores j = s.semaphores j := Function.update_of_ne other ..

theorem laidOut_set (two : 2 ≤ N) (laidOut : LaidOut s) {val : Nat} {point : Philosopher}
    (there : s.philosophers me ≠ .notCreated ∧ point ≠ .notCreated)
    (change : i = me ∧ val + holdsLeft me point = s.semaphores me + holdsLeft me (s.philosophers me) ∧
        holdsRight me point = holdsRight me (s.philosophers me) ∨
      i = Right me ∧ val + holdsRight me point =
          s.semaphores (Right me) + holdsRight me (s.philosophers me) ∧
        holdsLeft me point = holdsLeft me (s.philosophers me)) :
    LaidOut ((s.set i val).move me point) := by
  have apart := right_ne two me
  apply laidOut_move ((s.set i val).move me point) two laidOut rfl
    (fun q other => move_other point other)
  · rw [move_self]
    exact there
  · intro j notLeft notRight
    rw [move_semaphores, set_other]
    rcases change with change | change
    · rw [change.1]
      exact notLeft
    · rw [change.1]
      exact notRight
  · rw [move_self, move_semaphores]
    rcases change with ⟨rfl, left, _⟩ | ⟨rfl, _, left⟩
    · rw [set_self, left]
    · rw [set_other _ apart.symm, left]
  · rw [move_self, move_semaphores]
    rcases change with ⟨rfl, _, right⟩ | ⟨rfl, right, _⟩
    · rw [set_other _ apart, right]
    · rw [set_self, right]

theorem laidOut_go (two : 2 ≤ N) (laidOut : LaidOut s) {point : Philosopher}
    (there : s.philosophers me ≠ .notCreated ∧ point ≠ .notCreated)
    (left : holdsLeft me point = holdsLeft me (s.philosophers me))
    (right : holdsRight me point = holdsRight me (s.philosophers me)) :
    LaidOut (s.move me point) := by
  apply laidOut_move (s.move me point) two laidOut rfl (fun q other => move_other point other)
  · rw [move_self]
    exact there
  · exact fun _ _ _ => rfl
  · rw [move_self, move_semaphores, left]
  · rw [move_self, move_semaphores, right]

theorem hasSet_create (i j : Fin N) : (MainThread.create i).hasSet j =
    if j = i then 1 else (MainThread.setval i).hasSet j := by
  show (if j ≤ i then 1 else 0) = if j = i then 1 else if j < i then 1 else 0
  by_cases same : j = i
  · rw [if_pos same, if_pos (by rw [same])]
  · rw [if_neg same]
    have apart : (j ≤ i) = (j < i) := by
      rw [Fin.le_def, Fin.lt_def]
      have values : j.val ≠ i.val := fun equal => same (Fin.ext equal)
      exact propext (by omega)
    simp only [apart]

theorem hasSet_next (i j : Fin N) :
    (nextCreate i).hasSet j = (MainThread.create i).hasSet j := by
  have bound := j.isLt
  show _ = if j ≤ i then 1 else 0
  unfold nextCreate
  split
  · show (if j.val < i.val + 1 then 1 else 0) = _
    simp only [Fin.le_def, Nat.lt_succ_iff]
  · rw [if_pos (by rw [Fin.le_def]; omega)]
    rfl

theorem hasCreated_next (i j : Fin N) :
    (nextCreate i).hasCreated j ↔ j = i ∨ (MainThread.create i).hasCreated j := by
  have bound := j.isLt
  show _ ↔ j = i ∨ j < i
  rw [Fin.ext_iff, Fin.lt_def]
  unfold nextCreate
  split
  · show j.val < i.val + 1 ↔ _
    omega
  · exact iff_of_true trivial (by omega)

theorem laidOut_setval (laidOut : LaidOut s) (point : s.main = .setval i) :
    LaidOut ((s.set i 1).moveMain (.create i)) where
  chopstick p := by
    have before := laidOut.chopstick p
    rw [point] at before
    show (s.set i 1).semaphores (Right p) + holdsRight p (s.philosophers p) +
      holdsLeft (Right p) (s.philosophers (Right p)) = (MainThread.create i).hasSet (Right p)
    rw [hasSet_create]
    by_cases here : Right p = i
    · have unset : (MainThread.setval i).hasSet i = 0 := if_neg (Nat.lt_irrefl _)
      rw [here, unset] at before
      rw [here, set_self, if_pos rfl]
      omega
    · rw [set_other _ here, if_neg here, before]
  created p := by
    have before := laidOut.created p
    rw [point] at before
    exact before

theorem laidOut_create (laidOut : LaidOut s) (point : s.main = .create i) :
    LaidOut ((s.move i .waitFirst).moveMain (nextCreate i)) := by
  have absent : s.philosophers i = .notCreated := by
    by_contra there
    have created := (laidOut.created i).mpr there
    rw [point] at created
    exact absurd created (Nat.lt_irrefl _)
  have empty : ∀ p, holdsRight p ((s.move i .waitFirst).philosophers p) =
      holdsRight p (s.philosophers p) ∧ holdsLeft p ((s.move i .waitFirst).philosophers p) =
      holdsLeft p (s.philosophers p) := by
    intro p
    by_cases here : p = i
    · rw [here, move_self, absent]
      exact ⟨rfl, rfl⟩
    · rw [move_other _ here]
      exact ⟨rfl, rfl⟩
  exact {
    chopstick := by
      intro p
      have before := laidOut.chopstick p
      rw [point, ← hasSet_next] at before
      show s.semaphores (Right p) + holdsRight p ((s.move i .waitFirst).philosophers p) +
        holdsLeft (Right p) ((s.move i .waitFirst).philosophers (Right p)) = _
      rw [(empty p).1, (empty (Right p)).2]
      exact before
    created := by
      intro p
      have before := laidOut.created p
      rw [point] at before
      show (nextCreate i).hasCreated p ↔ (s.move i .waitFirst).philosophers p ≠ .notCreated
      rw [hasCreated_next]
      by_cases here : p = i
      · rw [here, move_self]
        exact iff_of_true (.inl rfl) (by decide)
      · rw [move_other _ here, ← before]
        exact or_iff_right here }

theorem laidOut_step (two : 2 ≤ N) (laidOut : LaidOut s) (step : Step s s') : LaidOut s' := by
  cases step with
  | setval point => exact laidOut_setval laidOut point
  | create point => exact laidOut_create laidOut point
  | @waitFirst me point free =>
    apply laidOut_set two laidOut ⟨by rw [point]; decide, by decide⟩
    rw [point]
    unfold first Left at *
    by_cases parity : odd me = true
    · rw [if_pos parity] at *
      exact .inr ⟨rfl, by simp only [holdsRight, if_pos parity]; omega,
        by simp only [holdsLeft, if_pos parity]⟩
    · rw [if_neg parity] at *
      exact .inl ⟨rfl, by simp only [holdsLeft, if_neg parity]; omega,
        by simp only [holdsRight, if_neg parity]⟩
  | sleepChopstick point =>
    apply laidOut_go two laidOut ⟨by rw [point]; decide, by decide⟩
    · rw [point]
      rfl
    · rw [point]
      rfl
  | @waitSecond me point free =>
    apply laidOut_set two laidOut ⟨by rw [point]; decide, by decide⟩
    rw [point]
    unfold second Left at *
    by_cases parity : odd me = true
    · rw [if_pos parity] at *
      exact .inl ⟨rfl, by simp only [holdsLeft, if_pos parity]; omega,
        by simp only [holdsRight, if_pos parity]⟩
    · rw [if_neg parity] at *
      exact .inr ⟨rfl, by simp only [holdsRight, if_neg parity]; omega,
        by simp only [holdsLeft, if_neg parity]⟩
  | eating point =>
    apply laidOut_go two laidOut ⟨by rw [point]; decide, by decide⟩
    · rw [point]
      rfl
    · rw [point]
      rfl
  | signalLeft point =>
    apply laidOut_set two laidOut ⟨by rw [point]; decide, by decide⟩
    rw [point]
    exact .inl ⟨rfl, rfl, rfl⟩
  | signalRight point =>
    apply laidOut_set two laidOut ⟨by rw [point]; decide, by decide⟩
    rw [point]
    exact .inr ⟨rfl, rfl, rfl⟩
  | thinking point =>
    apply laidOut_go two laidOut ⟨by rw [point]; decide, by decide⟩
    · rw [point]
      rfl
    · rw [point]
      rfl

theorem laidOut_reachable (two : 2 ≤ N) (reachable : (program two).Reachable s) : LaidOut s := by
  apply reachable.invariant
  · intro s start
    rw [show s = _ from start]
    exact ⟨fun p => rfl, fun p => iff_of_false (Nat.not_lt_zero _) fun there => there rfl⟩
  · intro s s' _ laidOut step
    exact laidOut_step two laidOut step

end steps

/-! ### Exclusion and progress -/

section results

variable {s : State N}

theorem holds_eating (me : Fin N) : holdsLeft me .eating = 1 ∧ holdsRight me .eating = 1 := ⟨rfl, rfl⟩

theorem hasSet_le_one (main : MainThread N) (i : Fin N) : main.hasSet i ≤ 1 := by
  unfold MainThread.hasSet
  split
  · split <;> omega
  · split <;> omega
  · exact Nat.le_refl 1

theorem semaphores_le_one (laidOut : LaidOut s) (i : Fin N) : s.semaphores i ≤ 1 := by
  obtain ⟨p, rfl⟩ := exists_right i
  have chopstick := laidOut.chopstick p
  have bound := hasSet_le_one s.main (Right p)
  omega

theorem not_both_eating (laidOut : LaidOut s) (p : Fin N) :
    ¬(s.philosophers p = .eating ∧ s.philosophers (Right p) = .eating) := by
  intro both
  have chopstick := laidOut.chopstick p
  rw [both.1, both.2, (holds_eating p).2, (holds_eating (Right p)).1] at chopstick
  have bound := hasSet_le_one s.main (Right p)
  omega

/-- Who is blocked holds at most the chopstick that is taken first. -/
theorem blocked_even {me : Fin N} (blocked : Blocked s me) (even : ¬odd me = true) :
    holdsRight me (s.philosophers me) = 0 := by
  rcases blocked with ⟨point, _⟩ | ⟨point, _⟩
  · rw [point]
    rfl
  · rw [point]
    exact if_neg even

theorem blocked_odd {me : Fin N} (blocked : Blocked s me) (isOdd : odd me = true) :
    holdsLeft me (s.philosophers me) = 0 := by
  rcases blocked with ⟨point, _⟩ | ⟨point, _⟩
  · rw [point]
    rfl
  · rw [point]
    exact if_pos isOdd

/-- The chopstick between philosophers 0 and 1 is the last one that both of them take, so that one
    of them can go on, or his neighbour can. -/
theorem exists_not_blocked (two : 2 ≤ N) (laidOut : LaidOut s) (exited : s.main = .exited) :
    ∃ p, ¬Blocked s p := by
  by_contra none
  push Not at none
  have all : ∀ p, s.semaphores (Right p) + holdsRight p (s.philosophers p) +
      holdsLeft (Right p) (s.philosophers (Right p)) = 1 := by
    intro p
    have chopstick := laidOut.chopstick p
    rw [exited] at chopstick
    exact chopstick
  obtain ⟨zero, isZero⟩ : ∃ zero : Fin N, zero.val = 0 := ⟨⟨0, by omega⟩, rfl⟩
  have isOne : (Right zero).val = 1 := by
    show (zero.val + 1) % N = 1
    rw [isZero]
    exact Nat.mod_eq_of_lt (by omega)
  have zeroEven : ¬odd zero = true := by
    unfold odd
    rw [isZero]
    decide
  have oneOdd : odd (Right zero) = true := by
    unfold odd
    rw [isOne]
    decide
  -- nobody holds the chopstick between 0 and 1
  have between := all zero
  rw [blocked_even (none zero) zeroEven, blocked_odd (none (Right zero)) oneOdd] at between
  have zeroPoint : s.philosophers zero = .waitFirst := by
    rcases none zero with ⟨point, _⟩ | ⟨_, taken⟩
    · exact point
    · rw [second, if_neg zeroEven] at taken
      omega
  have leftTaken : s.semaphores zero = 0 := by
    rcases none zero with ⟨_, taken⟩ | ⟨point, _⟩
    · rw [first, if_neg zeroEven] at taken
      exact taken
    · rw [zeroPoint] at point
      cases point
  -- so the left chopstick of 0 is held by the last philosopher, who is odd
  obtain ⟨last, isLast⟩ := exists_right zero
  have lastHolds := all last
  rw [isLast, zeroPoint, leftTaken] at lastHolds
  have lastRight : holdsRight last (s.philosophers last) = 1 := by
    have empty : holdsLeft zero .waitFirst = 0 := rfl
    omega
  have lastOdd : odd last = true := by
    by_contra even
    rw [blocked_even (none last) even] at lastRight
    cases lastRight
  have lastTaken : s.semaphores last = 0 := by
    rcases none last with ⟨point, _⟩ | ⟨_, taken⟩
    · rw [point] at lastRight
      cases lastRight
    · rw [second, if_pos lastOdd] at taken
      exact taken
  -- and the left chopstick of that one by nobody
  obtain ⟨before, isBefore⟩ := exists_right last
  have beforeEven : ¬odd before = true := by
    intro beforeOdd
    have value : (before.val + 1) % N = last.val := congrArg Fin.val isBefore
    have bound := before.isLt
    unfold odd at beforeOdd lastOdd
    rw [decide_eq_true_eq] at beforeOdd lastOdd
    by_cases wraps : before.val + 1 < N
    · rw [Nat.mod_eq_of_lt wraps] at value
      omega
    · rw [show before.val + 1 = N by omega, Nat.mod_self] at value
      omega
  have beforeHolds := all before
  rw [isBefore, lastTaken, blocked_even (none before) beforeEven,
    blocked_odd (none last) lastOdd] at beforeHolds
  cases beforeHolds

/-- Neighbours do not eat at the same time, the semaphores stay within their bounds, and once main
    has left its loop there is always a philosopher who can go on. -/
theorem program_correct (two : 2 ≤ N) (reachable : (program two).Reachable s) :
    (∀ p, ¬(s.philosophers p = .eating ∧ s.philosophers (Right p) = .eating)) ∧
      (∀ i, s.semaphores i = 0 ∨ s.semaphores i = 1) ∧
      (s.main = .exited → ∃ p, s.philosophers p ≠ .notCreated ∧ ¬Blocked s p) := by
  have laidOut := laidOut_reachable two reachable
  refine ⟨not_both_eating laidOut, ?_, ?_⟩
  · intro i
    have bound := semaphores_le_one laidOut i
    omega
  · intro exited
    obtain ⟨p, goes⟩ := exists_not_blocked two laidOut exited
    have created := (laidOut.created p).mp (by rw [exited]; trivial)
    exact ⟨p, created, goes⟩

def bothCreated : State 2 := ⟨fun _ => 1, .exited, fun _ => .waitFirst⟩

theorem bothCreated_reachable : (program (Nat.le_refl 2)).Reachable bothCreated := by
  have start := TransitionSystem.reachable_start (m := program (Nat.le_refl 2)) rfl
  have firstSet := start.step (.setval rfl)
  have firstCreated := firstSet.step (.create rfl)
  have secondSet := firstCreated.step (.setval rfl)
  have secondCreated := secondSet.step (.create rfl)
  convert secondCreated using 1
  ext i
  · revert i
    decide
  · rfl
  · revert i
    decide

theorem program_correct_two :
    (∀ p, ¬(bothCreated.philosophers p = .eating ∧ bothCreated.philosophers (Right p) = .eating)) ∧
      (∀ i, bothCreated.semaphores i = 0 ∨ bothCreated.semaphores i = 1) ∧
      (bothCreated.main = .exited →
        ∃ p, bothCreated.philosophers p ≠ .notCreated ∧ ¬Blocked bothCreated p) :=
  program_correct (Nat.le_refl 2) bothCreated_reachable

end results

end Nyfilosof
