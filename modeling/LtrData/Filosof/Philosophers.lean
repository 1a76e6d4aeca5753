import LtrData.Library.Tokens
import LtrData.Library.TransitionSystem
import Mathlib.Algebra.BigOperators.Ring.Finset
import Mathlib.Logic.Function.Basic
import Mathlib.Tactic.Convert

namespace Filosof

/-- Where a philosopher stands. The waits and signals are those about to be done. -/
inductive Philosopher
  | notCreated
  | waitFirst
  | sleepChopstick
  | waitSecond
  | eating
  | signalLeft
  | signalRight
  | thinking
deriving DecidableEq

/-- Where the process stands that has not become a philosopher: before make_semaphore, before the
    signal that follows it, before fork or behind the loops. -/
inductive MainProcess (N : Nat)
  | makeSemaphore (i : Fin N)
  | signal (i : Fin N)
  | fork (i : Fin N)
  | exited
deriving DecidableEq

/-- A semaphore is the number of bytes that lie in its pipe. -/
@[ext] structure State (N : Nat) where
  chopstick : Fin N → Nat
  main : MainProcess N
  philosophers : Fin N → Philosopher
  i : Fin N → Nat

variable {N : Nat}

def Left (p : Fin N) : Fin N := p

theorem right_lt (p : Fin N) : (p.val + 1) % N < N := Nat.mod_lt _ p.pos

def Right (p : Fin N) : Fin N := ⟨(p.val + 1) % N, right_lt p⟩

/-- The chopsticks in the order pick_up takes them. -/
def first (me : Fin N) : Fin N := if me.val = 0 then Right me else Left me

def second (me : Fin N) : Fin N := if me.val = 0 then Left me else Right me

/-- The loop that makes the semaphores goes on with its next round or with the first fork. -/
def nextSemaphore (i : Fin N) : MainProcess N :=
  if more : i.val + 1 < N then .makeSemaphore ⟨i.val + 1, more⟩ else .fork ⟨0, i.pos⟩

def nextFork (i : Fin N) : MainProcess N :=
  if more : i.val + 1 < N then .fork ⟨i.val + 1, more⟩ else .exited

namespace State

def moveMain (s : State N) (main : MainProcess N) : State N := { s with main }

def move (s : State N) (me : Fin N) (point : Philosopher) : State N :=
  { s with philosophers := Function.update s.philosophers me point }

def set (s : State N) (c : Fin N) (bytes : Nat) : State N :=
  { s with chopstick := Function.update s.chopstick c bytes }

/-- The read of one byte, which is only done when there is one. -/
def waitsema (s : State N) (c : Fin N) : State N := s.set c (s.chopstick c - 1)

def signal (s : State N) (c : Fin N) : State N := s.set c (s.chopstick c + 1)

def nextRound (s : State N) (me : Fin N) : State N :=
  { s with i := Function.update s.i me (s.i me + 1) }

end State

/-- One step of one of the processes. The parent of a fork becomes a philosopher and the child goes
    on with the loop; fork gives the parent's answer also when there is no child. -/
inductive Step : State N → State N → Prop
  | makeSemaphore {s : State N} {i : Fin N} (point : s.main = .makeSemaphore i) :
    Step s ((s.set i 0).moveMain (.signal i))
  | signal {s : State N} {i : Fin N} (point : s.main = .signal i) :
    Step s ((s.signal i).moveMain (nextSemaphore i))
  | fork {s : State N} {i : Fin N} (point : s.main = .fork i) :
    Step s ((s.move i .waitFirst).moveMain (nextFork i))
  | forkFails {s : State N} {i : Fin N} (point : s.main = .fork i) :
    Step s ((s.move i .waitFirst).moveMain .exited)
  | waitFirst {s : State N} {me : Fin N} (point : s.philosophers me = .waitFirst)
    (bytes : s.chopstick (first me) ≠ 0) :
    Step s ((s.waitsema (first me)).move me .sleepChopstick)
  | sleepChopstick {s : State N} {me : Fin N} (point : s.philosophers me = .sleepChopstick) :
    Step s (s.move me .waitSecond)
  | waitSecond {s : State N} {me : Fin N} (point : s.philosophers me = .waitSecond)
    (bytes : s.chopstick (second me) ≠ 0) :
    Step s ((s.waitsema (second me)).move me .eating)
  | eating {s : State N} {me : Fin N} (point : s.philosophers me = .eating) :
    Step s (s.move me .signalLeft)
  | signalLeft {s : State N} {me : Fin N} (point : s.philosophers me = .signalLeft) :
    Step s ((s.signal (Left me)).move me .signalRight)
  | signalRight {s : State N} {me : Fin N} (point : s.philosophers me = .signalRight) :
    Step s ((s.signal (Right me)).move me .thinking)
  | thinking {s : State N} {me : Fin N} (point : s.philosophers me = .thinking) :
    Step s ((s.nextRound me).move me .waitFirst)

theorem some_chopstick (two : 2 ≤ N) : 0 < N := Nat.lt_of_lt_of_le Nat.zero_lt_two two

/-- The program for a number of philosophers. -/
def program (two : 2 ≤ N) : TransitionSystem (State N) where
  start s := s = ⟨fun _ => 0, .makeSemaphore ⟨0, some_chopstick two⟩, fun _ => .notCreated, fun _ => 1⟩
  step := Step

/-- What a philosopher waits for while its pipe is empty. -/
def WaitsFor (s : State N) (me c : Fin N) : Prop :=
  (s.philosophers me = .waitFirst ∧ c = first me ∨
    s.philosophers me = .waitSecond ∧ c = second me) ∧ s.chopstick c = 0

/-! ### Who holds which chopstick -/

def hand (me c : Fin N) : Philosopher → Nat
  | .sleepChopstick | .waitSecond => if c = first me then 1 else 0
  | .eating | .signalLeft => if c = Left me ∨ c = Right me then 1 else 0
  | .signalRight => if c = Right me then 1 else 0
  | _ => 0

/-- The order in which every philosopher takes his two chopsticks: 1, 2, and so on, 0 the last. -/
def rank (c : Fin N) : Nat := if c.val = 0 then N - 1 else c.val - 1

/-- The bytes that main has put into a pipe. -/
def MainProcess.laid (c : Fin N) : MainProcess N → Nat
  | makeSemaphore i | signal i => if c < i then 1 else 0
  | fork _ | exited => 1

def MainProcess.mayCreate (me : Fin N) : MainProcess N → Prop
  | makeSemaphore _ | signal _ => True
  | fork i => i ≤ me
  | exited => False

structure LaidOut (s : State N) : Prop where
  conserved : Conserved (fun c => s.main.laid c) s.chopstick
    fun me c => hand me c (s.philosophers me)
  uncreated : ∀ me, s.main.mayCreate me → s.philosophers me = .notCreated
  somebody : s.main = .exited → ∃ me, s.philosophers me ≠ .notCreated

section chopsticks

variable {me c : Fin N}

theorem right_val (p : Fin N) : (Right p).val = if p.val + 1 < N then p.val + 1 else 0 := by
  have bound := p.isLt
  show (p.val + 1) % N = _
  split
  · exact Nat.mod_eq_of_lt ‹_›
  · rw [show p.val + 1 = N by omega, Nat.mod_self]

theorem right_ne (two : 2 ≤ N) (p : Fin N) : Right p ≠ p := by
  intro same
  have value := congrArg Fin.val same
  rw [right_val] at value
  split at value <;> omega

theorem rank_first_lt (two : 2 ≤ N) (me : Fin N) : rank (first me) < rank (second me) := by
  have bound := me.isLt
  have right := right_val me
  by_cases zero : me.val = 0
  · rw [first, second, if_pos zero, if_pos zero, rank, rank,
      if_pos (show (Left me).val = 0 from zero)]
    rw [if_pos (by omega)] at right
    rw [if_neg (by omega)]
    omega
  · rw [first, second, if_neg zero, if_neg zero, rank, rank,
      if_neg (show (Left me).val ≠ 0 from zero)]
    show me.val - 1 < _
    split at right
    · rw [if_neg (by omega)]
      omega
    · rw [if_pos right]
      omega

theorem rank_le (c : Fin N) : rank c ≤ N := by
  have bound := c.isLt
  unfold rank
  split <;> omega

/-- Both chopsticks of a philosopher are the two beside him. -/
theorem beside_iff : c = Left me ∨ c = Right me ↔ c = first me ∨ c = second me := by
  unfold first second
  split
  · exact Or.comm
  · rfl

theorem first_ne_second (two : 2 ≤ N) (me : Fin N) : first me ≠ second me := by
  intro same
  have less := rank_first_lt two me
  rw [same] at less
  exact Nat.lt_irrefl _ less

end chopsticks

/-! ### What a step keeps -/

section steps

variable {s s' : State N} {me i c : Fin N}

@[simp] theorem move_main (point : Philosopher) : (s.move me point).main = s.main := rfl

@[simp] theorem move_chopstick (point : Philosopher) :
    (s.move me point).chopstick = s.chopstick := rfl

@[simp] theorem move_i (point : Philosopher) : (s.move me point).i = s.i := rfl

@[simp] theorem move_self (point : Philosopher) : (s.move me point).philosophers me = point :=
  Function.update_self ..

theorem move_other {q : Fin N} (point : Philosopher) (other : q ≠ me) :
    (s.move me point).philosophers q = s.philosophers q := Function.update_of_ne other ..

@[simp] theorem set_main (bytes : Nat) : (s.set c bytes).main = s.main := rfl

@[simp] theorem set_philosophers (bytes : Nat) : (s.set c bytes).philosophers = s.philosophers := rfl

theorem set_chopstick (bytes : Nat) (l : Fin N) :
    (s.set c bytes).chopstick l = if l = c then bytes else s.chopstick l := by
  unfold State.set
  exact Function.update_apply ..

/-- A philosopher moves, and what he takes or puts down is in his hands or back in the pipe. -/
theorem laidOut_moves (s' : State N) (laidOut : LaidOut s) {point : Philosopher}
    (there : s.philosophers me ≠ .notCreated) (points : point ≠ .notCreated)
    (main : s'.main = s.main) (own : s'.philosophers me = point)
    (others : ∀ q, q ≠ me → s'.philosophers q = s.philosophers q)
    (hands : ∀ l, s'.chopstick l + hand me l point = s.chopstick l + hand me l (s.philosophers me)) :
    LaidOut s' where
  conserved := by
    rw [main]
    apply laidOut.conserved.change me
    · intro q other
      funext l
      rw [others q other]
    · intro l
      rw [own, hands l]
  uncreated q may := by
    rw [main] at may
    by_cases same : q = me
    · subst same
      exact absurd (laidOut.uncreated q may) there
    · rw [others q same]
      exact laidOut.uncreated q may
  somebody _ := ⟨me, by rw [own]; exact points⟩

theorem laidOut_go (laidOut : LaidOut s) {point : Philosopher}
    (there : s.philosophers me ≠ .notCreated) (points : point ≠ .notCreated)
    (hands : ∀ l, hand me l point = hand me l (s.philosophers me)) : LaidOut (s.move me point) :=
  laidOut_moves _ laidOut there points rfl (move_self point) (fun _ other => move_other point other)
    fun l => by rw [hands l, move_chopstick]

/-- He takes a chopstick out of its pipe. -/
theorem laidOut_takes (laidOut : LaidOut s) {point : Philosopher} (bytes : s.chopstick c ≠ 0)
    (there : s.philosophers me ≠ .notCreated) (points : point ≠ .notCreated)
    (hands : ∀ l, hand me l point = hand me l (s.philosophers me) + if l = c then 1 else 0) :
    LaidOut ((s.waitsema c).move me point) := by
  apply laidOut_moves ((s.waitsema c).move me point) laidOut there points rfl (move_self point)
    fun _ other => move_other point other
  intro l
  rw [hands l, move_chopstick, State.waitsema, set_chopstick]
  by_cases same : l = c
  · subst same
    rw [if_pos rfl, if_pos rfl]
    omega
  · rw [if_neg same, if_neg same]
    omega

theorem laidOut_puts (laidOut : LaidOut s) {point : Philosopher}
    (there : s.philosophers me ≠ .notCreated) (points : point ≠ .notCreated)
    (hands : ∀ l, hand me l (s.philosophers me) = hand me l point + if l = c then 1 else 0) :
    LaidOut ((s.signal c).move me point) := by
  apply laidOut_moves ((s.signal c).move me point) laidOut there points rfl (move_self point)
    fun _ other => move_other point other
  intro l
  rw [hands l, move_chopstick, State.signal, set_chopstick]
  by_cases same : l = c
  · subst same
    rw [if_pos rfl, if_pos rfl]
    omega
  · rw [if_neg same, if_neg same]
    omega

theorem mayCreate_next (may : (nextFork i).mayCreate me) : i < me := by
  unfold nextFork at may
  split at may
  · exact Fin.lt_def.mpr (Nat.lt_of_lt_of_le (Nat.lt_succ_self _) (Fin.le_def.mp may))
  · exact may.elim

theorem nextFork_laid (c : Fin N) : (nextFork i).laid c = 1 := by
  unfold nextFork
  split <;> rfl

/-- main becomes a philosopher; with its child or without. -/
theorem laidOut_created (laidOut : LaidOut s) (point : s.main = .fork i) {main : MainProcess N}
    (laid : ∀ c, main.laid c = 1) (may : ∀ me, main.mayCreate me → i < me) :
    LaidOut ((s.move i .waitFirst).moveMain main) where
  conserved := by
    have before := laidOut.uncreated i (by rw [point]; exact Nat.le_refl _)
    apply laidOut.conserved.change i
    · intro q other
      funext l
      show hand q l ((s.move i .waitFirst).philosophers q) = _
      rw [move_other _ other]
    · intro l
      show s.chopstick l + hand i l ((s.move i .waitFirst).philosophers i) + _ = _ + main.laid l
      rw [move_self, before, laid l, point]
      rfl
  uncreated me mayBe := by
    have later := may me mayBe
    show (s.move i .waitFirst).philosophers me = _
    rw [move_other _ (Fin.ne_of_gt later)]
    apply laidOut.uncreated
    rw [point]
    exact Nat.le_of_lt later
  somebody _ := by
    refine ⟨i, ?_⟩
    show (s.move i .waitFirst).philosophers i ≠ _
    rw [move_self]
    decide

theorem laidOut_makeSemaphore (laidOut : LaidOut s) (point : s.main = .makeSemaphore i) :
    LaidOut ((s.set i 0).moveMain (.signal i)) where
  conserved := by
    apply laidOut.conserved.lay
    intro l
    have bound := laidOut.conserved.free_le l
    show (s.set i 0).chopstick l + _ = _ + (if l < i then 1 else 0)
    rw [point] at bound ⊢
    rw [set_chopstick]
    change s.chopstick l ≤ if l < i then 1 else 0 at bound
    show _ + (if l < i then 1 else 0) = _
    split
    · rename_i same
      subst same
      rw [if_neg (lt_irrefl l)] at bound ⊢
      omega
    · rfl
  uncreated me _ := laidOut.uncreated me (by rw [point]; trivial)
  somebody exited := by cases exited

theorem laid_nextSemaphore (i c : Fin N) : (nextSemaphore i).laid c = if c ≤ i then 1 else 0 := by
  have bound := c.isLt
  have boundI := i.isLt
  unfold nextSemaphore
  split
  · show (if c < ⟨i.val + 1, _⟩ then 1 else 0) = _
    simp only [Fin.lt_def, Fin.le_def, Nat.lt_succ_iff]
  · show 1 = _
    rw [if_pos (Fin.le_def.mpr (by omega))]

theorem laidOut_signal (laidOut : LaidOut s) (point : s.main = .signal i) :
    LaidOut ((s.signal i).moveMain (nextSemaphore i)) where
  conserved := by
    apply laidOut.conserved.lay
    intro l
    show (s.signal i).chopstick l + _ = _ + (nextSemaphore i).laid l
    rw [laid_nextSemaphore, State.signal, set_chopstick, point]
    show _ + (if l < i then 1 else 0) = _
    by_cases same : l = i
    · subst same
      rw [if_pos rfl, if_neg (lt_irrefl l), if_pos (le_refl l)]
    · rw [if_neg same]
      simp only [le_iff_lt_or_eq, same, or_false]
  uncreated me _ := laidOut.uncreated me (by rw [point]; trivial)
  somebody exited := by
    change nextSemaphore i = _ at exited
    unfold nextSemaphore at exited
    split at exited <;> cases exited

theorem laidOut_step (two : 2 ≤ N) (laidOut : LaidOut s) (step : Step s s') : LaidOut s' := by
  cases step with
  | makeSemaphore point => exact laidOut_makeSemaphore laidOut point
  | signal point => exact laidOut_signal laidOut point
  | fork point =>
    exact laidOut_created laidOut point (fun c => nextFork_laid c) fun _ may => mayCreate_next may
  | forkFails point => exact laidOut_created laidOut point (fun _ => rfl) fun _ may => may.elim
  | @waitFirst me point bytes =>
    apply laidOut_takes laidOut bytes (by rw [point]; decide) (by decide)
    intro l
    rw [point]
    exact (Nat.zero_add _).symm
  | sleepChopstick point =>
    apply laidOut_go laidOut (by rw [point]; decide) (by decide)
    intro l
    rw [point]
    rfl
  | @waitSecond me point bytes =>
    apply laidOut_takes laidOut bytes (by rw [point]; decide) (by decide)
    intro l
    rw [point]
    have apart := first_ne_second two me
    simp only [hand, beside_iff]
    by_cases isFirst : l = first me
    · rw [if_pos (.inl isFirst), if_pos isFirst, if_neg (by rw [isFirst]; exact apart)]
    · simp only [isFirst, false_or, if_false, Nat.zero_add]
  | eating point =>
    apply laidOut_go laidOut (by rw [point]; decide) (by decide)
    intro l
    rw [point]
    rfl
  | @signalLeft me point =>
    apply laidOut_puts laidOut (by rw [point]; decide) (by decide)
    intro l
    rw [point]
    have apart := right_ne two me
    show (if l = Left me ∨ l = Right me then 1 else 0) = (if l = Right me then 1 else 0) + _
    by_cases isRight : l = Right me
    · rw [if_pos (.inr isRight), if_pos isRight, if_neg (by rw [isRight]; exact apart)]
    · simp only [isRight, or_false, if_false, Nat.zero_add]
  | signalRight point =>
    apply laidOut_puts laidOut (by rw [point]; decide) (by decide)
    intro l
    rw [point]
    exact (Nat.zero_add _).symm
  | @thinking me point =>
    apply laidOut_moves ((s.nextRound me).move me .waitFirst) laidOut
      (by rw [point]; decide) (by decide) rfl (move_self _) fun _ other => move_other _ other
    intro l
    rw [point]
    rfl

theorem laidOut_reachable (two : 2 ≤ N) (reachable : (program two).Reachable s) : LaidOut s := by
  apply reachable.invariant
  · intro s start
    rw [show s = _ from start]
    exact {
      conserved := fun l => by
        show 0 + ∑ _me : Fin N, 0 = if l.val < 0 then 1 else 0
        rw [if_neg (Nat.not_lt_zero _), Finset.sum_const_zero, Nat.add_zero]
      uncreated := fun _ _ => rfl
      somebody := fun exited => by cases exited }
  · intro s s' _ laidOut step
    exact laidOut_step two laidOut step

end steps

/-! ### Exclusion and progress -/

section results

variable {s s' : State N} {me : Fin N}

theorem laid_le_one (main : MainProcess N) (c : Fin N) : main.laid c ≤ 1 := by
  unfold MainProcess.laid
  split
  · split <;> omega
  · split <;> omega
  · exact Nat.le_refl 1
  · exact Nat.le_refl 1

/-- Nobody who waits for a chopstick holds one that comes later in the order. -/
theorem hand_waiting (c l : Fin N) (holds : hand me l (s.philosophers me) ≠ 0)
    (waits : WaitsFor s me c) : l = first me ∧ c = second me := by
  rcases waits.1 with ⟨point, _⟩ | ⟨point, isSecond⟩
  · rw [point] at holds
    exact absurd rfl holds
  · rw [point] at holds
    refine ⟨?_, isSecond⟩
    by_contra other
    exact holds (if_neg other)

theorem not_all_wait (two : 2 ≤ N) (laidOut : LaidOut s) (exited : s.main = .exited) :
    ∃ me, s.philosophers me ≠ .notCreated ∧ ∀ c, ¬WaitsFor s me c := by
  by_contra none
  push Not at none
  obtain ⟨me, created⟩ := laidOut.somebody exited
  obtain ⟨c, waits⟩ := none me created
  refine @not_waits_in_order _ _ (WaitsFor s) (fun p l => hand p l (s.philosophers p) ≠ 0)
    rank ?_ ?_ ?_ N rank_le me c waits
  · intro p l m holds waiting
    obtain ⟨isFirst, isSecond⟩ := hand_waiting m l holds waiting
    rw [isFirst, isSecond]
    exact rank_first_lt two p
  · intro p l waiting
    apply laidOut.conserved.exists_holder
    · rw [exited]
      exact Nat.one_ne_zero
    · exact waiting.2
  · intro p l holds
    apply none
    intro missing
    rw [missing] at holds
    exact holds rfl

/-- A created philosopher who waits for nothing takes a step. -/
theorem philosopher_steps (created : s.philosophers me ≠ .notCreated)
    (waits : ∀ c, ¬WaitsFor s me c) : ∃ s', Step s s' := by
  cases point : s.philosophers me with
  | notCreated => exact absurd point created
  | waitFirst => exact ⟨_, .waitFirst point fun none => waits _ ⟨.inl ⟨point, rfl⟩, none⟩⟩
  | sleepChopstick => exact ⟨_, .sleepChopstick point⟩
  | waitSecond => exact ⟨_, .waitSecond point fun none => waits _ ⟨.inr ⟨point, rfl⟩, none⟩⟩
  | eating => exact ⟨_, .eating point⟩
  | signalLeft => exact ⟨_, .signalLeft point⟩
  | signalRight => exact ⟨_, .signalRight point⟩
  | thinking => exact ⟨_, .thinking point⟩

theorem exists_step (two : 2 ≤ N) (laidOut : LaidOut s) : ∃ s', Step s s' := by
  cases point : s.main with
  | makeSemaphore i => exact ⟨_, .makeSemaphore point⟩
  | signal i => exact ⟨_, .signal point⟩
  | fork i => exact ⟨_, .fork point⟩
  | exited =>
    obtain ⟨me, created, waits⟩ := not_all_wait two laidOut point
    exact philosopher_steps created waits

/-- No two philosophers hold one chopstick, so that neighbours do not eat at the same time, no pipe
    ever holds more than one byte, and once the forks are done somebody can always go on. -/
theorem philosophers_safe (two : 2 ≤ N) (reachable : (program two).Reachable s) :
    (∀ p q c, p ≠ q →
        hand p c (s.philosophers p) = 0 ∨ hand q c (s.philosophers q) = 0) ∧
      (∀ p, ¬(s.philosophers p = .eating ∧ s.philosophers (Right p) = .eating)) ∧
      (∀ c, s.chopstick c ≤ 1) ∧
      (s.main = .exited → ∃ me, s.philosophers me ≠ .notCreated ∧ ∀ c, ¬WaitsFor s me c) := by
  have laidOut := laidOut_reachable two reachable
  have exclusive : ∀ p q c, p ≠ q →
      hand p c (s.philosophers p) = 0 ∨ hand q c (s.philosophers q) = 0 := by
    intro p q c apart
    exact laidOut.conserved.exclusive (Ne.symm apart) (laid_le_one s.main c)
  refine ⟨exclusive, ?_, ?_, not_all_wait two laidOut⟩
  · intro p both
    rcases exclusive p (Right p) (Right p) (Ne.symm (right_ne two p)) with free | free
    · rw [both.1] at free
      exact absurd free (by simp [hand])
    · rw [both.2] at free
      exact absurd free (by simp [hand, Left])
  · intro c
    exact Nat.le_trans (laidOut.conserved.free_le c) (laid_le_one s.main c)

def beforeForks : State 2 :=
  ⟨fun _ => 0, .makeSemaphore 0, fun _ => .notCreated, fun _ => 1⟩

def bothCreated : State 2 := ⟨fun _ => 1, .exited, fun _ => .waitFirst, fun _ => 1⟩

theorem beforeForks_reachable : (program (Nat.le_refl 2)).Reachable beforeForks :=
  TransitionSystem.reachable_start rfl

theorem bothCreated_run : (program (Nat.le_refl 2)).Run beforeForks 6 bothCreated := by
  have firstMade := TransitionSystem.Run.nil.step (m := program (Nat.le_refl 2))
    (s := beforeForks) (.makeSemaphore rfl)
  have firstSignalled := firstMade.step (.signal rfl)
  have secondMade := firstSignalled.step (.makeSemaphore rfl)
  have secondSignalled := secondMade.step (.signal rfl)
  have firstForked := secondSignalled.step (.fork rfl)
  have secondForked := firstForked.step (.fork rfl)
  convert secondForked using 1
  ext i
  · revert i
    decide
  · rfl
  · revert i
    decide
  · rfl

theorem philosophers_safe_two :
    (∀ p q c, p ≠ q → hand p c (bothCreated.philosophers p) = 0 ∨
        hand q c (bothCreated.philosophers q) = 0) ∧
      (∀ p, ¬(bothCreated.philosophers p = .eating ∧ bothCreated.philosophers (Right p) = .eating)) ∧
      (∀ c, bothCreated.chopstick c ≤ 1) ∧
      (bothCreated.main = .exited →
        ∃ me, bothCreated.philosophers me ≠ .notCreated ∧ ∀ c, ¬WaitsFor bothCreated me c) :=
  philosophers_safe (Nat.le_refl 2) (bothCreated_run.reachable beforeForks_reachable)

/-! ### The rounds of a run -/

/-- The steps of a round behind a philosopher. -/
def Philosopher.taken : Philosopher → Nat
  | notCreated => 0
  | waitFirst => 1
  | sleepChopstick => 2
  | waitSecond => 3
  | eating => 4
  | signalLeft => 5
  | signalRight => 6
  | thinking => 7

def MainProcess.taken : MainProcess N → Nat
  | makeSemaphore i => 2 * i.val
  | signal i => 2 * i.val + 1
  | fork i => 2 * N + i.val
  | exited => 3 * N

/-- The rounds that all the philosophers together have begun. -/
def rounds (s : State N) : Nat := ∑ me, s.i me

def taken (s : State N) : Nat := s.main.taken + ∑ me, (7 * s.i me + (s.philosophers me).taken)

theorem taken_eq (s : State N) :
    taken s = s.main.taken + (7 * rounds s + ∑ me, (s.philosophers me).taken) := by
  unfold taken rounds
  rw [Finset.sum_add_distrib, ← Finset.mul_sum]

theorem taken_le (s : State N) : taken s ≤ 10 * N + 7 * rounds s := by
  have main : s.main.taken ≤ 3 * N := by
    cases s.main with
    | makeSemaphore i | signal i | fork i =>
      have bound := i.isLt
      simp only [MainProcess.taken]
      omega
    | exited => exact Nat.le_refl _
  have points : ∀ point : Philosopher, point.taken ≤ 7 := by
    intro point
    cases point <;> decide
  have all : ∑ me, (s.philosophers me).taken ≤ ∑ _me : Fin N, 7 :=
    Finset.sum_le_sum fun me _ => points _
  rw [Finset.sum_const, Finset.card_univ, Fintype.card_fin, nsmul_eq_mul, Nat.cast_id] at all
  rw [taken_eq]
  omega

theorem le_taken (s : State N) : 7 * rounds s ≤ taken s := by
  rw [taken_eq]
  omega

/-- A philosopher's own step counts as one. -/
theorem taken_moves (me : Fin N) (s' : State N) (main : s'.main = s.main)
    (others : ∀ q, q ≠ me → s'.philosophers q = s.philosophers q ∧ s'.i q = s.i q)
    (own : 7 * s'.i me + (s'.philosophers me).taken =
      7 * s.i me + (s.philosophers me).taken + 1) : taken s < taken s' := by
  have change := sum_change me (f := fun q => 7 * s.i q + (s.philosophers q).taken)
    (g := fun q => 7 * s'.i q + (s'.philosophers q).taken) fun q other => by
      rw [(others q other).1, (others q other).2]
  unfold taken
  rw [main]
  omega

theorem taken_goes (s' : State N) {point next : Philosopher} (main : s'.main = s.main)
    (rounds : s'.i = s.i) (here : s.philosophers me = point)
    (moved : s'.philosophers = (s.move me next).philosophers)
    (own : next.taken = point.taken + 1) : taken s < taken s' := by
  apply taken_moves me s' main
  · intro q other
    rw [moved, move_other _ other, rounds]
    exact ⟨rfl, rfl⟩
  · rw [moved, move_self, rounds, here, own]
    rfl

theorem nextSemaphore_taken (i : Fin N) : (nextSemaphore i).taken = 2 * i.val + 2 := by
  have bound := i.isLt
  unfold nextSemaphore
  split
  · rfl
  · simp only [MainProcess.taken]
    omega

theorem nextFork_taken (i : Fin N) : 2 * N + i.val < (nextFork i).taken := by
  unfold nextFork
  split
  · exact Nat.lt_succ_self _
  · have bound := i.isLt
    simp only [MainProcess.taken]
    omega

theorem taken_creates (laidOut : LaidOut s) {i : Fin N} (point : s.main = .fork i)
    {main : MainProcess N} (later : 2 * N + i.val < main.taken) :
    taken s < taken ((s.move i .waitFirst).moveMain main) := by
  have before := laidOut.uncreated i (by rw [point]; exact Nat.le_refl _)
  have change := sum_change i (f := fun q => 7 * s.i q + (s.philosophers q).taken)
    (g := fun q => 7 * s.i q + ((s.move i .waitFirst).philosophers q).taken) fun q other => by
      rw [move_other _ other]
  rw [move_self, before] at change
  have created : Philosopher.notCreated.taken ≤ Philosopher.waitFirst.taken := Nat.zero_le _
  unfold taken
  rw [point]
  show 2 * N + i.val + _ <
    main.taken + ∑ q, (7 * s.i q + ((s.move i .waitFirst).philosophers q).taken)
  omega

theorem taken_step (laidOut : LaidOut s) (step : Step s s') : taken s < taken s' := by
  cases step with
  | @makeSemaphore i point =>
    show s.main.taken + _ < (MainProcess.signal i).taken + _
    rw [point]
    exact Nat.add_lt_add_right (Nat.lt_succ_self _) _
  | @signal i point =>
    show s.main.taken + _ < (nextSemaphore i).taken + _
    rw [point, nextSemaphore_taken]
    exact Nat.add_lt_add_right (Nat.lt_succ_self _) _
  | @fork i point => exact taken_creates laidOut point (nextFork_taken i)
  | @forkFails i point =>
    have bound := i.isLt
    exact taken_creates laidOut point (by simp only [MainProcess.taken]; omega)
  | waitFirst point bytes => exact taken_goes _ rfl rfl point rfl rfl
  | sleepChopstick point => exact taken_goes _ rfl rfl point rfl rfl
  | waitSecond point bytes => exact taken_goes _ rfl rfl point rfl rfl
  | eating point => exact taken_goes _ rfl rfl point rfl rfl
  | signalLeft point => exact taken_goes _ rfl rfl point rfl rfl
  | signalRight point => exact taken_goes _ rfl rfl point rfl rfl
  | @thinking me point =>
    refine taken_moves (s := s) me ((s.nextRound me).move me .waitFirst) rfl ?_ ?_
    · intro q other
      exact ⟨move_other _ other, Function.update_of_ne other _ _⟩
    · rw [move_self, point]
      show 7 * Function.update s.i me (s.i me + 1) me + 1 = 7 * s.i me + 7 + 1
      rw [Function.update_self]
      omega

/-- The program never comes to a halt, and however its processes take turns, the philosophers
    together begin a new round at least every 7 steps, but for a bounded number of steps. -/
theorem rounds_go_on (two : 2 ≤ N) (reachable : (program two).Reachable s) {n : Nat}
    (run : (program two).Run s n s') :
    (∃ next, Step s' next) ∧ n + 7 * rounds s ≤ 10 * N + 7 * rounds s' := by
  have grown := run.grows taken (fun s s' before step =>
    taken_step (laidOut_reachable two before) step) reachable
  have least := le_taken s
  have most := taken_le s'
  exact ⟨exists_step two (laidOut_reachable two (run.reachable reachable)), by omega⟩

theorem rounds_go_on_two : (∃ next, Step bothCreated next) ∧
    6 + 7 * rounds beforeForks ≤ 10 * 2 + 7 * rounds bothCreated :=
  rounds_go_on (Nat.le_refl 2) beforeForks_reachable bothCreated_run

end results

end Filosof
