import Mathlib.Logic.Relation

/-- States and the steps between them, of one party or of several that take turns. -/
structure TransitionSystem (σ : Type) where
  start : σ → Prop
  step : σ → σ → Prop

namespace TransitionSystem

variable {σ : Type} {m : TransitionSystem σ}

def Reachable (m : TransitionSystem σ) (s : σ) : Prop :=
  ∃ first, m.start first ∧ Relation.ReflTransGen m.step first s

theorem reachable_start {s : σ} (start : m.start s) : m.Reachable s := ⟨s, start, .refl⟩

theorem Reachable.step {s s' : σ} (reachable : m.Reachable s) (taken : m.step s s') :
    m.Reachable s' := by
  obtain ⟨first, start, steps⟩ := reachable
  exact ⟨first, start, steps.tail taken⟩

theorem Reachable.steps {s s' : σ} (reachable : m.Reachable s)
    (taken : Relation.ReflTransGen m.step s s') : m.Reachable s' := by
  obtain ⟨first, start, steps⟩ := reachable
  exact ⟨first, start, steps.trans taken⟩

/-- A run of so many steps. -/
inductive Run (m : TransitionSystem σ) (s : σ) : Nat → σ → Prop
  | nil : Run m s 0 s
  | step {n : Nat} {s' s'' : σ} (run : Run m s n s') (taken : m.step s' s'') : Run m s (n + 1) s''

theorem exists_run {s s' : σ} (steps : Relation.ReflTransGen m.step s s') : ∃ n, Run m s n s' := by
  induction steps with
  | refl => exact ⟨0, .nil⟩
  | tail _ taken ih =>
    obtain ⟨n, run⟩ := ih
    exact ⟨n + 1, run.step taken⟩

theorem Run.reachable {s s' : σ} {n : Nat} (reachable : m.Reachable s) (run : m.Run s n s') :
    m.Reachable s' := by
  induction run with
  | nil => exact reachable
  | step before taken ih => exact ih.step taken

/-- What every step from a reachable state increases has grown by the length of the run. -/
theorem Run.grows (size : σ → Nat)
    (increases : ∀ s s', m.Reachable s → m.step s s' → size s < size s') {s s' : σ} {n : Nat}
    (reachable : m.Reachable s) (run : m.Run s n s') : size s + n ≤ size s' := by
  induction run with
  | nil => exact Nat.le_refl _
  | step before taken ih =>
    have more := increases _ _ (before.reachable reachable) taken
    omega

/-- What every step from a reachable state decreases bounds the length of the run. -/
theorem Run.shrinks (size : σ → Nat)
    (decreases : ∀ s s', m.Reachable s → m.step s s' → size s' < size s) {s s' : σ} {n : Nat}
    (reachable : m.Reachable s) (run : m.Run s n s') : size s' + n ≤ size s := by
  induction run with
  | nil => exact Nat.le_refl _
  | step before taken ih =>
    have less := decreases _ _ (before.reachable reachable) taken
    omega

/-- What holds at the start and is kept by the steps from reachable states holds in all of them. -/
theorem Reachable.invariant {I : σ → Prop} {s : σ} (reachable : m.Reachable s)
    (starts : ∀ s, m.start s → I s)
    (keeps : ∀ s s', m.Reachable s → I s → m.step s s' → I s') : I s := by
  obtain ⟨first, start, steps⟩ := reachable
  induction steps with
  | refl => exact starts first start
  | tail before taken ih => exact keeps _ _ ⟨first, start, before⟩ ih taken

/-- The runs in which every step meets a condition. -/
def restrict (m : TransitionSystem σ) (condition : σ → σ → Prop) : TransitionSystem σ where
  start := m.start
  step s s' := m.step s s' ∧ condition s s'

theorem Reachable.of_restrict {condition : σ → σ → Prop} {s : σ}
    (reachable : (m.restrict condition).Reachable s) : m.Reachable s :=
  reachable.invariant (fun _ start => reachable_start start) fun _ _ _ before taken =>
    before.step taken.1

/-! ### Runs that end -/

/-- A measure that every step from a reachable state decreases bounds the runs. -/
theorem Reachable.acc (size : σ → Nat)
    (decreases : ∀ s s', m.Reachable s → m.step s s' → size s' < size s) {s : σ}
    (reachable : m.Reachable s) : Acc (fun after before => m.step before after) s := by
  generalize bound : size s = n
  induction n using Nat.strongRecOn generalizing s with
  | _ n ih =>
    constructor
    intro s' taken
    have less := decreases s s' reachable taken
    rw [bound] at less
    exact ih _ less (reachable.step taken) rfl

/-- Where the runs end some state is the last one. -/
theorem Reachable.exists_last {s : σ} (ends : Acc (fun after before => m.step before after) s)
    (reachable : m.Reachable s) : ∃ last, m.Reachable last ∧ ∀ s', ¬m.step last s' := by
  induction ends with
  | intro s _ ih =>
    by_cases more : ∃ s', m.step s s'
    · obtain ⟨s', taken⟩ := more
      exact ih s' taken (reachable.step taken)
    · exact ⟨s, reachable, fun s' taken => more ⟨s', taken⟩⟩

end TransitionSystem
