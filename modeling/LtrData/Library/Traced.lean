import Mathlib.Data.List.Basic

/-- One run of a program: the events it made, in order, and its value or its exception, with the
    state it ended in. -/
inductive Outcome (ε S E α : Type)
  | ok (events : List E) (value : α) (state : S)
  | error (events : List E) (exception : ε) (state : S)
deriving DecidableEq

/-- Programs over a state that leave a history of events and may raise exceptions. -/
def Traced (ε S E α : Type) := S → Outcome ε S E α

variable {ε S E α β : Type}

namespace Outcome

def events : Outcome ε S E α → List E
  | ok events _ _ => events
  | error events _ _ => events

def state : Outcome ε S E α → S
  | ok _ _ state => state
  | error _ _ state => state

def value : Outcome ε S E α → Option α
  | ok _ value _ => some value
  | error _ _ _ => none

def exception : Outcome ε S E α → Option ε
  | ok _ _ _ => none
  | error _ exception _ => some exception

def after (earlier : List E) : Outcome ε S E α → Outcome ε S E α
  | ok events value state => ok (earlier ++ events) value state
  | error events exception state => error (earlier ++ events) exception state

theorem ok_of_value {o : Outcome ε S E α} {a : α} (value : o.value = some a) :
    o = ok o.events a o.state := by
  cases o with
  | ok events b state => rw [Option.some.inj value]; rfl
  | error events e state => cases value

theorem after_after (o : Outcome ε S E α) (t t' : List E) :
    (o.after t).after t' = o.after (t' ++ t) := by
  cases o with
  | ok events value state => simp [after]
  | error events e state => simp [after]

@[simp] theorem after_nil (o : Outcome ε S E α) : o.after [] = o := by cases o <;> rfl

end Outcome

namespace Traced

instance : Monad (Traced ε S E) where
  pure a := fun s => .ok [] a s
  bind x f := fun s =>
    match x s with
    | .ok events a s' => (f a s').after events
    | .error events e s' => .error events e s'

def raise (e : ε) : Traced ε S E α := fun s => .error [] e s

theorem bind_eq_of_ok {x : Traced ε S E α} {f : α → Traced ε S E β} {s s' : S} {events : List E}
    {a : α} (run : x s = .ok events a s') : (x >>= f) s = (f a s').after events := by
  change (match x s with
    | .ok events a s' => (f a s').after events
    | .error events e s' => .error events e s') = _
  rw [run]

theorem bind_eq_of_error {x : Traced ε S E α} {f : α → Traced ε S E β} {s s' : S}
    {events : List E} {e : ε} (run : x s = .error events e s') :
    (x >>= f) s = .error events e s' := by
  change (match x s with
    | .ok events a s' => (f a s').after events
    | .error events e s' => .error events e s') = _
  rw [run]

/-- `Q` holds of a run that ends with a value, `R` of one that raises an exception. It is
    irreducible so that stating it of a program does not run the program. -/
@[irreducible] def Ensures (x : Traced ε S E α) (s : S) (Q : List E → α → S → Prop)
    (R : List E → ε → S → Prop) : Prop :=
  match x s with
  | .ok events a s' => Q events a s'
  | .error events e s' => R events e s'

section Ensures

variable {x : Traced ε S E α} {f : α → Traced ε S E β} {s s' : S} {t : List E}

theorem ensures_of_ok {a : α} (run : x s = .ok t a s') {Q : List E → α → S → Prop}
    {R : List E → ε → S → Prop} : Ensures x s Q R ↔ Q t a s' := by
  unfold Ensures
  rw [run]

theorem ensures_of_error {e : ε} (run : x s = .error t e s') {Q : List E → α → S → Prop}
    {R : List E → ε → S → Prop} : Ensures x s Q R ↔ R t e s' := by
  unfold Ensures
  rw [run]

theorem ensures_pure {a : α} {Q : List E → α → S → Prop} {R : List E → ε → S → Prop} (h : Q [] a s) :
    Ensures (pure a : Traced ε S E α) s Q R := (ensures_of_ok rfl).mpr h

theorem ensures_raise {e : ε} {Q : List E → α → S → Prop} {R : List E → ε → S → Prop}
    (h : R [] e s) : Ensures (raise e) s Q R := (ensures_of_error rfl).mpr h

theorem ensures_of_after {y : Traced ε S E α} (same : x s = (y s').after t)
    {Q : List E → α → S → Prop} {R : List E → ε → S → Prop}
    (h : Ensures y s' (fun t' => Q (t ++ t')) (fun t' => R (t ++ t'))) : Ensures x s Q R := by
  cases next : y s' with
  | ok t' a s'' =>
    rw [next] at same
    exact (ensures_of_ok same).mpr ((ensures_of_ok next).mp h)
  | error t' e s'' =>
    rw [next] at same
    exact (ensures_of_error same).mpr ((ensures_of_error next).mp h)

theorem ensures_bind_ok {a : α} (run : x s = .ok t a s') {Q : List E → β → S → Prop}
    {R : List E → ε → S → Prop}
    (h : Ensures (f a) s' (fun t' => Q (t ++ t')) (fun t' => R (t ++ t'))) :
    Ensures (x >>= f) s Q R := ensures_of_after (bind_eq_of_ok run) h

theorem ensures_bind {Q : List E → β → S → Prop} {R : List E → ε → S → Prop}
    (h : Ensures x s
      (fun t a s' => Ensures (f a) s' (fun t' => Q (t ++ t')) (fun t' => R (t ++ t'))) R) :
    Ensures (x >>= f) s Q R := by
  cases run : x s with
  | ok t a s' => exact ensures_bind_ok run ((ensures_of_ok run).mp h)
  | error t e s' =>
    exact (ensures_of_error (bind_eq_of_error run)).mpr ((ensures_of_error run).mp h)

theorem Ensures.mono {Q Q' : List E → α → S → Prop} {R R' : List E → ε → S → Prop}
    (h : Ensures x s Q R) (value : ∀ t a s', Q t a s' → Q' t a s')
    (exception : ∀ t e s', R t e s' → R' t e s') : Ensures x s Q' R' := by
  cases run : x s with
  | ok t a s' => exact (ensures_of_ok run).mpr (value t a s' ((ensures_of_ok run).mp h))
  | error t e s' => exact (ensures_of_error run).mpr (exception t e s' ((ensures_of_error run).mp h))

theorem Ensures.and {Q Q' : List E → α → S → Prop} {R R' : List E → ε → S → Prop}
    (h : Ensures x s Q R) (h' : Ensures x s Q' R') :
    Ensures x s (fun t a s' => Q t a s' ∧ Q' t a s') (fun t e s' => R t e s' ∧ R' t e s') := by
  cases run : x s with
  | ok t a s' => exact (ensures_of_ok run).mpr ⟨(ensures_of_ok run).mp h, (ensures_of_ok run).mp h'⟩
  | error t e s' =>
    exact (ensures_of_error run).mpr ⟨(ensures_of_error run).mp h, (ensures_of_error run).mp h'⟩

theorem ensures_all {Q : List E → α → S → Prop} {R : List E → ε → S → Prop}
    (value : ∀ t a s', Q t a s') (exception : ∀ t e s', R t e s') : Ensures x s Q R := by
  cases run : x s with
  | ok t a s' => exact (ensures_of_ok run).mpr (value t a s')
  | error t e s' => exact (ensures_of_error run).mpr (exception t e s')

end Ensures

/-- A relation between two states and the events between them that runs can be put together by. -/
structure Composes (P : S → List E → S → Prop) : Prop where
  nil : ∀ s, P s [] s
  append : ∀ {s s' s'' t t'}, P s t s' → P s' t' s'' → P s (t ++ t') s''

/-- As long as only events of `kept` occur, the run stays along `P`, raises only exceptions of `R`,
    and ends in `Q` where it has a value. -/
def Along (kept : E → Prop) (P : S → List E → S → Prop) (R : ε → Prop) (x : Traced ε S E α) (s : S)
    (Q : List E → α → S → Prop) : Prop :=
  Ensures x s (fun t a s' => (∀ e ∈ t, kept e) → P s t s' ∧ Q t a s')
    (fun t e s' => (∀ e ∈ t, kept e) → P s t s' ∧ R e)

section Along

variable {kept : E → Prop} {P : S → List E → S → Prop} {R : ε → Prop} {x : Traced ε S E α}
  {f : α → Traced ε S E β} {s : S}

theorem along_pure (composes : Composes P) {a : α} {Q : List E → α → S → Prop} (h : Q [] a s) :
    Along kept P R (pure a : Traced ε S E α) s Q := ensures_pure fun _ => ⟨composes.nil s, h⟩

theorem along_raise (composes : Composes P) {e : ε} {Q : List E → α → S → Prop} (h : R e) :
    Along kept P R (raise e : Traced ε S E α) s Q := ensures_raise fun _ => ⟨composes.nil s, h⟩

theorem along_of_ok {s' : S} {t : List E} {a : α} (run : x s = .ok t a s')
    {Q : List E → α → S → Prop} (h : (∀ e ∈ t, kept e) → P s t s' ∧ Q t a s') :
    Along kept P R x s Q := (ensures_of_ok run).mpr h

theorem along_of_error {s' : S} {t : List E} {e : ε} (run : x s = .error t e s')
    {Q : List E → α → S → Prop} (h : (∀ e ∈ t, kept e) → P s t s' ∧ R e) :
    Along kept P R x s Q := (ensures_of_error run).mpr h

theorem along_bind (composes : Composes P) {Q : List E → α → S → Prop} {Q' : List E → β → S → Prop}
    (first : Along kept P R x s Q)
    (next : ∀ t a s', P s t s' → Q t a s' →
      Along kept P R (f a) s' (fun t' => Q' (t ++ t'))) : Along kept P R (x >>= f) s Q' := by
  apply ensures_bind
  apply first.mono
  · intro t a s' h
    by_cases holds : ∀ e ∈ t, kept e
    · obtain ⟨along, value⟩ := h holds
      apply (next t a s' along value).mono
      · intro t' b s'' h' all
        obtain ⟨along', value'⟩ := h' fun e mem => all e (List.mem_append_right t mem)
        exact ⟨composes.append along along', value'⟩
      · intro t' e s'' h' all
        obtain ⟨along', exception⟩ := h' fun e mem => all e (List.mem_append_right t mem)
        exact ⟨composes.append along along', exception⟩
    · have barred (t' : List E) : ¬ ∀ e ∈ t ++ t', kept e :=
        fun all => holds fun e mem => all e (List.mem_append_left t' mem)
      exact ensures_all (fun t' _ _ all => absurd all (barred t'))
        (fun t' _ _ all => absurd all (barred t'))
  · intro t e s' h
    exact h

theorem along_bind_ok (composes : Composes P) {s' : S} {t : List E} {a : α}
    (run : x s = .ok t a s') (along : P s t s') {Q : List E → β → S → Prop}
    (next : Along kept P R (f a) s' (fun t' => Q (t ++ t'))) : Along kept P R (x >>= f) s Q := by
  have first : Along kept P R x s fun t' a' s'' => t' = t ∧ a' = a ∧ s'' = s' :=
    along_of_ok run fun _ => ⟨along, rfl, rfl, rfl⟩
  apply along_bind composes first
  intro _ _ _ _ facts
  rcases facts with ⟨rfl, rfl, rfl⟩
  exact next

theorem Along.mono {Q Q' : List E → α → S → Prop} (h : Along kept P R x s Q)
    (weaker : ∀ t a s', P s t s' → Q t a s' → Q' t a s') : Along kept P R x s Q' :=
  Ensures.mono h (fun t a s' h all => ⟨(h all).1, weaker t a s' (h all).1 (h all).2⟩)
    (fun _ _ _ h => h)

theorem Along.weaken {kept' : E → Prop} {P' : S → List E → S → Prop} {Q : List E → α → S → Prop}
    (h : Along kept P R x s Q) (fewer : ∀ e, kept' e → kept e)
    (weaker : ∀ t s', (∀ e ∈ t, kept' e) → P s t s' → P' s t s') : Along kept' P' R x s Q :=
  Ensures.mono h
    (fun t _ s' h all =>
      have h := h fun e mem => fewer e (all e mem)
      ⟨weaker t s' all h.1, h.2⟩)
    (fun t _ s' h all =>
      have h := h fun e mem => fewer e (all e mem)
      ⟨weaker t s' all h.1, h.2⟩)

theorem Along.outcome {Q : List E → α → S → Prop} (h : Along kept P R x s Q)
    (all : ∀ e ∈ (x s).events, kept e) :
    P s (x s).events (x s).state ∧ ∀ e, (x s).exception = some e → R e := by
  cases run : x s with
  | ok t a s' =>
    rw [run] at all
    exact ⟨((ensures_of_ok run).mp h all).1, fun e raised => by cases raised⟩
  | error t e s' =>
    rw [run] at all
    obtain ⟨along, exception⟩ := (ensures_of_error run).mp h all
    refine ⟨along, fun e' raised => ?_⟩
    cases raised
    exact exception

theorem Along.value {Q : List E → α → S → Prop} (h : Along kept P (fun _ => False) x s Q)
    (all : ∀ e ∈ (x s).events, kept e) : ∃ t a s', x s = .ok t a s' ∧ Q t a s' := by
  cases run : x s with
  | ok t a s' =>
    rw [run] at all
    exact ⟨t, a, s', rfl, ((ensures_of_ok run).mp h all).2⟩
  | error t e s' =>
    rw [run] at all
    exact absurd ((ensures_of_error run).mp h all).2 id

end Along

/-- As long as only events of `kept` occur, the run has a value, all of its events are of `made` and
    it ends in `Q`. -/
def Provided (kept made : E → Prop) (x : Traced ε S E α) (s : S) (Q : List E → α → S → Prop) : Prop :=
  Along kept (fun _ t _ => ∀ e ∈ t, made e) (fun _ => False) x s Q

section Provided

variable {kept made : E → Prop} {x : Traced ε S E α} {f : α → Traced ε S E β} {s : S}

theorem composes_true : Composes fun (_ : S) (_ : List E) (_ : S) => True :=
  ⟨fun _ => trivial, fun _ _ => trivial⟩

theorem composes_made (made : E → Prop) :
    Composes fun (_ : S) (t : List E) (_ : S) => ∀ e ∈ t, made e := by
  refine ⟨fun _ _ absurd => (by cases absurd), fun first second e mem => ?_⟩
  rcases List.mem_append.mp mem with mem | mem
  · exact first e mem
  · exact second e mem

theorem provided_pure {a : α} {Q : List E → α → S → Prop} (h : Q [] a s) :
    Provided kept made (pure a : Traced ε S E α) s Q := along_pure (composes_made made) h

theorem provided_of_ok {s' : S} {t : List E} {a : α} (run : x s = .ok t a s')
    {Q : List E → α → S → Prop} (sound : ∀ e ∈ t, made e) (h : (∀ e ∈ t, kept e) → Q t a s') :
    Provided kept made x s Q := along_of_ok run fun all => ⟨sound, h all⟩

theorem provided_bind {Q : List E → α → S → Prop} {Q' : List E → β → S → Prop}
    (first : Provided kept made x s Q)
    (next : ∀ t a s', Q t a s' → Provided kept made (f a) s' (fun t' => Q' (t ++ t'))) :
    Provided kept made (x >>= f) s Q' :=
  along_bind (composes_made made) first fun t a s' _ => next t a s'

theorem provided_bind_ok {s' : S} {t : List E} {a : α} (run : x s = .ok t a s')
    {Q : List E → β → S → Prop} (sound : ∀ e ∈ t, made e := by simp)
    (next : (∀ e ∈ t, kept e) → Provided kept made (f a) s' (fun t' => Q (t ++ t'))) :
    Provided kept made (x >>= f) s Q := by
  have first : Provided kept made x s fun t' a' s'' =>
      (∀ e ∈ t, kept e) ∧ t' = t ∧ a' = a ∧ s'' = s' :=
    provided_of_ok run sound fun all => ⟨all, rfl, rfl, rfl⟩
  apply provided_bind first
  intro _ _ _ facts
  rcases facts with ⟨all, rfl, rfl, rfl⟩
  exact next all

theorem Provided.mono {Q Q' : List E → α → S → Prop} (h : Provided kept made x s Q)
    (weaker : ∀ t a s', Q t a s' → Q' t a s') : Provided kept made x s Q' :=
  Along.mono h fun t a s' _ => weaker t a s'

theorem Provided.events {Q : List E → α → S → Prop} (h : Provided kept made x s Q) :
    Provided kept made x s fun t a s' => Q t a s' ∧ ∀ e ∈ t, made e :=
  Along.mono h fun _ _ _ made value => ⟨value, made⟩

theorem Provided.and {kept' : E → Prop} {P : S → List E → S → Prop} {R : ε → Prop}
    {Q Q' : List E → α → S → Prop} (h : Provided kept made x s Q) (along : Along kept' P R x s Q')
    (fewer : ∀ e, kept e → kept' e) :
    Provided kept made x s fun t a s' => Q t a s' ∧ P s t s' ∧ Q' t a s' := by
  apply (Ensures.and h along).mono
  · intro t a s' both all
    exact ⟨(both.1 all).1, (both.1 all).2, both.2 fun e mem => fewer e (all e mem)⟩
  · intro t e s' both all
    exact both.1 all

theorem Provided.along {R : ε → Prop} {Q : List E → α → S → Prop} (h : Provided kept made x s Q) :
    Along kept (fun _ _ _ => True) R x s Q :=
  Ensures.mono h (fun _ _ _ h all => ⟨trivial, (h all).2⟩) fun _ _ _ h all => (h all).2.elim

theorem Provided.outcome {Q : List E → α → S → Prop} (h : Provided kept made x s Q)
    (all : ∀ e ∈ (x s).events, kept e) : ∃ t a s', x s = .ok t a s' ∧ Q t a s' := Along.value h all

end Provided

/-- As long as only events of `kept` occur, the run ends in `Q`, or in `R` with an exception. -/
def Within (kept : E → Prop) (x : Traced ε S E α) (s : S) (Q : List E → α → S → Prop)
    (R : List E → ε → S → Prop) : Prop :=
  Ensures x s (fun t a s' => (∀ e ∈ t, kept e) → Q t a s')
    (fun t e s' => (∀ e ∈ t, kept e) → R t e s')

section Within

variable {kept made : E → Prop} {x : Traced ε S E α} {f : α → Traced ε S E β} {s : S}

theorem Provided.within {Q : List E → α → S → Prop} (h : Provided kept made x s Q)
    {R : List E → ε → S → Prop} : Within kept x s Q R :=
  Ensures.mono h (fun _ _ _ h all => (h all).2) fun _ _ _ h all => (h all).2.elim

theorem Within.mono {Q Q' : List E → α → S → Prop} {R R' : List E → ε → S → Prop}
    (h : Within kept x s Q R) (value : ∀ t a s', Q t a s' → Q' t a s')
    (exception : ∀ t e s', R t e s' → R' t e s') : Within kept x s Q' R' :=
  Ensures.mono h (fun t a s' h all => value t a s' (h all)) fun t e s' h all => exception t e s' (h all)

theorem within_of_ensures {Q : List E → α → S → Prop} {R : List E → ε → S → Prop}
    (h : Ensures x s Q R) : Within kept x s Q R :=
  Ensures.mono h (fun _ _ _ h _ => h) fun _ _ _ h _ => h

theorem within_bind {Q : List E → α → S → Prop} {Q' : List E → β → S → Prop}
    {R : List E → ε → S → Prop} (first : Provided kept made x s Q)
    (next : ∀ t a s', Q t a s' →
      Within kept (f a) s' (fun t' => Q' (t ++ t')) (fun t' => R (t ++ t'))) :
    Within kept (x >>= f) s Q' R := by
  apply ensures_bind
  apply Ensures.mono first
  · intro t a s' h
    by_cases holds : ∀ e ∈ t, kept e
    · apply Ensures.mono (next t a s' (h holds).2)
      · intro t' b s'' h' all
        exact h' fun e mem => all e (List.mem_append_right t mem)
      · intro t' e s'' h' all
        exact h' fun e mem => all e (List.mem_append_right t mem)
    · exact ensures_all
        (fun t' _ _ all => absurd (fun e mem => all e (List.mem_append_left t' mem)) holds)
        (fun t' _ _ all => absurd (fun e mem => all e (List.mem_append_left t' mem)) holds)
  · intro t e s' h all
    exact (h all).2.elim

theorem Within.value {Q : List E → α → S → Prop} (h : Within kept x s Q fun _ _ _ => False)
    (all : ∀ e ∈ (x s).events, kept e) : ∃ t a s', x s = .ok t a s' ∧ Q t a s' := by
  cases run : x s with
  | ok t a s' =>
    rw [run] at all
    exact ⟨t, a, s', rfl, (ensures_of_ok run).mp h all⟩
  | error t e s' =>
    rw [run] at all
    exact absurd ((ensures_of_error run).mp h all) id

theorem Within.events {P : List E → Prop} (h : Within kept x s (fun t _ _ => P t) fun t _ _ => P t)
    (all : ∀ e ∈ (x s).events, kept e) : P (x s).events := by
  cases run : x s with
  | ok t a s' =>
    rw [run] at all
    exact (ensures_of_ok run).mp h all
  | error t e s' =>
    rw [run] at all
    exact (ensures_of_error run).mp h all

end Within

/-- The run has a value and ends in `Q`, whatever its events are. -/
def Yields (x : Traced ε S E α) (s : S) (Q : α → S → Prop) : Prop :=
  Ensures x s (fun _ => Q) fun _ _ _ => False

section Yields

variable {x : Traced ε S E α} {f : α → Traced ε S E β} {s : S}

theorem yields_pure {a : α} {Q : α → S → Prop} (h : Q a s) :
    Yields (pure a : Traced ε S E α) s Q := ensures_pure h

theorem yields_of_ok {s' : S} {t : List E} {a : α} (run : x s = .ok t a s') {Q : α → S → Prop}
    (h : Q a s') : Yields x s Q := (ensures_of_ok run).mpr h

theorem yields_bind {Q : α → S → Prop} {Q' : β → S → Prop} (first : Yields x s Q)
    (next : ∀ a s', Q a s' → Yields (f a) s' Q') : Yields (x >>= f) s Q' :=
  ensures_bind (Ensures.mono first (fun _ a s' held => next a s' held) fun _ _ _ absurd => absurd)

theorem yields_bind_ok {s' : S} {t : List E} {a : α} (run : x s = .ok t a s') {Q : β → S → Prop}
    (next : Yields (f a) s' Q) : Yields (x >>= f) s Q := ensures_bind_ok run next

theorem yields_of_after {y : Traced ε S E α} {s' : S} {t : List E} (same : x s = (y s').after t)
    {Q : α → S → Prop} (h : Yields y s' Q) : Yields x s Q := ensures_of_after same h

theorem Yields.mono {Q Q' : α → S → Prop} (h : Yields x s Q) (weaker : ∀ a s', Q a s' → Q' a s') :
    Yields x s Q' := Ensures.mono h (fun _ => weaker) fun _ _ _ absurd => absurd

/-- What holds of runs in which anything may occur holds of every run. -/
theorem Provided.yields {made : E → Prop} {Q : List E → α → S → Prop}
    (h : Provided (fun _ => True) made x s Q) : Yields x s fun a s' => ∃ t, Q t a s' :=
  Ensures.mono h (fun t _ _ held => ⟨t, (held fun _ _ => trivial).2⟩)
    fun _ _ _ held => (held fun _ _ => trivial).2

theorem Yields.along {P : S → List E → S → Prop} {R : ε → Prop} {Q : α → S → Prop}
    {Q' : List E → α → S → Prop} (h : Yields x s Q) (along : Along (fun _ => True) P R x s Q') :
    Yields x s fun a s' => Q a s' ∧ ∃ t, P s t s' :=
  (Ensures.and h along).mono (fun t _ _ both => ⟨both.1, t, (both.2 fun _ _ => trivial).1⟩)
    fun _ _ _ both => both.1

theorem Yields.outcome {Q : α → S → Prop} (h : Yields x s Q) :
    ∃ t a s', x s = .ok t a s' ∧ Q a s' := by
  cases run : x s with
  | ok t a s' => exact ⟨t, a, s', rfl, (ensures_of_ok run).mp h⟩
  | error t e s' => exact absurd ((ensures_of_error run).mp h) id

theorem Yields.ended {Q : S → Prop} (h : Yields x s fun _ s' => Q s') :
    (x s).exception = none ∧ Q (x s).state := by
  obtain ⟨t, a, s', run, after⟩ := h.outcome
  rw [run]
  exact ⟨rfl, after⟩

end Yields

end Traced
