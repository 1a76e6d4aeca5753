import LtrData.LightRepeater.RepeaterEngine

namespace LightRepeater

open LR_TX_CTL

/-- Where AnnounceEngine stands. The calls of SetTX are two places each, before the sleep and before
    EscapeCommFunction. -/
inductive AnnouncePoint
  | sleep
  | checkTail
  | lookUp
  | setTXOn
  | playAnnouncements
  | checkSquelchAgain
  | checkTailAgain
  | setTXOff
  | escapeOff
  | setTXStop
  | escapeStop
  | stopped
deriving DecidableEq

/-- Both threads over the same variables and the same line. -/
structure Threads where
  repeater : State
  announce : AnnouncePoint

/-- A flag that keeps the thread from going on when it is set. -/
def readFlag (flag : Bool) (onwards back : AnnouncePoint) : AnnouncePoint :=
  if flag then back else onwards

/-- One step of AnnounceEngine. At the place `sleep`, the thread is about to read bSquelchOpened for
    the first time. PlayAnnouncements reads the flags to stop its sounds, and changes nothing. -/
inductive AnnounceStep : Threads → Threads → Prop
  | checkSquelch {t : Threads} (point : t.announce = .sleep) :
    AnnounceStep t { t with announce := readFlag t.repeater.bSquelchOpened .checkTail .sleep }
  | checkTail {t : Threads} (point : t.announce = .checkTail) :
    AnnounceStep t { t with announce := readFlag t.repeater.bTailTimerEnabled .lookUp .sleep }
  | lookUp {t : Threads} (point : t.announce = .lookUp) (registered : Bool) :
    AnnounceStep t { t with announce := if registered then .setTXOn else .sleep }
  | setTXOn {t : Threads} (point : t.announce = .setTXOn) : AnnounceStep t
      ⟨{ t.repeater with transmitter := LR_TX_ON }, .playAnnouncements⟩
  | setTXOnFails {t : Threads} (point : t.announce = .setTXOn) :
    AnnounceStep t { t with announce := .setTXStop }
  | playAnnouncements {t : Threads} (point : t.announce = .playAnnouncements) :
    AnnounceStep t { t with announce := .checkSquelchAgain }
  | checkSquelchAgain {t : Threads} (point : t.announce = .checkSquelchAgain) :
    AnnounceStep t { t with announce := readFlag t.repeater.bSquelchOpened .checkTailAgain .sleep }
  | checkTailAgain {t : Threads} (point : t.announce = .checkTailAgain) :
    AnnounceStep t { t with announce := readFlag t.repeater.bTailTimerEnabled .setTXOff .sleep }
  | setTXOff {t : Threads} (point : t.announce = .setTXOff) :
    AnnounceStep t { t with announce := .escapeOff }
  | escapeOff {t : Threads} (point : t.announce = .escapeOff) : AnnounceStep t
      ⟨{ t.repeater with transmitter := LR_TX_OFF }, .sleep⟩
  | escapeOffFails {t : Threads} (point : t.announce = .escapeOff) :
    AnnounceStep t { t with announce := .setTXStop }
  | setTXStop {t : Threads} (point : t.announce = .setTXStop) :
    AnnounceStep t { t with announce := .escapeStop }
  | escapeStop {t : Threads} (point : t.announce = .escapeStop) : AnnounceStep t
      ⟨{ t.repeater with transmitter := LR_TX_OFF }, .stopped⟩
  | escapeStopFails {t : Threads} (point : t.announce = .escapeStop) :
    AnnounceStep t { t with announce := .stopped }

/-- Both threads, which take turns in any order. -/
def threads (LR_CHECK_TONE_CALL : Bool) : TransitionSystem Threads where
  start t := (repeaterEngine LR_CHECK_TONE_CALL).start t.repeater ∧ t.announce = .sleep
  step t t' := AnnounceStep t t' ∨
    Step LR_CHECK_TONE_CALL t.repeater t'.repeater ∧ t'.announce = t.announce

def SwitchesOff (t : Threads) : Prop := t.announce = .escapeOff ∨ t.announce = .escapeStop

def Open (t : Threads) : Prop :=
  t.repeater.bSquelchOpened = true ∨ t.repeater.bTailTimerEnabled = true

/-- AnnounceEngine has read bSquelchOpened, or both flags, to switch the transmitter off, or is about
    to do so without reading them. -/
def Committed : AnnouncePoint → Prop
  | .checkTailAgain | .setTXOff | .escapeOff | .setTXStop | .escapeStop => True
  | _ => False

/-- Between its check and the switch nothing is opened, and the thread does not stop while something
    is open. -/
def Alone (t t' : Threads) : Prop :=
  (Committed t.announce →
    (t'.repeater.bSquelchOpened = true → t.repeater.bSquelchOpened = true) ∧
      (t'.repeater.bTailTimerEnabled = true → t.repeater.bTailTimerEnabled = true)) ∧
  (t.announce = .setTXOn → t'.announce = .setTXStop → ¬Open t)

/-- What AnnounceEngine knows of the flags. -/
def Known (t : Threads) : Prop :=
  match t.announce with
  | .checkTailAgain => t.repeater.bSquelchOpened = false
  | .setTXOff | .escapeOff | .setTXStop | .escapeStop => ¬Open t
  | _ => True

section steps

variable {LR_CHECK_TONE_CALL : Bool} {t t' : Threads}

theorem known_announce (known : Known t) (step : AnnounceStep t t') (alone : Alone t t') :
    Known t' := by
  cases step with
  | checkSquelch _ =>
    unfold readFlag
    split <;> trivial
  | checkTail _ =>
    unfold readFlag
    split <;> trivial
  | lookUp _ registered => cases registered <;> trivial
  | setTXOn _ | playAnnouncements _ | escapeOff _ | escapeStop _ | escapeStopFails _ => trivial
  | setTXOnFails point => exact alone.2 point rfl
  | checkSquelchAgain _ =>
    unfold readFlag
    by_cases squelch : t.repeater.bSquelchOpened = true
    · rw [if_pos squelch]
      trivial
    · rw [if_neg squelch]
      show t.repeater.bSquelchOpened = false
      rw [← Bool.not_eq_true]
      exact squelch
  | checkTailAgain point =>
    unfold Known at known
    rw [point] at known
    unfold readFlag
    by_cases tail : t.repeater.bTailTimerEnabled = true
    · rw [if_pos tail]
      trivial
    · rw [if_neg tail]
      intro opened
      rcases opened with squelch | enabled
      · rw [show t.repeater.bSquelchOpened = false from known] at squelch
        cases squelch
      · exact tail enabled
  | setTXOff point | escapeOffFails point | setTXStop point =>
    unfold Known at known
    rw [point] at known
    exact known

theorem known_repeater (known : Known t) (same : t'.announce = t.announce) (alone : Alone t t') :
    Known t' := by
  have closed : ∀ _ : Committed t.announce, ¬Open t → ¬Open t' := by
    intro committed shut opened
    rcases opened with squelch | tail
    · exact shut (.inl ((alone.1 committed).1 squelch))
    · exact shut (.inr ((alone.1 committed).2 tail))
  unfold Known at *
  rw [same]
  cases point : t.announce with
  | checkTailAgain =>
    rw [point] at known
    have kept := (alone.1 (by rw [point]; trivial)).1
    show t'.repeater.bSquelchOpened = false
    rw [← Bool.not_eq_true]
    intro squelch
    rw [kept squelch] at known
    cases known
  | setTXOff | escapeOff | setTXStop | escapeStop =>
    rw [point] at known
    exact closed (by rw [point]; trivial) known
  | sleep | checkTail | lookUp | setTXOn | playAnnouncements | checkSquelchAgain | stopped => trivial

/-- In a run in which nothing is opened between AnnounceEngine's check and its switch, it never
    switches the transmitter off while something is open. -/
theorem switchesOff_closed
    (reachable : ((threads LR_CHECK_TONE_CALL).restrict Alone).Reachable t)
    (switches : SwitchesOff t) :
    t.repeater.bSquelchOpened = false ∧ t.repeater.bTailTimerEnabled = false := by
  have known : Known t := by
    apply reachable.invariant
    · intro t start
      unfold Known
      rw [start.2]
      trivial
    · intro t t' _ known step
      rcases step with ⟨announce | ⟨_, same⟩, alone⟩
      · exact known_announce known announce alone
      · exact known_repeater known same alone
  have shut : ¬Open t := by
    unfold Known at known
    rcases switches with point | point
    · rw [point] at known
      exact known
    · rw [point] at known
      exact known
  rw [← Bool.not_eq_true, ← Bool.not_eq_true]
  exact not_or.mp shut

theorem alone_announce (step : AnnounceStep t t')
    (stops : t.announce = .setTXOn → t'.announce = .setTXStop → ¬Open t) : Alone t t' := by
  have same : t'.repeater.bSquelchOpened = t.repeater.bSquelchOpened ∧
      t'.repeater.bTailTimerEnabled = t.repeater.bTailTimerEnabled := by
    cases step <;> exact ⟨rfl, rfl⟩
  refine ⟨fun _ => ⟨?_, ?_⟩, stops⟩
  · rw [same.1]
    exact id
  · rw [same.2]
    exact id

end steps

theorem switchesOff_closed_first : ∃ t, SwitchesOff t ∧
    t.repeater.bSquelchOpened = false ∧ t.repeater.bTailTimerEnabled = false := by
  have go : ∀ {t t'}, ((threads true).restrict Alone).Reachable t → AnnounceStep t t' →
      t'.announce ≠ .setTXStop → ((threads true).restrict Alone).Reachable t' := by
    intro t t' reachable step goesOn
    exact reachable.step ⟨.inl step, alone_announce step fun _ stops => absurd stops goesOn⟩
  have start := TransitionSystem.reachable_start (m := (threads true).restrict Alone)
    (show (threads true).start ⟨⟨.setTX .start, false, false, 0, 0, LR_TX_ON, LR_TX_ON⟩, .sleep⟩ from
      ⟨⟨LR_TX_ON, LR_TX_ON, rfl⟩, rfl⟩)
  have looked := go (go start (.checkSquelch rfl) (by decide)) (.checkTail rfl) (by decide)
  have found := go (go looked (.lookUp rfl true) (by decide)) (.setTXOn rfl) (by decide)
  have played := go found (.playAnnouncements rfl) (by decide)
  have checked := go (go played (.checkSquelchAgain rfl) (by decide)) (.checkTailAgain rfl) (by decide)
  have slept := go checked (.setTXOff rfl) (by decide)
  exact ⟨_, .inl rfl, switchesOff_closed slept (.inl rfl)⟩

/-- The squelch opens while AnnounceEngine sleeps in SetTX. -/
theorem cuts_off : ∃ t, (threads true).Reachable t ∧ SwitchesOff t ∧
    t.repeater.bSquelchOpened = true := by
  have announce : ∀ {t t'}, (threads true).Reachable t → AnnounceStep t t' →
      (threads true).Reachable t' := fun reachable step => reachable.step (.inl step)
  have repeater : ∀ {r r' a}, (threads true).Reachable ⟨r, a⟩ → Step true r r' →
      (threads true).Reachable ⟨r', a⟩ := fun reachable step => reachable.step (.inr ⟨step, rfl⟩)
  have start := TransitionSystem.reachable_start (m := threads true)
    (show (threads true).start ⟨⟨.setTX .start, false, false, 0, 0, LR_TX_ON, LR_TX_ON⟩, .sleep⟩ from
      ⟨⟨LR_TX_ON, LR_TX_ON, rfl⟩, rfl⟩)
  have off := repeater (repeater start (.setTX rfl)) (.escape rfl)
  have waiting := repeater (repeater (repeater off (.startWait rfl)) (.readTail rfl)) (.readSquelch rfl)
  have looked := announce (announce waiting (.checkSquelch rfl)) (.checkTail rfl)
  have found := announce (announce looked (.lookUp rfl true)) (.setTXOn rfl)
  have played := announce found (.playAnnouncements rfl)
  have checked := announce (announce played (.checkSquelchAgain rfl)) (.checkTailAgain rfl)
  have slept := announce checked (.setTXOff rfl)
  have woken := repeater (repeater slept (.waitSignalled rfl)) (.getRX rfl true)
  have opens := repeater (repeater woken (.openSquelch rfl)) (.openTail rfl)
  have toneCall := repeater (repeater (repeater opens (.openToneCall rfl rfl rfl)) (.setTX rfl))
    (.escape rfl)
  have rings := repeater (repeater toneCall (.toneRing rfl true)) (.toneCheck rfl true true)
  have ends := repeater (repeater rings (.toneEndStart rfl 0)) (.toneEnd rfl 300)
  have opened := repeater (repeater ends (.markOpen rfl 300)) (.setSquelch rfl)
  exact ⟨_, opened, .inl rfl, rfl⟩

end LightRepeater
