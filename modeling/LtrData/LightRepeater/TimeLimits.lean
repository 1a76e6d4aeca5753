import LtrData.LightRepeater.RepeaterEngine

namespace LightRepeater

open LR_TX_CTL

def LR_DEBOUNCE_TIME : Nat := 80
def LR_TONECALL_TIMEOUT : Nat := 10000

/-- RepeaterEngine with the time and the times at which its flags last became true. -/
structure Timed where
  engine : State
  now : Nat
  squelchSince : Nat
  tailSince : Nat

def Timed.after (t : Timed) (engine : State) (passed : Nat) : Timed where
  engine := engine
  now := t.now + passed
  squelchSince :=
    if !t.engine.bSquelchOpened && engine.bSquelchOpened then t.now + passed else t.squelchSince
  tailSince :=
    if !t.engine.bTailTimerEnabled && engine.bTailTimerEnabled then t.now + passed else t.tailSince

/-- The milliseconds that pass in a wait: some time until an event, or all of the time limit. The
    waits at the top of the loop and for a tone call go on with a debounce delay. -/
def WaitPasses (dwMsecTimeout : Option Nat) (signalled : Bool) (passed : Nat) : Prop :=
  if signalled then ∀ limit, dwMsecTimeout = some limit → passed ≤ limit
  else dwMsecTimeout = some passed

/-- How long a step may take. Time passes in Sleep, in waits and in the sounds that are played before
    the transmitter is turned off, which are not asynchronous. -/
def Passes (s s' : State) (passed : Nat) : Prop :=
  match s.point with
  | .setTX behind => passed = if behind.TXCtl = LR_TX_OFF then LR_DEBOUNCE_TIME else 0
  | .wait dwMsecTimeout => s'.point = .setTX .stop ∨ ∃ waited,
      WaitPasses dwMsecTimeout (decide (s'.point = .getRX)) waited ∧ passed = waited + LR_DEBOUNCE_TIME
  | .toneWait => s'.point = .setTX .stop ∨ LR_DEBOUNCE_TIME ≤ passed
  | .toneEnd _ => passed ≤ LR_TONECALL_TIMEOUT
  | .markOpen => passed = LR_DEBOUNCE_TIME
  | .longSpeaker | .signoff => True
  | _ => passed = 0

inductive TimedStep (LR_CHECK_TONE_CALL : Bool) : Timed → Timed → Prop
  | step {t : Timed} {engine : State} {passed : Nat} (taken : Step LR_CHECK_TONE_CALL t.engine engine)
    (passes : Passes t.engine engine passed) : TimedStep _ t (t.after engine passed)

def timedEngine (LR_CHECK_TONE_CALL : Bool) : TransitionSystem Timed where
  start t := (repeaterEngine LR_CHECK_TONE_CALL).start t.engine
  step := TimedStep LR_CHECK_TONE_CALL

/-- A wait that starts with a flag true ends in time, but for so many debounce delays. -/
structure InTime (delays : Nat) (t : Timed) : Prop where
  squelch : ∀ dwMsecTimeout, t.engine.point = .wait dwMsecTimeout → t.engine.bSquelchOpened = true →
    ∃ limit, dwMsecTimeout = some limit ∧
      t.now + limit ≤ t.squelchSince + LR_MAX_TALK_TIME + delays * LR_DEBOUNCE_TIME
  tail : ∀ dwMsecTimeout, t.engine.point = .wait dwMsecTimeout → t.engine.bTailTimerEnabled = true →
    ∃ limit, dwMsecTimeout = some limit ∧
      t.now + limit ≤ t.tailSince + LR_TAIL_TIMEOUT + delays * LR_DEBOUNCE_TIME

/-- An event that leaves the flags as they are is only handled within so many debounce delays of the
    opening or closing it comes behind. -/
structure Prompt (delays : Nat) (t : Timed) : Prop where
  squelch : t.engine.point = .openSquelch → t.engine.bSquelchOpened = true →
    t.now ≤ t.squelchSince + delays * LR_DEBOUNCE_TIME
  tail : t.engine.point = .closeSquelch → t.engine.bSquelchOpened = false →
    t.engine.bTailTimerEnabled = true → t.now ≤ t.tailSince + delays * LR_DEBOUNCE_TIME

/-- A flag that is true became true so few debounce delays ago. -/
structure Recent (delays : Nat) (t : Timed) : Prop where
  squelch : t.engine.bSquelchOpened = true → t.now ≤ t.squelchSince + delays * LR_DEBOUNCE_TIME
  tail : t.engine.bTailTimerEnabled = true → t.now ≤ t.tailSince + delays * LR_DEBOUNCE_TIME

/-- Both flags are never true, but while the squelch is being closed. -/
def Exclusive (s : State) : Prop := s.bSquelchOpened = true → s.bTailTimerEnabled = false

def Idle (s : State) : Prop := s.bSquelchOpened = false ∧ s.bTailTimerEnabled = false

/-- What holds at the places of RepeaterEngine. -/
def Timed.Inv (delays : Nat) (t : Timed) : Prop :=
  match t.engine.point with
  | .startWait | .readTail => Exclusive t.engine ∧ Recent delays t
  | .readSquelch => t.engine.bTailTimerEnabled = false ∧ Recent delays t
  | .wait dwMsecTimeout => Exclusive t.engine ∧ Recent delays t ∧
      (t.engine.bTailTimerEnabled = true → dwMsecTimeout = some LR_TAIL_TIMEOUT) ∧
      (t.engine.bSquelchOpened = true → dwMsecTimeout = some LR_MAX_TALK_TIME)
  | .timeoutTail | .getRX | .openSquelch | .closeSquelch => Exclusive t.engine
  | .timeoutSquelch | .longSpeaker => t.engine.bTailTimerEnabled = false
  | .openTail => t.engine.bSquelchOpened = false
  | .setTX .squelchOpen | .escape .squelchOpen =>
    t.engine.bSquelchOpened = true ∧ t.engine.bTailTimerEnabled = false ∧ t.now = t.squelchSince
  | .setTail => t.engine.bSquelchOpened = true ∧ t.engine.bTailTimerEnabled = false
  | .resetSquelch => t.engine.bTailTimerEnabled = true ∧ t.now = t.tailSince
  | .setTX .squelchClose | .escape .squelchClose | .closeID =>
    t.engine.bSquelchOpened = false ∧ t.engine.bTailTimerEnabled = true ∧ t.now = t.tailSince
  | .setTX .stop | .escape .stop | .stopped => True
  | _ => Idle t.engine

section steps

variable {LR_CHECK_TONE_CALL : Bool} {delays passed : Nat} {t : Timed} {engine : State}

theorem top_of_idle (idle : Idle t.engine) : Exclusive t.engine ∧ Recent delays t := by
  refine ⟨fun _ => idle.2, fun opened => ?_, fun enabled => ?_⟩
  · rw [idle.1] at opened
    cases opened
  · rw [idle.2] at enabled
    cases enabled

theorem top_of_opened (tail : t.engine.bTailTimerEnabled = false)
    (recent : t.now ≤ t.squelchSince + delays * LR_DEBOUNCE_TIME) :
    Exclusive t.engine ∧ Recent delays t := by
  refine ⟨fun _ => tail, fun _ => recent, fun enabled => ?_⟩
  rw [tail] at enabled
  cases enabled

theorem top_of_closed (squelch : t.engine.bSquelchOpened = false)
    (recent : t.engine.bTailTimerEnabled = true →
      t.now ≤ t.tailSince + delays * LR_DEBOUNCE_TIME) : Exclusive t.engine ∧ Recent delays t := by
  have never {P : Prop} (opened : t.engine.bSquelchOpened = true) : P := by
    rw [squelch] at opened
    cases opened
  exact ⟨never, never, recent⟩

theorem timed_inv_step (inv : t.Inv delays) (prompt : Prompt delays t)
    (taken : Step LR_CHECK_TONE_CALL t.engine engine) (passes : Passes t.engine engine passed) :
    (t.after engine passed).Inv delays := by
  obtain ⟨s, now, squelchSince, tailSince⟩ := t
  unfold Timed.Inv at inv
  unfold Passes at passes
  unfold Timed.after
  cases taken <;> simp only [State.goto, State.throw, Bool.not_and_self, Bool.false_eq_true, if_false]
  case setTX behind point =>
    rw [point] at inv passes
    cases behind with
    | squelchOpen | squelchClose =>
      obtain rfl : passed = 0 := passes
      exact inv
    | start | timeout | toneCall | stop => exact inv
  case escape behind point =>
    rw [point] at inv passes
    obtain rfl : passed = 0 := passes
    cases behind with
    | start => exact top_of_idle inv
    | squelchOpen => exact top_of_opened inv.2.1 (Nat.le_add_right_of_le (Nat.le_of_eq inv.2.2))
    | timeout | toneCall | squelchClose | stop => exact inv
  case startWait point =>
    rw [point] at inv passes
    obtain rfl : passed = 0 := passes
    exact ⟨inv.1, inv.2.squelch, inv.2.tail⟩
  case readTail point =>
    rw [point] at inv passes
    obtain rfl : passed = 0 := passes
    obtain ⟨exclusive, recent⟩ := inv
    by_cases tail : s.bTailTimerEnabled = true
    · rw [if_pos tail]
      refine ⟨exclusive, ⟨recent.squelch, recent.tail⟩, fun _ => rfl, fun opened => ?_⟩
      rw [exclusive opened] at tail
      cases tail
    · rw [if_neg tail]
      exact ⟨eq_false_of_ne_true tail, recent.squelch, recent.tail⟩
  case readSquelch point =>
    rw [point] at inv passes
    obtain rfl : passed = 0 := passes
    obtain ⟨tail, recent⟩ := inv
    refine ⟨fun _ => tail, ⟨recent.squelch, recent.tail⟩, fun enabled => ?_, fun opened => ?_⟩
    · rw [tail] at enabled
      cases enabled
    · exact if_pos opened
  case waitTimeout point | waitSignalled point =>
    rw [point] at inv
    exact inv.1
  case timeoutTail => exact rfl
  case timeoutSquelch point =>
    rw [point] at inv
    by_cases squelch : s.bSquelchOpened = true
    · rw [if_pos squelch]
      exact inv
    · rw [if_neg squelch]
      exact ⟨eq_false_of_ne_true squelch, inv⟩
  case longSpeaker point =>
    rw [point] at inv
    exact ⟨rfl, inv⟩
  case resetID point | toneEndTimeout point =>
    rw [point] at inv
    exact top_of_idle inv
  case getRX point MS_CTS_ON =>
    rw [point] at inv
    cases MS_CTS_ON <;> exact inv
  case openSquelch point =>
    rw [point] at inv passes
    obtain rfl : passed = 0 := passes
    by_cases squelch : s.bSquelchOpened = true
    · rw [if_pos squelch]
      exact top_of_opened (inv squelch) (prompt.squelch point squelch)
    · rw [if_neg squelch]
      exact eq_false_of_ne_true squelch
  case openTail point =>
    rw [point] at inv
    exact ⟨inv, rfl⟩
  case toneCheck point MS_CTS_ON MS_RING_ON =>
    rw [point] at inv
    by_cases call : (MS_CTS_ON && MS_RING_ON) = true
    · rw [if_pos call]
      exact inv
    · rw [if_neg call]
      exact top_of_idle inv
  case toneEnd begins point tick =>
    rw [point] at inv
    by_cases long : LR_MIN_TONECALL_DUR < tick - begins
    · rw [if_pos long]
      exact inv
    · rw [if_neg long]
      exact top_of_idle inv
  case toneRing point MS_RING_ON =>
    rw [point] at inv
    cases MS_RING_ON <;> exact inv
  case setSquelch point =>
    rw [point] at inv
    have closed : s.bSquelchOpened = false := inv.1
    exact ⟨rfl, inv.2, (if_pos (by simp [closed])).symm⟩
  case closeSquelch point =>
    rw [point] at inv passes
    obtain rfl : passed = 0 := passes
    by_cases squelch : s.bSquelchOpened = true
    · rw [if_pos squelch]
      exact ⟨squelch, inv squelch⟩
    · rw [if_neg squelch]
      have closed := eq_false_of_ne_true squelch
      exact top_of_closed closed (prompt.tail point closed)
  case setTail point =>
    rw [point] at inv
    have disabled : s.bTailTimerEnabled = false := inv.2
    exact ⟨rfl, (if_pos (by simp [disabled])).symm⟩
  case resetSquelch point =>
    rw [point] at inv passes
    obtain rfl : passed = 0 := passes
    exact ⟨rfl, inv.1, inv.2⟩
  case closeID point _ _ =>
    rw [point] at inv passes
    obtain rfl : passed = 0 := passes
    exact top_of_closed inv.1 fun _ => Nat.le_add_right_of_le (Nat.le_of_eq inv.2.2)
  case signoff point | openID point _ | openToneCall point _ _ | openCarrier point _ _ | toneStart point
    | toneWait point | toneEndStart point _ | markOpen point _ =>
    rw [point] at inv
    exact inv
  all_goals trivial

end steps

/-- In every run in which an event that is ignored comes so few debounce delays behind the opening or
    closing, the time limits hold but for these delays. -/
theorem waits_inTime {LR_CHECK_TONE_CALL : Bool} {delays : Nat} {t : Timed}
    (reachable : ((timedEngine LR_CHECK_TONE_CALL).restrict fun t _ => Prompt delays t).Reachable t) :
    InTime delays t := by
  have inv : t.Inv delays := by
    apply reachable.invariant
    · intro t facts
      rcases facts with ⟨_, _, start⟩
      unfold Timed.Inv
      rw [start]
      exact ⟨rfl, rfl⟩
    · intro t _ _ inv facts
      rcases facts with ⟨⟨taken, passes⟩, prompt⟩
      exact timed_inv_step inv prompt taken passes
  constructor
  · intro dwMsecTimeout point opened
    unfold Timed.Inv at inv
    rw [point] at inv
    have recent := inv.2.1.squelch opened
    exact ⟨_, inv.2.2.2 opened, by omega⟩
  · intro dwMsecTimeout point enabled
    unfold Timed.Inv at inv
    rw [point] at inv
    have recent := inv.2.1.tail enabled
    exact ⟨_, inv.2.2.1 enabled, by omega⟩

theorem prompt_of_idle {delays : Nat} {t : Timed} (idle : Idle t.engine) : Prompt delays t := by
  constructor
  · intro _ opened
    rw [idle.1] at opened
    cases opened
  · intro _ _ enabled
    rw [idle.2] at enabled
    cases enabled

theorem prompt_elsewhere {delays : Nat} {t : Timed} (opens : t.engine.point ≠ .openSquelch)
    (closes : t.engine.point ≠ .closeSquelch) : Prompt delays t :=
  ⟨fun point => absurd point opens, fun point => absurd point closes⟩

def talking (gone : Nat) : Timed where
  engine := ⟨.wait (some LR_MAX_TALK_TIME), true, false, 0, 740, LR_TX_ON, LR_TX_ON⟩
  now := 820 + gone * LR_DEBOUNCE_TIME
  squelchSince := 820
  tailSince := 0

/-- The runs in which events are only ignored this promptly. -/
def promptRuns (delays : Nat) : TransitionSystem Timed :=
  (timedEngine true).restrict fun t _ => Prompt delays t

theorem talking_reached (delays : Nat) : (promptRuns delays).Reachable (talking 0) := by
  have idle {t : Timed} {engine : State} {passed : Nat} (reachable : (promptRuns delays).Reachable t)
      (isIdle : Idle t.engine) (taken : Step true t.engine engine)
      (passes : Passes t.engine engine passed) : (promptRuns delays).Reachable (t.after engine passed) :=
    reachable.step ⟨.step taken passes, prompt_of_idle isIdle⟩
  have start : (promptRuns delays).Reachable
      ⟨⟨.setTX .start, false, false, 0, 0, LR_TX_OFF, LR_TX_OFF⟩, 0, 0, 0⟩ :=
    TransitionSystem.reachable_start ⟨_, _, rfl⟩
  have off := idle start ⟨rfl, rfl⟩ (.setTX rfl) rfl
  have top := idle off ⟨rfl, rfl⟩ (.escape rfl) rfl
  have started := idle top ⟨rfl, rfl⟩ (.startWait rfl) rfl
  have noTail := idle started ⟨rfl, rfl⟩ (.readTail rfl) rfl
  have waits := idle noTail ⟨rfl, rfl⟩ (.readSquelch rfl) rfl
  have event := idle waits ⟨rfl, rfl⟩ (.waitSignalled rfl) (.inr ⟨0, nofun, rfl⟩)
  have opens := idle event ⟨rfl, rfl⟩ (.getRX rfl true) rfl
  have noSquelch := idle opens ⟨rfl, rfl⟩ (.openSquelch rfl) rfl
  have stopsTail := idle noSquelch ⟨rfl, rfl⟩ (.openTail rfl) rfl
  have checks := idle stopsTail ⟨rfl, rfl⟩ (.openToneCall rfl rfl rfl) rfl
  have offAgain := idle checks ⟨rfl, rfl⟩ (.setTX rfl) rfl
  have silent := idle offAgain ⟨rfl, rfl⟩ (.escape rfl) rfl
  have rings := idle silent ⟨rfl, rfl⟩ (.toneRing rfl true) rfl
  have valid := idle rings ⟨rfl, rfl⟩ (.toneCheck rfl true true) rfl
  have begins := idle valid ⟨rfl, rfl⟩ (.toneEndStart rfl 240) rfl
  have ends := idle begins ⟨rfl, rfl⟩ (.toneEnd rfl 740) (by decide : 500 ≤ LR_TONECALL_TIMEOUT)
  have marked := idle ends ⟨rfl, rfl⟩ (.markOpen rfl 740) rfl
  have opened := idle marked ⟨rfl, rfl⟩ (.setSquelch rfl) rfl
  have on := opened.step ⟨.step (.setTX rfl) rfl, prompt_elsewhere nofun nofun⟩
  have again := on.step ⟨.step (.escape rfl) rfl, prompt_elsewhere nofun nofun⟩
  have startsAgain := again.step ⟨.step (.startWait rfl) rfl, prompt_elsewhere nofun nofun⟩
  have noTailAgain := startsAgain.step ⟨.step (.readTail rfl) rfl, prompt_elsewhere nofun nofun⟩
  exact noTailAgain.step ⟨.step (.readSquelch rfl) rfl, prompt_elsewhere nofun nofun⟩

theorem waits_inTime_talking : InTime 0 (talking 0) := waits_inTime (talking_reached 0)

/-- Every pulse on the line starts the time limit over again. -/
theorem noise_reached (gone : Nat) : (timedEngine true).Reachable (talking gone) := by
  induction gone with
  | zero => exact (talking_reached 0).of_restrict
  | succ gone ih =>
    have event := ih.step (.step (.waitSignalled rfl) (.inr ⟨0, fun _ _ => Nat.zero_le _, rfl⟩))
    have pulse := event.step (.step (.getRX rfl true) rfl)
    have ignored := pulse.step (.step (.openSquelch rfl) rfl)
    have started := ignored.step (.step (.startWait rfl) rfl)
    have noTail := started.step (.step (.readTail rfl) rfl)
    have later : talking (gone + 1) =
        { talking gone with now := 820 + gone * LR_DEBOUNCE_TIME + LR_DEBOUNCE_TIME } := by
      rw [talking, Nat.add_mul, Nat.one_mul, Nat.add_assoc]
      rfl
    have waits := noTail.step (.step (.readSquelch rfl) rfl)
    rw [later]
    exact waits

theorem talk_time_extended : ¬ ∃ delays, ∀ t, (timedEngine true).Reachable t → InTime delays t := by
  intro facts
  rcases facts with ⟨delays, inTime⟩
  obtain ⟨limit, time, late⟩ := (inTime _ (noise_reached (delays + 1))).squelch _ rfl rfl
  cases time
  simp only [talking] at late
  have delay : 0 < LR_DEBOUNCE_TIME := by decide
  rw [Nat.add_mul] at late
  omega

end LightRepeater
