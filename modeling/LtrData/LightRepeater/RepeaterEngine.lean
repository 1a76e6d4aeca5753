import LtrData.Library.TransitionSystem

namespace LightRepeater

def LR_TAIL_TIMEOUT : Nat := 10000
def LR_ID_PERIOD : BitVec 32 := 600000
def LR_MAX_TALK_TIME : Nat := 300000
def LR_MIN_TONECALL_DUR : BitVec 32 := 200

inductive LR_TX_CTL
  | LR_TX_ON
  | LR_TX_OFF
deriving DecidableEq

open LR_TX_CTL

/-- What follows a call of SetTX. -/
inductive Behind
  | start
  | timeout
  | toneCall
  | squelchOpen
  | squelchClose
  | stop
deriving DecidableEq

def Behind.TXCtl : Behind → LR_TX_CTL
  | squelchOpen | squelchClose => LR_TX_ON
  | _ => LR_TX_OFF

/-- Where RepeaterEngine stands: before the statement that is named, in the order of the source. -/
inductive Point
  | setTX (behind : Behind)
  | escape (behind : Behind)
  | startWait
  | readTail
  | readSquelch
  | wait (dwMsecTimeout : Option Nat)
  | timeoutTail
  | timeoutSquelch
  | longSpeaker
  | signoff
  | resetID
  | getRX
  | openSquelch
  | openTail
  | openID
  | toneRing
  | toneStart
  | toneWait
  | toneCheck
  | toneEndStart
  | toneEnd (dwToneCallBeginTime : BitVec 32)
  | markOpen
  | setSquelch
  | closeSquelch
  | setTail
  | resetSquelch
  | closeID
  | stopped
deriving DecidableEq

/-- The global variables, with RepeaterEngine's place and its last call of SetTX. -/
structure State where
  point : Point
  bSquelchOpened : Bool
  bTailTimerEnabled : Bool
  dwLastIDTime : BitVec 32
  dwOpenTime : BitVec 32
  lastSetTX : LR_TX_CTL
  transmitter : LR_TX_CTL

def State.goto (s : State) (point : Point) : State := { s with point }

/-- An exception ends the main loop. In the last call of SetTX, there is nothing to catch it. -/
def State.throw (s : State) : State := s.goto (.setTX .stop)

def afterSetTX : Behind → Point
  | .start => .startWait
  | .timeout => .resetID
  | .toneCall => .toneRing
  | .squelchOpen => .startWait
  | .squelchClose => .closeID
  | .stop => .stopped

/-- One step of RepeaterEngine. The results of the system calls are free, with the tick counts in
    `tick`. -/
inductive Step (LR_CHECK_TONE_CALL : Bool) : State → State → Prop
  | setTX {s : State} {behind : Behind} (point : s.point = .setTX behind) :
    Step _ s { s with point := .escape behind, lastSetTX := behind.TXCtl }
  | escape {s : State} {behind : Behind} (point : s.point = .escape behind) :
    Step _ s { s with point := afterSetTX behind, transmitter := behind.TXCtl }
  | escapeFails {s : State} {behind : Behind} (point : s.point = .escape behind)
    (caught : behind ≠ .stop) : Step _ s s.throw
  | uncaught {s : State} (point : s.point = .escape .stop) : Step _ s (s.goto .stopped)
  | startWait {s : State} (point : s.point = .startWait) : Step _ s (s.goto .readTail)
  | startWaitFails {s : State} (point : s.point = .startWait) : Step _ s s.throw
  | readTail {s : State} (point : s.point = .readTail) :
    Step _ s (s.goto (if s.bTailTimerEnabled then .wait (some LR_TAIL_TIMEOUT) else .readSquelch))
  | readSquelch {s : State} (point : s.point = .readSquelch) :
    Step _ s (s.goto (.wait (if s.bSquelchOpened then some LR_MAX_TALK_TIME else none)))
  | waitFails {s : State} {dwMsecTimeout : Option Nat} (point : s.point = .wait dwMsecTimeout) :
    Step _ s s.throw
  | waitTimeout {s : State} {dwMsecTimeout : Nat} (point : s.point = .wait (some dwMsecTimeout)) :
    Step _ s (s.goto .timeoutTail)
  | waitSignalled {s : State} {dwMsecTimeout : Option Nat} (point : s.point = .wait dwMsecTimeout) :
    Step _ s (s.goto .getRX)
  | timeoutTail {s : State} (point : s.point = .timeoutTail) :
    Step _ s { s with point := .timeoutSquelch, bTailTimerEnabled := false }
  | timeoutSquelch {s : State} (point : s.point = .timeoutSquelch) :
    Step _ s (s.goto (if s.bSquelchOpened then .longSpeaker else .signoff))
  | longSpeaker {s : State} (point : s.point = .longSpeaker) :
    Step _ s { s with point := .setTX .timeout, bSquelchOpened := false }
  | signoff {s : State} (point : s.point = .signoff) : Step _ s (s.goto (.setTX .timeout))
  | resetID {s : State} (point : s.point = .resetID) :
    Step _ s { s with point := .startWait, dwLastIDTime := 0 }
  | getRX {s : State} (point : s.point = .getRX) (MS_CTS_ON : Bool) :
    Step _ s (s.goto (if MS_CTS_ON then .openSquelch else .closeSquelch))
  | getRXFails {s : State} (point : s.point = .getRX) : Step _ s s.throw
  | openSquelch {s : State} (point : s.point = .openSquelch) :
    Step _ s (s.goto (if s.bSquelchOpened then .startWait else .openTail))
  | openTail {s : State} (point : s.point = .openTail) :
    Step _ s { s with point := .openID, bTailTimerEnabled := false }
  | openID {s : State} (point : s.point = .openID) (opened : s.dwLastIDTime ≠ 0) :
    Step _ s (s.goto .setSquelch)
  | openToneCall {s : State} (point : s.point = .openID) (closed : s.dwLastIDTime = 0)
    (check : LR_CHECK_TONE_CALL = true) : Step _ s (s.goto (.setTX .toneCall))
  | openCarrier {s : State} (point : s.point = .openID) (closed : s.dwLastIDTime = 0)
    (check : LR_CHECK_TONE_CALL = false) : Step _ s { s with point := .markOpen, dwLastIDTime := 1 }
  | toneRing {s : State} (point : s.point = .toneRing) (MS_RING_ON : Bool) :
    Step _ s (s.goto (if MS_RING_ON then .toneCheck else .toneStart))
  | toneRingFails {s : State} (point : s.point = .toneRing) : Step _ s s.throw
  | toneStart {s : State} (point : s.point = .toneStart) : Step _ s (s.goto .toneWait)
  | toneStartFails {s : State} (point : s.point = .toneStart) : Step _ s s.throw
  | toneWait {s : State} (point : s.point = .toneWait) : Step _ s (s.goto .toneCheck)
  | toneWaitFails {s : State} (point : s.point = .toneWait) : Step _ s s.throw
  | toneCheck {s : State} (point : s.point = .toneCheck) (MS_CTS_ON MS_RING_ON : Bool) :
    Step _ s (s.goto (if MS_CTS_ON && MS_RING_ON then .toneEndStart else .startWait))
  | toneCheckFails {s : State} (point : s.point = .toneCheck) : Step _ s s.throw
  | toneEndStart {s : State} (point : s.point = .toneEndStart) (tick : BitVec 32) :
    Step _ s (s.goto (.toneEnd tick))
  | toneEndStartFails {s : State} (point : s.point = .toneEndStart) : Step _ s s.throw
  | toneEnd {s : State} {dwToneCallBeginTime : BitVec 32}
    (point : s.point = .toneEnd dwToneCallBeginTime) (tick : BitVec 32) : Step _ s
      (s.goto (if LR_MIN_TONECALL_DUR < tick - dwToneCallBeginTime then .markOpen else .startWait))
  | toneEndTimeout {s : State} {dwToneCallBeginTime : BitVec 32}
    (point : s.point = .toneEnd dwToneCallBeginTime) : Step _ s (s.goto .startWait)
  | toneEndFails {s : State} {dwToneCallBeginTime : BitVec 32}
    (point : s.point = .toneEnd dwToneCallBeginTime) : Step _ s s.throw
  | markOpen {s : State} (point : s.point = .markOpen) (tick : BitVec 32) :
    Step _ s { s with point := .setSquelch, dwOpenTime := tick }
  | setSquelch {s : State} (point : s.point = .setSquelch) :
    Step _ s { s with point := .setTX .squelchOpen, bSquelchOpened := true }
  | closeSquelch {s : State} (point : s.point = .closeSquelch) :
    Step _ s (s.goto (if s.bSquelchOpened then .setTail else .startWait))
  | setTail {s : State} (point : s.point = .setTail) :
    Step _ s { s with point := .resetSquelch, bTailTimerEnabled := true }
  | resetSquelch {s : State} (point : s.point = .resetSquelch) :
    Step _ s { s with point := .setTX .squelchClose, bSquelchOpened := false }
  | closeID {s : State} (point : s.point = .closeID) (tick now : BitVec 32) :
    Step _ s { s with
      point := .startWait
      dwLastIDTime :=
        if s.dwLastIDTime = 0 then 1 else if LR_ID_PERIOD < tick - s.dwLastIDTime then now
        else s.dwLastIDTime }

/-- RepeaterEngine alone. The transmitter may have been left in either state before. -/
def repeaterEngine (LR_CHECK_TONE_CALL : Bool) : TransitionSystem State where
  start s := ∃ lastSetTX transmitter,
    s = ⟨.setTX .start, false, false, 0, 0, lastSetTX, transmitter⟩
  step := Step LR_CHECK_TONE_CALL

/-- The thread is blocked until a line changes. -/
def WaitsForever (s : State) : Prop := s.point = .wait none ∨ s.point = .toneWait

/-! ### The transmitter is off when the thread waits for ever -/

/-- SetTX has been called last to turn the transmitter off, and has done so. -/
def Off (s : State) : Prop := s.lastSetTX = LR_TX_OFF ∧ s.transmitter = LR_TX_OFF

/-- Something ends the time the transmitter is on. -/
def Limited (s : State) : Prop :=
  s.bSquelchOpened = true ∨ s.bTailTimerEnabled = true ∨ Off s

/-- What holds at the places of RepeaterEngine. -/
def Inv (s : State) : Prop :=
  match s.point with
  | .startWait | .readTail | .getRX | .openSquelch | .closeSquelch => Limited s
  | .readSquelch => s.bSquelchOpened = true ∨ Off s
  | .wait none => Off s
  | .wait (some _) => Limited s
  | .resetID | .toneRing | .toneStart | .toneWait | .toneCheck | .toneEndStart | .toneEnd _ => Off s
  | .escape behind =>
    s.lastSetTX = behind.TXCtl ∧
      (behind = .squelchOpen → s.bSquelchOpened = true) ∧
      (behind = .squelchClose → s.bTailTimerEnabled = true)
  | .setTX .squelchOpen => s.bSquelchOpened = true
  | .setTX .squelchClose | .resetSquelch | .closeID => s.bTailTimerEnabled = true
  | _ => True

section steps

variable {LR_CHECK_TONE_CALL : Bool} {s s' : State}

theorem inv_setTX (inv : Inv s) {behind : Behind} (point : s.point = .setTX behind) :
    Inv { s with point := .escape behind, lastSetTX := behind.TXCtl } := by
  unfold Inv at inv
  rw [point] at inv
  refine ⟨rfl, ?_, ?_⟩
  · rintro rfl
    exact inv
  · rintro rfl
    exact inv

theorem inv_escape (inv : Inv s) {behind : Behind} (point : s.point = .escape behind) :
    Inv { s with point := afterSetTX behind, transmitter := behind.TXCtl } := by
  unfold Inv at inv
  rw [point] at inv
  obtain ⟨last, opened, closed⟩ := inv
  cases behind with
  | start => exact .inr (.inr ⟨last, rfl⟩)
  | timeout => exact ⟨last, rfl⟩
  | toneCall => exact ⟨last, rfl⟩
  | squelchOpen => exact .inl (opened rfl)
  | squelchClose => exact closed rfl
  | stop => trivial

theorem inv_step (inv : Inv s) (step : Step LR_CHECK_TONE_CALL s s') : Inv s' := by
  cases step with
  | setTX point => exact inv_setTX inv point
  | escape point => exact inv_escape inv point
  | escapeFails _ _ | uncaught _ | startWaitFails _ | waitFails _ | getRXFails _ | toneRingFails _
  | toneStartFails _ | toneWaitFails _ | toneCheckFails _ | toneEndStartFails _ | toneEndFails _ =>
    trivial
  | waitTimeout _ | timeoutTail _ | longSpeaker _ | signoff _ | openTail _ | openID _ _
  | openToneCall _ _ _ | openCarrier _ _ _ | markOpen _ _ => trivial
  | startWait point | toneStart point | toneWait point | toneEndStart point _ =>
    unfold Inv at inv
    rw [point] at inv
    exact inv
  | setSquelch _ | setTail _ => exact rfl
  | resetID point | toneEndTimeout point =>
    unfold Inv at inv
    rw [point] at inv
    exact .inr (.inr inv)
  | resetSquelch point =>
    unfold Inv at inv
    rw [point] at inv
    exact inv
  | closeID point _ _ =>
    unfold Inv at inv
    rw [point] at inv
    exact .inr (.inl inv)
  | timeoutSquelch _ =>
    by_cases squelch : s.bSquelchOpened = true
    · rw [if_pos squelch]
      trivial
    · rw [if_neg squelch]
      trivial
  | readTail point =>
    unfold Inv at inv
    rw [point] at inv
    by_cases tail : s.bTailTimerEnabled = true
    · rw [if_pos tail]
      exact inv
    · rw [if_neg tail]
      rcases inv with squelch | enabled | off
      · exact .inl squelch
      · exact absurd enabled tail
      · exact .inr off
  | readSquelch point =>
    unfold Inv at inv
    rw [point] at inv
    by_cases squelch : s.bSquelchOpened = true
    · rw [if_pos squelch]
      exact .inl squelch
    · rw [if_neg squelch]
      exact inv.resolve_left squelch
  | @waitSignalled dwMsecTimeout point =>
    unfold Inv at inv
    rw [point] at inv
    cases dwMsecTimeout with
    | none => exact .inr (.inr inv)
    | some _ => exact inv
  | getRX point MS_CTS_ON =>
    unfold Inv at inv
    rw [point] at inv
    cases MS_CTS_ON <;> exact inv
  | openSquelch _ =>
    by_cases squelch : s.bSquelchOpened = true
    · rw [if_pos squelch]
      exact .inl squelch
    · rw [if_neg squelch]
      trivial
  | closeSquelch point =>
    unfold Inv at inv
    rw [point] at inv
    by_cases squelch : s.bSquelchOpened = true
    · rw [if_pos squelch]
      trivial
    · rw [if_neg squelch]
      exact inv
  | toneRing point MS_RING_ON =>
    unfold Inv at inv
    rw [point] at inv
    cases MS_RING_ON <;> exact inv
  | toneCheck point MS_CTS_ON MS_RING_ON =>
    unfold Inv at inv
    rw [point] at inv
    by_cases call : (MS_CTS_ON && MS_RING_ON) = true
    · rw [if_pos call]
      exact inv
    · rw [if_neg call]
      exact .inr (.inr inv)
  | @toneEnd begins point tick =>
    unfold Inv at inv
    rw [point] at inv
    by_cases long : LR_MIN_TONECALL_DUR < tick - begins
    · rw [if_pos long]
      trivial
    · rw [if_neg long]
      exact .inr (.inr inv)

end steps

/-- The thread never waits without a time limit with the transmitter keyed. -/
theorem waits_off {LR_CHECK_TONE_CALL : Bool} {s : State}
    (reachable : (repeaterEngine LR_CHECK_TONE_CALL).Reachable s) (waits : WaitsForever s) :
    s.lastSetTX = LR_TX_OFF ∧ s.transmitter = LR_TX_OFF := by
  have inv : Inv s := by
    apply reachable.invariant
    · intro s start
      rcases start with ⟨_, _, rfl⟩
      trivial
    · intro s s' _ inv step
      exact inv_step inv step
  unfold Inv at inv
  rcases waits with point | point
  · rw [point] at inv
    exact inv
  · rw [point] at inv
    exact inv

theorem waits_off_first : ∃ s, WaitsForever s ∧ s.lastSetTX = LR_TX_OFF ∧ s.transmitter = LR_TX_OFF := by
  have start := TransitionSystem.reachable_start (m := repeaterEngine true)
    ⟨LR_TX_ON, LR_TX_ON, rfl⟩
  have off := (start.step (.setTX rfl)).step (.escape rfl)
  have started := off.step (.startWait rfl)
  have waiting := (started.step (.readTail rfl)).step (.readSquelch rfl)
  exact ⟨_, .inl rfl, waits_off waiting (.inl rfl)⟩

end LightRepeater
