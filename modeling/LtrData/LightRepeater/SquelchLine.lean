import LtrData.LightRepeater.RepeaterEngine

namespace LightRepeater

open LR_TX_CTL

/-- The COM port: its lines, whether a WaitCommEvent is going on, whether a line has changed since
    the last one was completed, and whether hEvent is signalled. -/
structure Port where
  cts : Bool
  ring : Bool
  waiting : Bool
  changed : Bool
  signalled : Bool

/-- A change completes a WaitCommEvent that is going on, and is kept for the next one otherwise. -/
def Port.change (p : Port) (cts ring : Bool) : Port :=
  if p.waiting then { p with cts, ring, waiting := false, signalled := true }
  else { p with cts, ring, changed := true }

def Port.waitCommEvent (p : Port) : Port :=
  if p.waiting then p
  else if p.changed then { p with changed := false, signalled := true }
  else { p with waiting := true }

/-- A wait for hEvent that succeeds resets it. -/
def Port.reset (p : Port) : Port := { p with signalled := false }

/-- What a step of RepeaterEngine finds of the port and does to it. -/
def Meets (s s' : State) (p p' : Port) : Prop :=
  match s.point with
  | .startWait | .toneStart | .toneEndStart =>
    p' = if s'.point = .setTX .stop then p else p.waitCommEvent
  | .wait _ =>
    p.signalled = true ∧ p' = p.reset ∧ s'.point = .getRX ∨
      p.signalled = false ∧ p' = p ∧ s'.point = .timeoutTail ∨ p' = p ∧ s'.point = .setTX .stop
  | .toneWait =>
    p.signalled = true ∧ p' = p.reset ∧ s'.point = .toneCheck ∨ p' = p ∧ s'.point = .setTX .stop
  | .toneEnd _ =>
    p.signalled = true ∧ p' = p.reset ∨ p.signalled = false ∧ p' = p ∧ s'.point = .startWait ∨
      p' = p ∧ s'.point = .setTX .stop
  | .getRX => p' = p ∧ (s'.point = .openSquelch → p.cts = true) ∧
      (s'.point = .closeSquelch → p.cts = false)
  | .toneRing => p' = p ∧ (s'.point = .toneCheck → p.ring = true) ∧
      (s'.point = .toneStart → p.ring = false)
  | .toneCheck => p' = p ∧ (s'.point = .toneEndStart → p.cts = true ∧ p.ring = true) ∧
      (s'.point = .startWait → p.cts = false ∨ p.ring = false)
  | _ => p' = p

structure Lines where
  engine : State
  port : Port

inductive LineStep : Lines → Lines → Prop
  | change {l : Lines} (cts ring : Bool) (differs : ¬(cts = l.port.cts ∧ ring = l.port.ring)) :
    LineStep l ⟨l.engine, l.port.change cts ring⟩
  | engine {l : Lines} {engine : State} {port : Port} (taken : Step true l.engine engine)
    (meets : Meets l.engine engine l.port port) : LineStep l ⟨engine, port⟩

/-- RepeaterEngine with tone calls at a port whose lines change at any time. -/
def lineEngine : TransitionSystem Lines where
  start l := (repeaterEngine true).start l.engine ∧ ∃ cts ring, l.port = ⟨cts, ring, false, false, false⟩
  step := LineStep

/-- The squelch line is on, or there is still a change for RepeaterEngine to be told of. -/
def Heard (p : Port) : Prop := p.cts = true ∨ p.changed = true ∨ p.signalled = true

/-- The tone call does not end with the squelch closing unless another change comes behind that. -/
def StaysOn (l : Lines) : Prop := l.engine.point = .markOpen → Heard l.port

/-- What holds at the places of RepeaterEngine. -/
def Lines.Inv (l : Lines) : Prop :=
  match l.engine.point with
  | .startWait | .readTail | .readSquelch | .wait _ => l.engine.bSquelchOpened = true → Heard l.port
  | .openSquelch | .setSquelch | .setTX .squelchOpen | .escape .squelchOpen => Heard l.port
  | .openTail | .openID => l.engine.bSquelchOpened = false ∧ Heard l.port
  | .setTX .stop | .escape .stop | .stopped | .timeoutTail | .timeoutSquelch | .longSpeaker | .getRX
  | .markOpen | .closeSquelch | .setTail | .resetSquelch => True
  | _ => l.engine.bSquelchOpened = false

theorem heard_change (p : Port) (cts ring : Bool) : Heard (p.change cts ring) := by
  unfold Port.change
  split
  · exact .inr (.inr rfl)
  · exact .inr (.inl rfl)

theorem Heard.waitCommEvent {p : Port} (heard : Heard p) : Heard p.waitCommEvent := by
  unfold Port.waitCommEvent
  split
  · exact heard
  · split
    · exact .inr (.inr rfl)
    · exact heard

theorem Lines.Inv.mono {s : State} {p p' : Port} (inv : Lines.Inv ⟨s, p⟩) (weaker : Heard p → Heard p') :
    Lines.Inv ⟨s, p'⟩ := by
  revert inv
  unfold Lines.Inv
  dsimp only
  split
  all_goals first
    | exact fun heard opened => weaker (heard opened)
    | exact weaker
    | exact fun ⟨closed, heard⟩ => ⟨closed, weaker heard⟩
    | exact id

section steps

variable {s s' : State} {p p' : Port}

theorem never_opened {P : Prop} (closed : s.bSquelchOpened = false) (opened : s.bSquelchOpened = true) :
    P := by
  rw [closed] at opened
  cases opened

theorem lines_inv_step (inv : Lines.Inv ⟨s, p⟩) (stays : StaysOn ⟨s, p⟩) (taken : Step true s s')
    (meets : Meets s s' p p') : Lines.Inv ⟨s', p'⟩ := by
  unfold Lines.Inv at inv
  unfold Meets at meets
  cases taken
  case setTX behind point =>
    rw [point] at inv meets
    obtain rfl : p' = p := meets
    cases behind <;> exact inv
  case escape behind point =>
    rw [point] at inv meets
    obtain rfl : p' = p := meets
    cases behind with
    | start => exact never_opened inv
    | squelchOpen => exact fun _ => inv
    | timeout | toneCall | squelchClose | stop => exact inv
  case startWait point =>
    rw [point] at inv meets
    obtain rfl : p' = p.waitCommEvent := meets
    exact fun opened => (inv opened).waitCommEvent
  case readTail point =>
    rw [point] at inv meets
    obtain rfl : p' = p := meets
    by_cases tail : s.bTailTimerEnabled = true
    · rw [if_pos tail]
      exact inv
    · rw [if_neg tail]
      exact inv
  case readSquelch point | openTail point | setSquelch point =>
    rw [point] at inv meets
    obtain rfl : p' = p := meets
    exact inv
  case timeoutSquelch point =>
    by_cases squelch : s.bSquelchOpened = true
    · rw [if_pos squelch]
      trivial
    · rw [if_neg squelch]
      exact eq_false_of_ne_true squelch
  case longSpeaker | resetSquelch => exact rfl
  case resetID point | toneEndTimeout point | closeID point _ _ =>
    rw [point] at inv
    exact never_opened inv
  case getRX point MS_CTS_ON =>
    rw [point] at meets
    obtain ⟨rfl, on, -⟩ := meets
    cases MS_CTS_ON with
    | false => trivial
    | true => exact .inl (on rfl)
  case openSquelch point =>
    rw [point] at inv meets
    obtain rfl : p' = p := meets
    by_cases squelch : s.bSquelchOpened = true
    · rw [if_pos squelch]
      exact fun _ => inv
    · rw [if_neg squelch]
      exact ⟨eq_false_of_ne_true squelch, inv⟩
  case openID point _ =>
    rw [point] at inv meets
    obtain rfl : p' = p := meets
    exact inv.2
  case openToneCall point _ _ =>
    rw [point] at inv
    exact inv.1
  case openCarrier check => cases check
  case toneRing point MS_RING_ON =>
    rw [point] at inv
    cases MS_RING_ON <;> exact inv
  case toneCheck point MS_CTS_ON MS_RING_ON =>
    rw [point] at inv
    by_cases call : (MS_CTS_ON && MS_RING_ON) = true
    · rw [if_pos call]
      exact inv
    · rw [if_neg call]
      exact never_opened inv
  case toneEnd begins point tick =>
    rw [point] at inv
    by_cases long : LR_MIN_TONECALL_DUR < tick - begins
    · rw [if_pos long]
      trivial
    · rw [if_neg long]
      exact never_opened inv
  case markOpen point _ =>
    rw [point] at meets
    obtain rfl : p' = p := meets
    exact stays point
  case closeSquelch point =>
    by_cases squelch : s.bSquelchOpened = true
    · rw [if_pos squelch]
      trivial
    · rw [if_neg squelch]
      exact never_opened (eq_false_of_ne_true squelch)
  case signoff point | toneStart point | toneWait point | toneEndStart point _ =>
    rw [point] at inv
    exact inv
  all_goals trivial

end steps

def stayingRuns : TransitionSystem Lines := lineEngine.restrict fun l _ => StaysOn l

theorem stayingRuns_engine {s s' : State} {p p' : Port} (reachable : stayingRuns.Reachable ⟨s, p⟩)
    (elsewhere : s.point ≠ .markOpen) (taken : Step true s s') (meets : Meets s s' p p') :
    stayingRuns.Reachable ⟨s', p'⟩ :=
  reachable.step ⟨.engine taken meets, fun point => absurd point elsewhere⟩

theorem stayingRuns_change {s : State} {p : Port} (reachable : stayingRuns.Reachable ⟨s, p⟩)
    (elsewhere : s.point ≠ .markOpen) (cts ring : Bool) (differs : ¬(cts = p.cts ∧ ring = p.ring)) :
    stayingRuns.Reachable ⟨s, p.change cts ring⟩ :=
  reachable.step ⟨.change cts ring differs, fun point => absurd point elsewhere⟩

def calling : Lines :=
  ⟨⟨.toneEnd 1000, false, false, 0, 0, LR_TX_OFF, LR_TX_OFF⟩, ⟨true, true, true, false, false⟩⟩

theorem calling_reached : stayingRuns.Reachable calling := by
  have start : stayingRuns.Reachable ⟨⟨.setTX .start, false, false, 0, 0, LR_TX_OFF, LR_TX_OFF⟩,
      ⟨false, false, false, false, false⟩⟩ :=
    TransitionSystem.reachable_start ⟨⟨_, _, rfl⟩, _, _, rfl⟩
  have off := stayingRuns_engine start nofun (.setTX rfl) rfl
  have top := stayingRuns_engine off nofun (.escape rfl) rfl
  have started := stayingRuns_engine top nofun (.startWait rfl) rfl
  have noTail := stayingRuns_engine started nofun (.readTail rfl) rfl
  have waits := stayingRuns_engine noTail nofun (.readSquelch rfl) rfl
  have carrier := stayingRuns_change waits nofun true false nofun
  have event := stayingRuns_engine carrier nofun (.waitSignalled rfl) (.inl ⟨rfl, rfl, rfl⟩)
  have opens := stayingRuns_engine event nofun (.getRX rfl true) ⟨rfl, fun _ => rfl, nofun⟩
  have noSquelch := stayingRuns_engine opens nofun (.openSquelch rfl) rfl
  have stopsTail := stayingRuns_engine noSquelch nofun (.openTail rfl) rfl
  have checks := stayingRuns_engine stopsTail nofun (.openToneCall rfl rfl rfl) rfl
  have offAgain := stayingRuns_engine checks nofun (.setTX rfl) rfl
  have silent := stayingRuns_engine offAgain nofun (.escape rfl) rfl
  have noTone := stayingRuns_engine silent nofun (.toneRing rfl false) ⟨rfl, nofun, fun _ => rfl⟩
  have listens := stayingRuns_engine noTone nofun (.toneStart rfl) rfl
  have tone := stayingRuns_change listens nofun true true nofun
  have heard := stayingRuns_engine tone nofun (.toneWait rfl) (.inl ⟨rfl, rfl, rfl⟩)
  have valid := stayingRuns_engine heard nofun (.toneCheck rfl true true)
    ⟨rfl, fun _ => ⟨rfl, rfl⟩, nofun⟩
  exact stayingRuns_engine valid nofun (.toneEndStart rfl 1000) rfl

def relaying (cts ring : Bool) : Lines :=
  ⟨⟨.wait (some LR_MAX_TALK_TIME), true, false, 0, 1500, LR_TX_ON, LR_TX_ON⟩,
    ⟨cts, ring, true, false, false⟩⟩

end LightRepeater
