import LtrData.Library.TransitionSystem
import Mathlib.Logic.Function.Basic

namespace Tcpfw

inductive Connection
  | localConn
  | remoteConn
deriving DecidableEq

inductive ReadResult
  | data
  | nothing
  | error
deriving DecidableEq

/-- The read of a connection: none that is under way, one that has not ended, one whose result has
    been stored, and one whose event has been signalled after that. -/
inductive PendingRead
  | idle
  | pending
  | stored (result : ReadResult)
  | signalled (result : ReadResult)
deriving DecidableEq

/-- A connection with the event of its WOverlapped. `late` counts the signals that are still to come
    for reads whose result has been taken before. -/
structure Overlapped where
  read : PendingRead
  event : Bool
  late : Nat

/-- Where the loop stands: at its head, before what a statement calls, or behind it. -/
inductive Point
  | loop
  | start (connection : Connection)
  | resetEvent (connection : Connection)
  | readFile (connection : Connection)
  | wait
  | getResult (connection : Connection)
  | bufSend (connection : Connection)
  | resetPolled
  | returned (code : Nat)
deriving DecidableEq

structure State where
  point : Point
  ol : Connection → Overlapped
  readPending : Connection → Bool
  bCancelling : Bool

namespace Overlapped

def resetEvent (ol : Overlapped) : Overlapped := { ol with event := false }

/-- A read that is started resets its event, too. -/
def startRead (ol : Overlapped) : Overlapped := { ol with read := .pending, event := false }

def store (ol : Overlapped) (result : ReadResult) : Overlapped := { ol with read := .stored result }

def signal (ol : Overlapped) (result : ReadResult) : Overlapped :=
  { ol with read := .signalled result, event := true }

def signalLate (ol : Overlapped) : Overlapped := { ol with event := true, late := ol.late - 1 }

/-- The result has been taken. -/
def forward (ol : Overlapped) : Overlapped :=
  match ol.read with
  | .stored _ => { ol with read := .idle, late := ol.late + 1 }
  | _ => { ol with read := .idle }

/-- The read that has ended, as GetOverlappedResult sees it. -/
def result (ol : Overlapped) : Option ReadResult :=
  match ol.read with
  | .stored result | .signalled result => some result
  | _ => none

end Overlapped

namespace State

def goto (s : State) (point : Point) : State := { s with point }

def set (s : State) (connection : Connection) (ol : Overlapped) : State :=
  { s with ol := Function.update s.ol connection ol }

def setPending (s : State) (connection : Connection) (pending : Bool) : State :=
  { s with readPending := Function.update s.readPending connection pending }

def cancel (s : State) : State := { s with bCancelling := true }

end State

/-- What comes behind the part of the loop that starts a read. -/
def behindStart : Connection → Point
  | .localConn => .start .remoteConn
  | .remoteConn => .wait

/-- What comes behind a read that has not ended or has been forwarded. -/
def behindPoll : Connection → Point
  | .localConn => .resetPolled
  | .remoteConn => .loop

/-- What a read or write that fails leads to. -/
def fails (s : State) : Connection → State
  | .localConn => s.cancel.goto .resetPolled
  | .remoteConn => s.goto (.returned 2)

def failCode : Connection → Nat
  | .localConn => 1
  | .remoteConn => 2

open Connection in
/-- One step of the loop, or of a read that ends. -/
inductive Step : State → State → Prop
  | leave {s : State} (point : s.point = .loop) (cancelling : s.bCancelling = true) :
    Step s (s.goto (.returned 0))
  | enter {s : State} (point : s.point = .loop) (going : s.bCancelling = false) :
    Step s (s.goto (.start localConn))
  | start {s : State} {c : Connection} (point : s.point = .start c) (none : s.readPending c = false) :
    Step s ((s.setPending c true).goto (.resetEvent c))
  | started {s : State} {c : Connection} (point : s.point = .start c)
    (pending : s.readPending c = true) : Step s (s.goto (behindStart c))
  | resetEvent {s : State} {c : Connection} (point : s.point = .resetEvent c) :
    Step s ((s.set c (s.ol c).resetEvent).goto (.readFile c))
  | readFile {s : State} {c : Connection} (point : s.point = .readFile c) :
    Step s ((s.set c (s.ol c).startRead).goto (behindStart c))
  | readFails {s : State} {c : Connection} (point : s.point = .readFile c) :
    Step s (s.goto (.returned (failCode c)))
  | wait {s : State} {c : Connection} (point : s.point = .wait) (event : (s.ol c).event = true) :
    Step s (s.goto (.getResult localConn))
  | waitFails {s : State} (point : s.point = .wait) : Step s (s.goto (.returned 0))
  | incomplete {s : State} {c : Connection} (point : s.point = .getResult c)
    (pending : (s.ol c).read = .pending) : Step s (s.goto (behindPoll c))
  | data {s : State} {c : Connection} (point : s.point = .getResult c)
    (ended : (s.ol c).result = some .data) : Step s (s.goto (.bufSend c))
  | ends {s : State} {c : Connection} {result : ReadResult} (point : s.point = .getResult c)
    (ended : (s.ol c).result = some result) (none : result ≠ .data) : Step s (fails s c)
  | bufSend {s : State} {c : Connection} (point : s.point = .bufSend c) :
    Step s (((s.set c (s.ol c).forward).setPending c false).goto (behindPoll c))
  | sendFails {s : State} {c : Connection} (point : s.point = .bufSend c) : Step s (fails s c)
  | resetPolled {s : State} (point : s.point = .resetPolled) :
    Step s ((s.set localConn (s.ol localConn).resetEvent).goto (.getResult remoteConn))
  | store {s : State} {c : Connection} (result : ReadResult) (pending : (s.ol c).read = .pending) :
    Step s (s.set c ((s.ol c).store result))
  | signal {s : State} {c : Connection} (result : ReadResult)
    (stored : (s.ol c).read = .stored result) : Step s (s.set c ((s.ol c).signal result))
  | signalLate {s : State} {c : Connection} (late : (s.ol c).late ≠ 0) :
    Step s (s.set c (s.ol c).signalLate)

/-- AsyncBufferedSwitch behind the creation of its events. -/
def asyncBufferedSwitch : TransitionSystem State where
  start s := s = ⟨.loop, fun _ => ⟨.idle, false, 0⟩, fun _ => false, false⟩
  step := Step

/-- The read has ended, and what it has delivered has not been forwarded. -/
def Completed (ol : Overlapped) : Prop := ∃ result, ol.read = .signalled result

/-- The read that has ended is seen by WaitForMultipleObjects. -/
def Seen (s : State) (c : Connection) : Prop := Completed (s.ol c) → (s.ol c).event = true

/-- When the local event is reset behind the poll, no local read has ended since. -/
def Undisturbed (s _ : State) : Prop :=
  s.point = .resetPolled → Completed (s.ol .localConn) → s.bCancelling = true

section steps

variable {s s' : State} {c d : Connection}

@[simp] theorem set_self (ol : Overlapped) : (s.set c ol).ol c = ol := Function.update_self ..

theorem set_other (ol : Overlapped) (other : d ≠ c) : (s.set c ol).ol d = s.ol d :=
  Function.update_of_ne other ..

theorem forward_read (ol : Overlapped) : ol.forward.read = .idle := by
  unfold Overlapped.forward
  split <;> rfl

/-- The points from the head of the loop to the wait. -/
def Starting : Point → Prop
  | .start _ | .resetEvent _ | .readFile _ | .wait => True
  | _ => False

/-- A read is started where none is under way, and only while the loop is not to be left. -/
structure InOrder (s : State) : Prop where
  idle : ∀ c, s.readPending c = false → (s.ol c).read = .idle
  starting : ∀ c, s.point = .resetEvent c ∨ s.point = .readFile c →
    s.readPending c = true ∧ (s.ol c).read = .idle
  going : Starting s.point → s.bCancelling = false

theorem inOrder_set (inOrder : InOrder s) (ol : Overlapped)
    (busy : ol.read = .idle ↔ (s.ol c).read = .idle) : InOrder (s.set c ol) := by
  have same : ∀ d, ((s.set c ol).ol d).read = .idle ↔ (s.ol d).read = .idle := by
    intro d
    by_cases here : d = c
    · rw [here, set_self]
      exact busy
    · rw [set_other _ here]
  exact ⟨fun d none => (same d).mpr (inOrder.idle d none),
    fun d point => ⟨(inOrder.starting d point).1, (same d).mpr (inOrder.starting d point).2⟩,
    inOrder.going⟩

theorem inOrder_goto {point : Point} (inOrder : InOrder s)
    (starting : ∀ c, point = .resetEvent c ∨ point = .readFile c →
      s.readPending c = true ∧ (s.ol c).read = .idle)
    (going : Starting point → s.bCancelling = false) : InOrder (s.goto point) :=
  ⟨inOrder.idle, starting, going⟩

theorem inOrder_away {point : Point} (inOrder : InOrder s) (away : ¬Starting point) :
    InOrder (s.goto point) := by
  apply inOrder_goto inOrder
  · intro c here
    rcases here with rfl | rfl
    · exact absurd trivial away
    · exact absurd trivial away
  · intro starting
    exact absurd starting away

theorem inOrder_behindStart (inOrder : InOrder s) (going : s.bCancelling = false) :
    InOrder (s.goto (behindStart c)) := by
  apply inOrder_goto inOrder
  · intro d here
    cases c with
    | localConn => rcases here with here | here <;> cases here
    | remoteConn => rcases here with here | here <;> cases here
  · exact fun _ => going

theorem away_behindPoll : ¬Starting (behindPoll c) := by
  cases c <;> exact fun starting => starting

theorem inOrder_fails (inOrder : InOrder s) : InOrder (fails s c) := by
  cases c with
  | localConn => exact {
      idle := inOrder.idle
      starting := by
        intro d here
        rcases here with here | here <;> cases here
      going := fun starting => absurd starting fun starting => starting }
  | remoteConn => exact inOrder_away inOrder fun starting => starting

theorem inOrder_step (inOrder : InOrder s) (step : Step s s') : InOrder s' := by
  have going : ∀ {point}, s.point = point → Starting point → s.bCancelling = false := by
    intro point here starting
    exact inOrder.going (here ▸ starting)
  cases step with
  | leave _ _ => exact inOrder_away inOrder fun starting => starting
  | enter _ enters =>
    apply inOrder_goto inOrder
    · intro c here
      rcases here with here | here <;> cases here
    · exact fun _ => enters
  | @start c point none =>
    have idle := inOrder.idle c none
    refine ⟨fun d pending => ?_, fun d here => ?_, fun _ => going point trivial⟩
    · by_cases same : d = c
      · rw [same]
        exact idle
      · apply inOrder.idle d
        exact (Function.update_of_ne same ..).symm.trans pending
    · rcases here with here | here
      · cases here
        exact ⟨Function.update_self .., idle⟩
      · cases here
  | started point _ => exact inOrder_behindStart inOrder (going point trivial)
  | @resetEvent c point =>
    have idle := inOrder.starting c (.inl point)
    apply inOrder_goto (inOrder_set inOrder (s.ol c).resetEvent Iff.rfl)
    · intro d here
      rcases here with here | here
      · cases here
      · cases here
        rw [set_self]
        exact idle
    · exact fun _ => going point trivial
  | @readFile c point =>
    have pending := (inOrder.starting c (.inr point)).1
    refine ⟨fun d none => ?_, fun d here => ?_, fun _ => going point trivial⟩
    · by_cases same : d = c
      · subst same
        exact absurd (pending.symm.trans none) (by decide)
      · show ((s.set c (s.ol c).startRead).ol d).read = .idle
        rw [set_other _ same]
        exact inOrder.idle d none
    · cases c with
      | localConn => rcases here with here | here <;> cases here
      | remoteConn => rcases here with here | here <;> cases here
  | readFails _ => exact inOrder_away inOrder fun starting => starting
  | wait _ _ => exact inOrder_away inOrder fun starting => starting
  | waitFails _ => exact inOrder_away inOrder fun starting => starting
  | incomplete _ _ => exact inOrder_away inOrder away_behindPoll
  | data _ _ => exact inOrder_away inOrder fun starting => starting
  | ends _ _ _ => exact inOrder_fails inOrder
  | @bufSend c point =>
    have taken : ∀ d, (s.readPending d = false → (s.ol d).read = .idle) →
        (Function.update s.readPending c false d = false →
          ((s.set c (s.ol c).forward).ol d).read = .idle) := by
      intro d before none
      by_cases same : d = c
      · rw [same, set_self, forward_read]
      · rw [Function.update_of_ne same] at none
        rw [set_other _ same]
        exact before none
    refine ⟨fun d => taken d (inOrder.idle d), fun d here => ?_, fun starting => ?_⟩
    · cases c with
      | localConn => rcases here with here | here <;> cases here
      | remoteConn => rcases here with here | here <;> cases here
    · exact absurd starting away_behindPoll
  | sendFails _ => exact inOrder_fails inOrder
  | resetPolled _ => exact inOrder_away (inOrder_set inOrder _ Iff.rfl) fun starting => starting
  | store _ pending =>
    apply inOrder_set inOrder
    rw [pending]
    exact iff_of_false (fun same => by cases same) fun same => by cases same
  | signal _ stored =>
    apply inOrder_set inOrder
    rw [stored]
    exact iff_of_false (fun same => by cases same) fun same => by cases same
  | signalLate _ => exact inOrder_set inOrder _ Iff.rfl

theorem seen_set (seen : Seen s d) {ol : Overlapped} (own : d = c → Completed ol → ol.event = true) :
    Seen (s.set c ol) d := by
  intro completed
  by_cases same : d = c
  · subst same
    rw [set_self] at completed ⊢
    exact own rfl completed
  · rw [set_other _ same] at completed ⊢
    exact seen completed

theorem not_completed {ol : Overlapped} (running : ∀ result, ol.read ≠ .signalled result) :
    ¬Completed ol := by
  intro completed
  rcases completed with ⟨result, signalled⟩
  exact running result signalled

theorem seen_step (inOrder : InOrder s) (seen : Seen s d) (step : Step s s')
    (kept : s.point = .resetPolled → d = .localConn → ¬Completed (s.ol d)) : Seen s' d := by
  cases step with
  | leave _ _ | enter _ _ | start _ _ | started _ _ | readFails _ | wait _ _ | waitFails _
  | incomplete _ _ | data _ _ => exact seen
  | @ends c _ _ _ _ => cases c <;> exact seen
  | @sendFails c _ => cases c <;> exact seen
  | resetEvent point =>
    have idle := (inOrder.starting _ (.inl point)).2
    refine seen_set seen fun _ completed => absurd completed (not_completed fun result same => ?_)
    rw [show (s.ol _).resetEvent.read = (s.ol _).read from rfl, idle] at same
    cases same
  | readFile _ =>
    exact seen_set seen fun _ completed =>
      absurd completed (not_completed fun result same => by cases same)
  | bufSend _ =>
    refine seen_set seen fun _ completed => absurd completed (not_completed fun result same => ?_)
    rw [forward_read] at same
    cases same
  | resetPolled point => exact seen_set seen fun own completed => absurd (own ▸ completed) (kept point own)
  | store _ _ =>
    exact seen_set seen fun _ completed =>
      absurd completed (not_completed fun result same => by cases same)
  | signal _ _ => exact seen_set seen fun _ _ => rfl
  | signalLate _ => exact seen_set seen fun _ _ => rfl

theorem cancelling_step (step : Step s s') (cancelling : s.bCancelling = true) :
    s'.bCancelling = true := by
  cases step with
  | @ends c _ _ _ _ => cases c <;> first | rfl | exact cancelling
  | @sendFails c _ => cases c <;> first | rfl | exact cancelling
  | _ => exact cancelling

theorem inOrder_reachable (reachable : asyncBufferedSwitch.Reachable s) : InOrder s := by
  apply reachable.invariant
  · intro s start
    rw [show s = _ from start]
    refine ⟨fun _ _ => rfl, fun _ here => ?_, fun starting => absurd starting fun none => none⟩
    rcases here with here | here <;> cases here
  · intro s s' _ inOrder step
    exact inOrder_step inOrder step

/-- The remote connection never loses a signal. -/
theorem remote_seen (reachable : asyncBufferedSwitch.Reachable s) : Seen s .remoteConn := by
  apply reachable.invariant
  · intro s start completed
    rw [show s = _ from start] at completed
    rcases completed with ⟨result, same⟩
    cases same
  · intro s s' before seen step
    exact seen_step (inOrder_reachable before) seen step fun _ other => by cases other

end steps

/-- In a run in which no local read ends between the poll and the reset behind it, every read that
    has ended is seen by the wait. -/
theorem wait_seen {s : State} (reachable : (asyncBufferedSwitch.restrict Undisturbed).Reachable s)
    (wait : s.point = .wait) (c : Connection) : Seen s c := by
  have seen : s.bCancelling = true ∨ ∀ d, Seen s d := by
    apply reachable.invariant
    · intro s start
      right
      intro d completed
      rw [show s = _ from start] at completed
      rcases completed with ⟨result, same⟩
      cases same
    · intro s s' before seen step
      rcases seen with cancelling | seen
      · exact .inl (cancelling_step step.1 cancelling)
      · by_cases cancelling : s.bCancelling = true
        · exact .inl (cancelling_step step.1 cancelling)
        · right
          intro d
          apply seen_step (inOrder_reachable before.of_restrict) (seen d) step.1
          intro point isLocal completed
          subst isLocal
          exact cancelling (step.2 point completed)
  have going := (inOrder_reachable reachable.of_restrict).going (by rw [wait]; trivial)
  exact seen.resolve_left (by rw [going]; decide) c

theorem undisturbed_away {s s' : State} (away : s.point ≠ .resetPolled) : Undisturbed s s' :=
  fun here => absurd here away

/-- Both reads have been started, and the local one ends before the wait. -/
theorem wait_seen_local : ∃ s, s.point = .wait ∧ Completed (s.ol .localConn) ∧ Seen s .localConn := by
  have start := TransitionSystem.reachable_start (m := asyncBufferedSwitch.restrict Undisturbed) rfl
  have entered := start.step ⟨.enter rfl rfl, undisturbed_away (by decide)⟩
  have localStart := entered.step ⟨.start rfl rfl, undisturbed_away (by decide)⟩
  have localReset := localStart.step ⟨.resetEvent rfl, undisturbed_away (by decide)⟩
  have localRead := localReset.step ⟨.readFile rfl, undisturbed_away (by decide)⟩
  have remoteStart := localRead.step ⟨.start rfl (by decide), undisturbed_away (by decide)⟩
  have remoteReset := remoteStart.step ⟨.resetEvent rfl, undisturbed_away (by decide)⟩
  have remoteRead := remoteReset.step ⟨.readFile rfl, undisturbed_away (by decide)⟩
  have stored := remoteRead.step
    ⟨.store (c := .localConn) .data (by decide), undisturbed_away (by decide)⟩
  have signalled := stored.step
    ⟨.signal (c := .localConn) .data (by decide), undisturbed_away (by decide)⟩
  exact ⟨_, rfl, ⟨.data, by decide⟩, wait_seen signalled rfl .localConn⟩

/-- A local read that ends right behind its poll is not seen by the wait. -/
theorem wait_unseen : ∃ s, asyncBufferedSwitch.Reachable s ∧ s.point = .wait ∧
    ¬Seen s .localConn := by
  have start := TransitionSystem.reachable_start (m := asyncBufferedSwitch) rfl
  have entered := start.step (.enter rfl rfl)
  have localRead := ((entered.step (.start rfl rfl)).step (.resetEvent rfl)).step (.readFile rfl)
  have remoteRead := ((localRead.step (.start rfl (by decide))).step (.resetEvent rfl)).step
    (.readFile rfl)
  have remoteEnds := (remoteRead.step (.store (c := .remoteConn) .data (by decide))).step
    (.signal (c := .remoteConn) .data (by decide))
  have polled := (remoteEnds.step (.wait (c := .remoteConn) rfl (by decide))).step
    (.incomplete rfl (by decide))
  have localEnds := (polled.step (.store (c := .localConn) .data (by decide))).step
    (.signal (c := .localConn) .data (by decide))
  have reset := localEnds.step (.resetPolled rfl)
  have forwarded := (reset.step (.data rfl (by decide))).step (.bufSend rfl)
  have again := ((forwarded.step (.enter rfl rfl)).step (.started rfl (by decide)))
  have waiting := ((again.step (.start rfl (by decide))).step (.resetEvent rfl)).step (.readFile rfl)
  refine ⟨_, waiting, rfl, fun seen => ?_⟩
  have event := seen ⟨.data, by decide⟩
  revert event
  decide

end Tcpfw
