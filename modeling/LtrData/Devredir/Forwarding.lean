import LtrData.Library.TransitionSystem
import Mathlib.Logic.Function.Basic

namespace Devredir

abbrev Octet := BitVec 8

def PACKET_SIZE : Nat := 128

/-- The two descriptors of a connection. -/
inductive Descriptor
  | connsocket
  | iodev
deriving DecidableEq

/-- Where the packets from a descriptor go. -/
def Descriptor.target : Descriptor → Descriptor
  | .connsocket => .iodev
  | .iodev => .connsocket

/-- Where the loop stands: at its head, before a packet is read from a descriptor, before select for
    sending it, in the loop that sends it, or behind the loop. `iodevSet` tells whether the first
    select has found the device readable, too. -/
inductive Point
  | select
  | recv (source : Descriptor) (iodevSet : Bool)
  | ready (source : Descriptor) (iodevSet : Bool)
  | send (source : Descriptor) (iodevSet : Bool)
  | closed
deriving DecidableEq

/-- `received` is what has been read from each descriptor, `accepted` what write or send has taken
    of the packets that came from it. -/
structure State where
  point : Point
  received : Descriptor → List Octet
  accepted : Descriptor → List Octet
  packet : List Octet
  packlen : Nat

namespace State

/-- Behind the code for packets from the socket the device comes next if it was readable. -/
def next (s : State) (source : Descriptor) (iodevSet : Bool) : State :=
  match source with
  | .connsocket => if iodevSet then { s with point := .recv .iodev true } else { s with point := .select }
  | .iodev => { s with point := .select }

def select (s : State) (connsocketSet iodevSet : Bool) : State :=
  if connsocketSet then { s with point := .recv .connsocket iodevSet }
  else if iodevSet then { s with point := .recv .iodev true }
  else { s with point := .closed }

def recv (s : State) (source : Descriptor) (iodevSet : Bool) (packet : List Octet) : State :=
  { s with
    point := .ready source iodevSet
    received := Function.update s.received source (s.received source ++ packet)
    packet
    packlen := packet.length }

/-- write or send is passed the start of the packet each time, with the length that is left. -/
def send (s : State) (source : Descriptor) (count : Nat) : State :=
  { s with
    accepted := Function.update s.accepted source (s.accepted source ++ s.packet.take count)
    packlen := s.packlen - count }

def close (s : State) : State := { s with point := .closed }

end State

/-- The steps, whatever select, recv, read, write and send return. -/
inductive Step : State → State → Prop
  | select {s : State} (point : s.point = .select) (connsocketSet iodevSet : Bool) :
    Step s (s.select connsocketSet iodevSet)
  | recv {s : State} {source : Descriptor} {iodevSet : Bool} (point : s.point = .recv source iodevSet)
    (packet : List Octet) (some_ : packet ≠ []) (fits : packet.length ≤ PACKET_SIZE) :
    Step s (s.recv source iodevSet packet)
  | ready {s : State} {source : Descriptor} {iodevSet : Bool}
    (point : s.point = .ready source iodevSet) : Step s { s with point := .send source iodevSet }
  | send {s : State} {source : Descriptor} {iodevSet : Bool} (point : s.point = .send source iodevSet)
    (count : Nat) (least : 1 ≤ count) (most : count ≤ s.packlen) : Step s (s.send source count)
  | sent {s : State} {source : Descriptor} {iodevSet : Bool} (point : s.point = .send source iodevSet)
    (all : s.packlen = 0) : Step s (s.next source iodevSet)
  /-- An exception of a descriptor, a timeout, the end of a stream, or a call that fails. -/
  | error {s : State} (more : ∀ source iodevSet, s.point = .send source iodevSet → s.packlen ≠ 0) :
    Step s s.close

/-- The loop for one connection. -/
def connection : TransitionSystem State where
  start s := s.point = .select ∧ (∀ d, s.received d = []) ∧ ∀ d, s.accepted d = []
  step := Step

/-- What is accepted is the start of what was received, and all of it at the head of the loop. -/
def Forwarded (s : State) : Prop :=
  (∀ d, s.accepted d <+: s.received d) ∧ (s.point = .select → ∀ d, s.accepted d = s.received d)

/-- What write or send takes from the start of the packet is what it should take next. -/
def TakesNext (s s' : State) : Prop :=
  ∀ source iodevSet count, s.point = .send source iodevSet → count ≤ s.packlen →
    s' = s.send source count →
    s.packet.take count = (s.packet.drop (s.packet.length - s.packlen)).take count

/-- The packet at hand, of which `packlen` bytes are left to be accepted. -/
structure Pending (s : State) (source : Descriptor) : Prop where
  left : s.packlen ≤ s.packet.length
  rest : s.received source = s.accepted source ++ s.packet.drop (s.packet.length - s.packlen)
  other : s.accepted source.target = s.received source.target

def Inv (s : State) : Prop :=
  match s.point with
  | .select | .recv _ _ => ∀ d, s.accepted d = s.received d
  | .ready source _ | .send source _ => Pending s source
  | .closed => ∀ d, s.accepted d <+: s.received d

section forwarding

variable {s s' : State} {source : Descriptor} {iodevSet : Bool} {count : Nat}

theorem forall_descriptor {p : Descriptor → Prop} (source : Descriptor) :
    (∀ d, p d) ↔ p source ∧ p source.target := by
  constructor
  · intro all
    exact ⟨all source, all source.target⟩
  · intro both d
    cases source with
    | connsocket =>
      cases d with
      | connsocket => exact both.1
      | iodev => exact both.2
    | iodev =>
      cases d with
      | connsocket => exact both.2
      | iodev => exact both.1

theorem target_ne (source : Descriptor) : source.target ≠ source := by cases source <;> decide

theorem Pending.accepted_prefix (pending : Pending s source) (d : Descriptor) :
    s.accepted d <+: s.received d := by
  revert d
  rw [forall_descriptor source]
  exact ⟨⟨_, pending.rest.symm⟩, pending.other ▸ List.prefix_rfl⟩

theorem Inv.accepted_prefix (inv : Inv s) (d : Descriptor) : s.accepted d <+: s.received d := by
  unfold Inv at inv
  cases point : s.point with
  | select =>
    simp only [point] at inv
    exact inv d ▸ List.prefix_rfl
  | recv _ _ =>
    simp only [point] at inv
    exact inv d ▸ List.prefix_rfl
  | ready source _ =>
    simp only [point] at inv
    exact inv.accepted_prefix d
  | send source _ =>
    simp only [point] at inv
    exact inv.accepted_prefix d
  | closed =>
    simp only [point] at inv
    exact inv d

theorem Inv.forwarded (inv : Inv s) : Forwarded s := by
  refine ⟨inv.accepted_prefix, ?_⟩
  intro point
  unfold Inv at inv
  simp only [point] at inv
  exact inv

theorem pending_recv (same : ∀ d, s.accepted d = s.received d) (packet : List Octet) :
    Pending (s.recv source iodevSet packet) source := by
  refine ⟨Nat.le_refl _, ?_, ?_⟩
  · show Function.update s.received source _ source =
      s.accepted source ++ packet.drop (packet.length - packet.length)
    rw [Function.update_self, Nat.sub_self, List.drop_zero, same]
  · show s.accepted source.target = Function.update s.received source _ source.target
    rw [Function.update_of_ne (target_ne source), same]

theorem drop_sent (pending : Pending s source) (most : count ≤ s.packlen) :
    s.packet.drop (s.packet.length - s.packlen) =
      (s.packet.drop (s.packet.length - s.packlen)).take count ++
        s.packet.drop (s.packet.length - (s.packlen - count)) := by
  have left := pending.left
  have position : s.packet.length - (s.packlen - count) = s.packet.length - s.packlen + count := by
    omega
  rw [position, ← List.drop_drop, List.take_append_drop]

theorem pending_send (pending : Pending s source) (most : count ≤ s.packlen)
    (next : s.packet.take count = (s.packet.drop (s.packet.length - s.packlen)).take count) :
    Pending (s.send source count) source := by
  have left := pending.left
  refine ⟨?_, ?_, ?_⟩
  · show s.packlen - count ≤ s.packet.length
    omega
  · show s.received source = Function.update s.accepted source _ source ++
      s.packet.drop (s.packet.length - (s.packlen - count))
    rw [Function.update_self, next, List.append_assoc, ← drop_sent pending most]
    exact pending.rest
  · show Function.update s.accepted source _ source.target = s.received source.target
    rw [Function.update_of_ne (target_ne source)]
    exact pending.other

theorem inv_step (inv : Inv s) (step : Step s s') (takes : TakesNext s s') : Inv s' := by
  cases step with
  | select point connsocketSet iodevSet =>
    simp only [Inv, point] at inv
    unfold State.select
    split
    · exact inv
    · split
      · exact inv
      · exact fun d => inv d ▸ List.prefix_rfl
  | recv point packet _ _ =>
    simp only [Inv, point] at inv
    exact pending_recv inv packet
  | ready point =>
    simp only [Inv, point] at inv
    exact ⟨inv.left, inv.rest, inv.other⟩
  | @send source iodevSet point count least most =>
    have next := takes source iodevSet count point most rfl
    simp only [Inv, point] at inv
    have pending := pending_send inv most next
    have point' : (s.send source count).point = .send source iodevSet := point
    simp only [Inv, point']
    exact pending
  | @sent source iodevSet point all =>
    simp only [Inv, point] at inv
    have same : ∀ d, s.accepted d = s.received d := by
      rw [forall_descriptor source]
      refine ⟨?_, inv.other⟩
      have whole := inv.rest
      rw [all, Nat.sub_zero, List.drop_length, List.append_nil] at whole
      exact whole.symm
    unfold State.next
    cases source with
    | connsocket =>
      dsimp only
      split
      · exact same
      · exact same
    | iodev => exact same
  | error _ => exact inv.accepted_prefix

/-- A call that takes other bytes than the next ones shows at once. -/
theorem not_forwarded_send (pending : Pending s source) (most : count ≤ s.packlen)
    (other : s.packet.take count ≠ (s.packet.drop (s.packet.length - s.packlen)).take count) :
    ¬ Forwarded (s.send source count) := by
  intro forwarded
  have start := forwarded.1 source
  have left := pending.left
  simp only [State.send, Function.update_self, pending.rest, List.prefix_append_right_inj] at start
  apply other
  have length : (s.packet.take count).length = count := List.length_take_of_le (by omega)
  have same := List.prefix_iff_eq_take.mp start
  rw [length] at same
  exact same

/-- In a run whose calls take the next bytes, all is forwarded in order, and the first call that does
    not take them ends that. -/
theorem forwards (reachable : (connection.restrict TakesNext).Reachable s) :
    Forwarded s ∧ ∀ s', Step s s' → (Forwarded s' ↔ TakesNext s s') := by
  have inv : Inv s := by
    apply reachable.invariant
    · intro s start
      obtain ⟨point, received, accepted⟩ := start
      simp only [Inv, point]
      exact fun d => (accepted d).trans (received d).symm
    · intro s s' _ inv step
      exact inv_step inv step.1 step.2
  refine ⟨inv.forwarded, fun s' step => ⟨?_, fun takes => (inv_step inv step takes).forwarded⟩⟩
  intro forwarded source iodevSet count point most rfl_
  subst rfl_
  simp only [Inv, point] at inv
  by_contra other
  exact not_forwarded_send inv most other forwarded

end forwarding

def idle : State where
  point := .select
  received _ := []
  accepted _ := []
  packet := []
  packlen := 0

def Point.sends : Point → Bool
  | .send _ _ => true
  | _ => false

theorem takesNext_elsewhere {s s' : State} (elsewhere : s.point.sends = false) :
    TakesNext s s' := by
  intro source iodevSet count point
  rw [point] at elsewhere
  cases elsewhere

theorem forwards_whole : ∃ s, s.point = .select ∧ s.accepted .connsocket = [97, 98] ∧ Forwarded s := by
  have start := TransitionSystem.reachable_start (m := connection.restrict TakesNext) (s := idle)
    ⟨rfl, fun _ => rfl, fun _ => rfl⟩
  have selected := start.step ⟨.select rfl true false, takesNext_elsewhere rfl⟩
  have received := selected.step ⟨.recv rfl [97, 98] (by decide) (by decide),
    takesNext_elsewhere rfl⟩
  have ready := received.step ⟨.ready rfl, takesNext_elsewhere rfl⟩
  have wrote := ready.step ⟨.send rfl 2 (by decide) (by decide), fun _ _ _ _ _ _ => rfl⟩
  have ended := wrote.step ⟨.sent rfl rfl, fun source iodevSet count _ most _ => by
    obtain rfl : count = 0 := Nat.le_zero.mp most
    rfl⟩
  exact ⟨_, rfl, rfl, (forwards ended).1⟩

/-- Of two bytes that are taken one by one, the first is sent twice. -/
theorem repeats_first : ∃ s, connection.Reachable s ∧ ¬ Forwarded s := by
  have start := TransitionSystem.reachable_start (m := connection) (s := idle)
    ⟨rfl, fun _ => rfl, fun _ => rfl⟩
  have selected := start.step (.select rfl true false)
  have received := selected.step (.recv rfl [97, 98] (by decide) (by decide))
  have ready := received.step (.ready rfl)
  have first := ready.step (.send rfl 1 (by decide) (by decide))
  have second := first.step (.send rfl 1 (by decide) (by decide))
  refine ⟨_, second, fun forwarded => ?_⟩
  have start : [97, 97] <+: ([97, 98] : List Octet) := forwarded.1 .connsocket
  revert start
  decide

end Devredir
