import LtrData.Chatsrv.ClientChain

namespace Chatsrv

variable {Client : Type} [DecidableEq Client]

namespace State

def During (s : State Client) (number : Nat) (msg : String) : Prop :=
  ∃ c cm goesOn, s.points c = .broadcastLoop number msg cm goesOn

/-- The broadcast of that number has been made. -/
def Over (s : State Client) (number : Nat) : Prop :=
  number < s.broadcasts ∧ ∀ msg, ¬s.During number msg

def InChain (s : State Client) (a : Client) : Prop :=
  ∃ objects, Chain s.next s.first objects ∧ a ∈ objects

def sentTo (s : State Client) (a : Client) : List (Nat × String) :=
  (s.sent.filter (·.client = a)).map fun sending => (sending.number, sending.msg)

/-- The client has been in the chain during a broadcast of the run that leads to the state. -/
def Attended (s : State Client) (a : Client) (number : Nat) (msg : String) : Prop :=
  ∃ before, chatServer.Reachable before ∧ before.During number msg ∧ before.InChain a ∧
    Relation.ReflTransGen Step before s

/-- The message is sent to the client behind the point the loop over the chain has reached. -/
def Ahead (s : State Client) (a : Client) (number : Nat) (msg : String) : Prop :=
  ∃ c cm goesOn rest, s.points c = .broadcastLoop number msg cm goesOn ∧
    Chain s.next cm rest ∧ a ∈ rest

end State

variable {s s' : State Client} {a b c : Client} {number : Nat} {msg : String}

theorem sent_subset (step : Step s s') : s.sent ⊆ s'.sent := by
  cases step with
  | connect | enter | recvName | recvLine | deleteName => exact List.Subset.refl _
  | inside owner =>
    unfold State.inside
    split <;> try exact List.Subset.refl _
    · split
      · split <;> exact List.Subset.refl _
      · exact List.Subset.refl _
    · exact List.subset_append_left ..
    · split <;> exact List.Subset.refl _
    · split
      · split <;> exact List.Subset.refl _
      · exact List.Subset.refl _

/-- A step during a broadcast: either the loop goes on or another thread runs outside. -/
theorem ahead_step {objects : List Client} (exact : s.Exact objects)
    (ahead : s.Ahead a number msg) (step : Step s s') :
    Sending.mk a number msg ∈ s'.sent ∨ s'.Ahead a number msg := by
  obtain ⟨c, cm, goesOn, rest, here, chain, there⟩ := ahead
  have owner : s.cs = some c := by
    rw [← exact.owner, here]
    trivial
  have elsewhere : ∀ d (point : Point Client), s.points d ≠ s.points c →
      (s.move d point).Ahead a number msg := by
    intro d point differs
    refine ⟨c, cm, goesOn, rest, ?_, chain, there⟩
    rw [move_other fun same => differs (by rw [same])]
    exact here
  cases step with
  | connect point => exact .inr (elsewhere _ _ (by rw [point, here]; exact nofun))
  | enter _ free =>
    rw [owner] at free
    cases free
  | inside holds =>
    rw [owner] at holds
    cases holds
    unfold State.inside
    simp only [here]
    cases cm with
    | none =>
      rw [chain.of_none] at there
      cases there
    | some cm =>
      obtain ⟨behind, whole, links⟩ := chain.of_some
      rw [whole] at there
      rcases List.mem_cons.mp there with own | later
      · rw [own]
        exact .inl (List.mem_append_right _ (List.mem_singleton_self _))
      · exact .inr ⟨c, s.next cm, goesOn, behind, move_self, links, later⟩
  | recvName line point => exact .inr (elsewhere _ _ (by rw [point, here]; exact nofun))
  | recvLine line point => exact .inr (elsewhere _ _ (by rw [point, here]; exact nofun))
  | deleteName point => exact .inr (elsewhere _ _ (by rw [point, here]; exact nofun))

omit [DecidableEq Client] in
theorem sent_or_ahead {objects : List Client} (exact : s.Exact objects)
    (during : s.During number msg) (inChain : s.InChain a) :
    Sending.mk a number msg ∈ s.sent ∨ s.Ahead a number msg := by
  obtain ⟨c, cm, goesOn, here⟩ := during
  obtain ⟨objects', chain', there⟩ := inChain
  rw [chain'.unique exact.chain] at there
  have walks := exact.walks c (by rw [← exact.owner, here]; trivial)
  unfold State.WalksAlong at walks
  rw [here] at walks
  obtain ⟨-, text, front, rest, whole, chain, sentTo⟩ := walks
  rw [whole] at there
  rcases List.mem_append.mp there with before | later
  · obtain ⟨sending, sent, client, same⟩ := (sentTo a).mpr before
    have msgSame := text sending sent same
    left
    rw [← client, ← same, ← msgSame]
    exact sent
  · exact .inr ⟨c, cm, goesOn, rest, here, chain, later⟩

/-- Who was in the chain during a broadcast has been sent it once it is over. -/
theorem sent_of_attended (attended : s.Attended a number msg) (ended : s.Over number) :
    Sending.mk a number msg ∈ s.sent := by
  obtain ⟨before, reachable, during, inChain, steps⟩ := attended
  obtain ⟨objects, exact⟩ := exact_reachable reachable
  have sentOrAhead : Sending.mk a number msg ∈ s.sent ∨ s.Ahead a number msg := by
    clear ended
    induction steps with
    | refl => exact sent_or_ahead exact during inChain
    | tail earlier step ih =>
      rcases ih with sent | ahead
      · exact .inl (sent_subset step sent)
      · obtain ⟨objects, exact⟩ := exact_reachable (reachable.steps earlier)
        exact ahead_step exact ahead step
  rcases sentOrAhead with sent | ⟨c, cm, goesOn, _, here, -, -⟩
  · exact sent
  · exact absurd ⟨c, cm, goesOn, here⟩ (ended.2 msg)

/-! ### The order at one client -/

theorem mem_sentTo : (number, msg) ∈ s.sentTo a ↔ Sending.mk a number msg ∈ s.sent := by
  constructor
  · intro there
    obtain ⟨sending, sent, same⟩ := List.mem_map.mp there
    obtain ⟨sent, client⟩ := List.mem_filter.mp sent
    obtain ⟨rfl, rfl⟩ := Prod.mk.inj same
    rw [← of_decide_eq_true client]
    exact sent
  · intro sent
    exact List.mem_map.mpr ⟨_, List.mem_filter.mpr ⟨sent, decide_eq_true rfl⟩, rfl⟩

theorem sentTo_increasing {objects : List Client} (exact : s.Exact objects) (a : Client) :
    (s.sentTo a).Pairwise (·.1 < ·.1) := by
  apply List.pairwise_map.mpr
  apply (exact.order.filter (·.client = a)).imp_of_mem
  intro earlier later first second order
  have client := of_decide_eq_true (List.mem_filter.mp first).2
  have same := of_decide_eq_true (List.mem_filter.mp second).2
  rcases order with less | ⟨-, differ⟩
  · exact less
  · exact absurd (client.trans same.symm) differ

section increasing

variable {sent : List (Nat × String)}

theorem entry_eq (increasing : sent.Pairwise (·.1 < ·.1)) {entry other : Nat × String}
    (there : entry ∈ sent) (alsoThere : other ∈ sent) (same : entry.1 = other.1) :
    entry = other := by
  have numbers : (sent.map Prod.fst).Nodup :=
    List.pairwise_map.mpr (increasing.imp fun less => Nat.ne_of_lt less)
  exact List.inj_on_of_nodup_map numbers there alsoThere same

theorem nodup_of_increasing (increasing : sent.Pairwise (·.1 < ·.1)) : sent.Nodup :=
  increasing.imp fun less same => absurd less (by rw [same]; exact Nat.lt_irrefl _)

theorem filter_increasing (increasing : sent.Pairwise (·.1 < ·.1)) {m n : Nat} {text text' : String}
    (before : m < n) (first : (m, text) ∈ sent) (second : (n, text') ∈ sent) :
    sent.filter (fun entry => entry.1 = m ∨ entry.1 = n) = [(m, text), (n, text')] := by
  have filtered := increasing.filter fun entry => entry.1 = m ∨ entry.1 = n
  have pair : [(m, text), (n, text')].Pairwise (·.1 < ·.1) := List.pairwise_pair.mpr before
  have members : ∀ entry, entry ∈ sent.filter (fun entry => entry.1 = m ∨ entry.1 = n) ↔
      entry ∈ [(m, text), (n, text')] := by
    intro entry
    rw [List.mem_filter, decide_eq_true_eq]
    constructor
    · rintro ⟨there, same | same⟩
      · rw [entry_eq increasing there first same]
        exact List.mem_cons_self
      · rw [entry_eq increasing there second same]
        exact List.mem_cons_of_mem _ (List.mem_singleton_self _)
    · intro there
      rcases List.mem_pair.mp there with rfl | rfl
      · exact ⟨first, .inl rfl⟩
      · exact ⟨second, .inr rfl⟩
  have perm := (List.perm_ext_iff_of_nodup (nodup_of_increasing filtered)
    (nodup_of_increasing pair)).mpr members
  exact perm.eq_of_pairwise (fun _ _ _ _ less more => absurd less (Nat.lt_asymm more)) filtered pair

end increasing

/-! ### The chat server -/

namespace State

def Alive (s : State Client) (c : Client) : Prop :=
  (s.points c).Constructed ∧ ¬(s.points c).Destructed

/-- The chain from first has every living object once. -/
def ListExact (s : State Client) : Prop :=
  ∃ objects, Chain s.next s.first objects ∧ objects.Nodup ∧ ∀ c, c ∈ objects ↔ s.Alive c

def NamesDiffer (s : State Client) : Prop :=
  ∀ c d name other, s.Alive c → s.Alive d → s.name c = some name → s.name d = some other →
    strcmpi name other → c = d

/-- Both clients are sent both messages once, in one order. -/
def SameOrder (s : State Client) (a b : Client) (one other : Nat × String) : Prop :=
  ∃ order, order.Perm [one, other] ∧ ∀ client, client = a ∨ client = b →
    (s.sentTo client).filter (fun entry => entry.1 = one.1 ∨ entry.1 = other.1) = order

end State

omit [DecidableEq Client] in
theorem linked_iff_alive {objects : List Client} (exact : s.Exact objects) (free : s.cs = none)
    (c : Client) : (s.points c).Linked ↔ s.Alive c := by
  have outside : ¬(s.points c).Inside := by
    rw [exact.owner, free]
    exact nofun
  unfold State.Alive
  cases here : s.points c with
  | notConnected | constructorEnter => exact iff_of_false id fun alive => alive.1
  | deleteName | ended => exact iff_of_false id fun alive => alive.2 trivial
  | recvName | applyEnter | broadcastEnter | recvLine | listEnter | destructorEnter =>
    exact iff_of_true trivial ⟨trivial, id⟩
  | setNext | setFirst | constructorLeave | applyStart | applyLoop | applyLeave | broadcastStart
  | broadcastLoop | listStart | listLoop | destructorStart | destructorLoop | destructorLeave
  | nullPointer =>
    rw [here] at outside
    exact absurd trivial outside

theorem sameOrder {objects : List Client} (exact : s.Exact objects) {one other : Nat × String}
    (differ : one.1 ≠ other.1)
    (sent : ∀ client, client = a ∨ client = b → one ∈ s.sentTo client ∧ other ∈ s.sentTo client) :
    s.SameOrder a b one other := by
  rcases Nat.lt_or_gt_of_ne differ with less | more
  · refine ⟨_, List.Perm.refl _, fun client which => ?_⟩
    obtain ⟨first, second⟩ := sent client which
    exact filter_increasing (sentTo_increasing exact client) less first second
  · refine ⟨_, List.Perm.swap _ _ _, fun client which => ?_⟩
    obtain ⟨first, second⟩ := sent client which
    simp only [or_comm (a := _ = one.1)]
    exact filter_increasing (sentTo_increasing exact client) more second first

/-- The service before the first connection. -/
def noConnection : State Nat :=
  ⟨none, none, fun _ => none, fun _ => none, fun _ => .notConnected, 0, []⟩

end Chatsrv
