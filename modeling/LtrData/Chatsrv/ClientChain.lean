import LtrData.Chatsrv.ClientManager

namespace Chatsrv

variable {Client : Type} [DecidableEq Client]

namespace State

/-- What the thread in the critical section relies on while it walks along the chain. -/
def WalksAlong (s : State Client) (objects : List Client) (c : Client) : Prop :=
  match s.points c with
  | .setFirst => s.next c = s.first
  | .applyLoop namebuf cm => ∃ front rest, objects = front ++ rest ∧ Chain s.next cm rest ∧
      ∀ d ∈ front, ∀ name, s.name d = some name → ¬strcmpi namebuf name
  | .broadcastLoop number msg cm _ => number + 1 = s.broadcasts ∧
      (∀ sending ∈ s.sent, sending.number = number → sending.msg = msg) ∧
      ∃ front rest, objects = front ++ rest ∧ Chain s.next cm rest ∧
        ∀ d, (∃ sending ∈ s.sent, sending.client = d ∧ sending.number = number) ↔ d ∈ front
  | .destructorLoop cm => ∃ front rest, objects = front ++ rest ∧ Chain s.next cm rest ∧
      c ∈ rest.tail
  | .nullPointer => False
  | _ => True

/-- Two sendings one after the other. -/
def InOrder (earlier later : Sending Client) : Prop :=
  earlier.number < later.number ∨
    earlier.number = later.number ∧ earlier.client ≠ later.client

/-- What every reachable state keeps, with the objects in the order of the chain. -/
structure Exact (s : State Client) (objects : List Client) : Prop where
  chain : Chain s.next s.first objects
  nodup : objects.Nodup
  linked : ∀ c, c ∈ objects ↔ (s.points c).Linked
  owner : ∀ c, (s.points c).Inside ↔ s.cs = some c
  unnamed : ∀ c, (s.points c).Unnamed → s.name c = none
  names : ∀ c ∈ objects, ∀ d ∈ objects, ∀ name other, s.name c = some name →
    s.name d = some other → strcmpi name other → c = d
  walks : ∀ c, s.cs = some c → s.WalksAlong objects c
  numbers : ∀ sending ∈ s.sent, sending.number < s.broadcasts
  order : s.sent.Pairwise InOrder

end State

/-! ### What a step keeps -/

section steps

variable {s s' : State Client} {c : Client} {objects : List Client} {point : Point Client}

theorem move_self : (s.move c point).points c = point := Function.update_self ..

theorem move_other {d : Client} (other : d ≠ c) : (s.move c point).points d = s.points d :=
  Function.update_of_ne other ..

omit [DecidableEq Client] in
theorem inside_of_behindEnter {behind : Point Client} (enters : point.behindEnter = some behind) :
    behind.Inside ∧ ¬point.Inside ∧ (behind.Linked ↔ point.Linked) ∧
      (behind.Unnamed → point.Unnamed) := by
  cases point <;> cases enters <;> exact ⟨trivial, id, Iff.rfl, id⟩

omit [DecidableEq Client] in
theorem walks_of_behindEnter {behind : Point Client} (enters : point.behindEnter = some behind)
    (here : s.points c = behind) : s.WalksAlong objects c := by
  unfold State.WalksAlong
  rw [here]
  cases point <;> cases enters <;> trivial

theorem exact_outside (exact : s.Exact objects) (outside : ¬(s.points c).Inside)
    (after : ¬point.Inside) (linked : point.Linked ↔ (s.points c).Linked)
    (unnamed : point.Unnamed → (s.points c).Unnamed) : (s.move c point).Exact objects where
  chain := exact.chain
  nodup := exact.nodup
  linked d := by
    rw [exact.linked]
    by_cases own : d = c
    · rw [own, move_self, linked]
    · rw [move_other own]
  owner d := by
    rw [show (s.move c point).cs = s.cs from rfl, ← exact.owner d]
    by_cases own : d = c
    · rw [own, move_self]
      exact iff_of_false after outside
    · rw [move_other own]
  unnamed d none := by
    by_cases own : d = c
    · rw [own, move_self] at none
      rw [own]
      exact exact.unnamed c (unnamed none)
    · rw [move_other own] at none
      exact exact.unnamed d none
  names := exact.names
  walks d holds := by
    have other : d ≠ c := by
      intro own
      rw [own] at holds
      exact outside ((exact.owner c).mpr holds)
    have walks := exact.walks d holds
    unfold State.WalksAlong
    rw [move_other other]
    exact walks
  numbers := exact.numbers
  order := exact.order

theorem exact_enter (exact : s.Exact objects) {behind : Point Client}
    (enters : (s.points c).behindEnter = some behind) (free : s.cs = none) :
    ({ s.move c behind with cs := some c } : State Client).Exact objects := by
  obtain ⟨inside, -, linked, unnamed⟩ := inside_of_behindEnter enters
  exact {
    chain := exact.chain
    nodup := exact.nodup
    linked := by
      intro d
      rw [exact.linked]
      show _ ↔ ((s.move c behind).points d).Linked
      by_cases own : d = c
      · rw [own, move_self, linked]
      · rw [move_other own]
    owner := by
      intro d
      show ((s.move c behind).points d).Inside ↔ some c = some d
      by_cases own : d = c
      · rw [own, move_self]
        exact iff_of_true inside rfl
      · rw [move_other own, exact.owner, free]
        exact iff_of_false nofun fun same => own (Option.some.inj same).symm
    unnamed := by
      intro d none
      have none : ((s.move c behind).points d).Unnamed := none
      show s.name d = _
      by_cases own : d = c
      · rw [own, move_self] at none
        rw [own]
        exact exact.unnamed c (unnamed none)
      · rw [move_other own] at none
        exact exact.unnamed d none
    names := exact.names
    walks := by
      intro d holds
      cases holds
      exact walks_of_behindEnter enters move_self
    numbers := exact.numbers
    order := exact.order }

theorem strcmpi_comm (a b : String) : strcmpi a b = strcmpi b a :=
  decide_eq_decide.mpr eq_comm

/-- The thread in the critical section does one step in it or leaves it. -/
theorem exact_inside (exact : s.Exact objects) (owner : s.cs = some c) (point : Point Client)
    {objects' : List Client} (points : s'.points = Function.update s.points c point)
    (lock : point.Inside ∧ s'.cs = some c ∨ ¬point.Inside ∧ s'.cs = none)
    (chain : Chain s'.next s'.first objects') (nodup : objects'.Nodup)
    (others : ∀ d, d ≠ c → (d ∈ objects' ↔ d ∈ objects)) (linked : c ∈ objects' ↔ point.Linked)
    (unnamed : point.Unnamed → s'.name c = none)
    (namesElsewhere : ∀ d, d ≠ c → s'.name d = s.name d)
    (names : c ∈ objects' → ∀ d ∈ objects', d ≠ c → ∀ name other, s'.name c = some name →
      s'.name d = some other → ¬strcmpi name other)
    (walks : s'.cs = some c → s'.WalksAlong objects' c)
    (numbers : ∀ sending ∈ s'.sent, sending.number < s'.broadcasts)
    (order : s'.sent.Pairwise State.InOrder) : s'.Exact objects' where
  chain := chain
  nodup := nodup
  linked d := by
    rw [points]
    by_cases own : d = c
    · rw [own, Function.update_self, linked]
    · rw [Function.update_of_ne own, others d own, exact.linked]
  owner d := by
    rw [points]
    by_cases own : d = c
    · rw [own, Function.update_self]
      rcases lock with ⟨inside, held⟩ | ⟨outside, free⟩
      · exact iff_of_true inside held
      · rw [free]
        exact iff_of_false outside nofun
    · rw [Function.update_of_ne own, exact.owner, owner]
      have other : some c ≠ some d := fun same => own (Option.some.inj same).symm
      rcases lock with ⟨-, held⟩ | ⟨-, free⟩
      · rw [held]
      · rw [free]
        exact iff_of_false other nofun
  unnamed d none := by
    rw [points] at none
    by_cases own : d = c
    · rw [own, Function.update_self] at none
      rw [own]
      exact unnamed none
    · rw [Function.update_of_ne own] at none
      rw [namesElsewhere d own]
      exact exact.unnamed d none
  names d there e alsoThere name other named alsoNamed same := by
    by_cases own : d = c
    · by_cases alsoOwn : e = c
      · rw [own, alsoOwn]
      · rw [own] at named there
        exact absurd same (names there e alsoThere alsoOwn name other named alsoNamed)
    · by_cases alsoOwn : e = c
      · rw [alsoOwn] at alsoNamed alsoThere
        rw [strcmpi_comm] at same
        exact absurd same (names alsoThere d there own other name alsoNamed named)
      · rw [namesElsewhere d own] at named
        rw [namesElsewhere e alsoOwn] at alsoNamed
        exact exact.names d ((others d own).mp there) e ((others e alsoOwn).mp alsoThere) name other
          named alsoNamed same
  walks d held := by
    rcases lock with ⟨-, holds⟩ | ⟨-, free⟩
    · rw [holds] at held
      cases held
      exact walks holds
    · rw [free] at held
      cases held
  numbers := numbers
  order := order

theorem exact_go (exact : s.Exact objects) (owner : s.cs = some c) (point : Point Client)
    (next : s'.next = s.next) (first : s'.first = s.first) (name : s'.name = s.name)
    (points : s'.points = Function.update s.points c point)
    (lock : point.Inside ∧ s'.cs = some c ∨ ¬point.Inside ∧ s'.cs = none)
    (linked : point.Linked ↔ (s.points c).Linked)
    (unnamed : point.Unnamed → (s.points c).Unnamed)
    (walks : s'.cs = some c → s'.WalksAlong objects c)
    (numbers : ∀ sending ∈ s'.sent, sending.number < s'.broadcasts)
    (order : s'.sent.Pairwise State.InOrder) : s'.Exact objects := by
  apply exact_inside exact owner point points lock
  · rw [next, first]
    exact exact.chain
  · exact exact.nodup
  · exact fun _ _ => Iff.rfl
  · rw [exact.linked, linked]
  · intro none
    rw [name]
    exact exact.unnamed c (unnamed none)
  · exact fun _ _ => by rw [name]
  · rw [name]
    exact fun own d there other firstName secondName named alsoNamed same =>
      other (exact.names c own d there firstName secondName named alsoNamed same).symm
  · exact walks
  · exact numbers
  · exact order

theorem exact_move (exact : s.Exact objects) (owner : s.cs = some c) (inside : point.Inside)
    (linked : point.Linked ↔ (s.points c).Linked) (unnamed : point.Unnamed → (s.points c).Unnamed)
    (walks : (s.move c point).WalksAlong objects c) : (s.move c point).Exact objects :=
  exact_go exact owner point rfl rfl rfl rfl (.inl ⟨inside, owner⟩) linked unnamed (fun _ => walks)
    exact.numbers exact.order

theorem exact_leave (exact : s.Exact objects) (owner : s.cs = some c) (outside : ¬point.Inside)
    (linked : point.Linked ↔ (s.points c).Linked)
    (unnamed : point.Unnamed → (s.points c).Unnamed) : (s.leave c point).Exact objects :=
  exact_go exact owner point rfl rfl rfl rfl (.inr ⟨outside, rfl⟩) linked unnamed nofun exact.numbers
    exact.order

theorem exact_setNext (exact : s.Exact objects) (owner : s.cs = some c)
    (here : s.points c = .setNext) :
    ({ s with next := Function.update s.next c s.first }.move c .setFirst).Exact objects := by
  have absent : c ∉ objects := by
    rw [exact.linked, here]
    exact id
  apply exact_inside exact owner .setFirst
  · rfl
  · exact .inl ⟨trivial, owner⟩
  · exact exact.chain.update absent s.first
  · exact exact.nodup
  · exact fun _ _ => Iff.rfl
  · exact iff_of_false absent id
  · intro _
    apply exact.unnamed
    rw [here]
    trivial
  · exact fun _ _ => rfl
  · exact fun own => absurd own absent
  · intro _
    unfold State.WalksAlong
    rw [move_self]
    exact Function.update_self ..
  · exact exact.numbers
  · exact exact.order

theorem exact_setFirst (exact : s.Exact objects) (owner : s.cs = some c)
    (here : s.points c = .setFirst) :
    ({ s with first := some c }.move c .constructorLeave).Exact (c :: objects) := by
  have absent : c ∉ objects := by
    rw [exact.linked, here]
    exact id
  have unnamed : s.name c = none := by
    apply exact.unnamed
    rw [here]
    trivial
  have walks := exact.walks c owner
  unfold State.WalksAlong at walks
  rw [here] at walks
  have chain := exact.chain
  rw [← show s.next c = s.first from walks] at chain
  apply exact_inside exact owner .constructorLeave
  · rfl
  · exact .inl ⟨trivial, owner⟩
  · exact chain.push
  · exact List.nodup_cons.mpr ⟨absent, exact.nodup⟩
  · intro d other
    exact List.mem_cons.trans (or_iff_right other)
  · exact iff_of_true List.mem_cons_self trivial
  · exact fun _ => unnamed
  · exact fun _ _ => rfl
  · intro _ d _ _ name other named
    rw [show s.name c = some name from named] at unnamed
    cases unnamed
  · intro _
    unfold State.WalksAlong
    rw [move_self]
    trivial
  · exact exact.numbers
  · exact exact.order

/-- The name of the next object in the chain is another one, or it has none yet. -/
theorem exact_applyNext (exact : s.Exact objects) (owner : s.cs = some c) {namebuf : String}
    {cm : Client} (here : s.points c = .applyLoop namebuf (some cm))
    (differs : ∀ name, s.name cm = some name → ¬strcmpi namebuf name) :
    (s.move c (.applyLoop namebuf (s.next cm))).Exact objects := by
  have walks := exact.walks c owner
  unfold State.WalksAlong at walks
  rw [here] at walks
  obtain ⟨front, rest, whole, chain, scanned⟩ := walks
  obtain ⟨behind, rfl, links⟩ := chain.of_some
  apply exact_move exact owner
  · trivial
  · rw [here]
    exact Iff.rfl
  · exact False.elim
  · unfold State.WalksAlong
    rw [move_self]
    refine ⟨front ++ [cm], behind, by rw [whole, List.append_assoc]; rfl, links, ?_⟩
    intro d there
    rcases List.mem_append.mp there with before | last
    · exact scanned d before
    · rw [List.mem_singleton.mp last]
      exact differs

/-- No object in the chain has the name. -/
theorem exact_applyEnd (exact : s.Exact objects) (owner : s.cs = some c) {namebuf : String}
    (here : s.points c = .applyLoop namebuf none) :
    ({ s with name := Function.update s.name c (some namebuf) }.move c .applyLeave).Exact
      objects := by
  have walks := exact.walks c owner
  unfold State.WalksAlong at walks
  rw [here] at walks
  obtain ⟨front, rest, whole, chain, scanned⟩ := walks
  rw [chain.of_none, List.append_nil] at whole
  apply exact_inside exact owner .applyLeave
  · rfl
  · exact .inl ⟨trivial, owner⟩
  · exact exact.chain
  · exact exact.nodup
  · exact fun _ _ => Iff.rfl
  · rw [exact.linked, here]
    exact Iff.rfl
  · exact False.elim
  · exact fun d other => Function.update_of_ne other ..
  · intro _ d there other name otherName named otherNamed
    have named : Function.update s.name c (some namebuf) c = some name := named
    have otherNamed : Function.update s.name c (some namebuf) d = some otherName := otherNamed
    rw [Function.update_self] at named
    rw [Function.update_of_ne other] at otherNamed
    cases named
    rw [whole] at there
    exact scanned d there otherName otherNamed
  · intro _
    unfold State.WalksAlong
    rw [move_self]
    trivial
  · exact exact.numbers
  · exact exact.order

theorem exact_broadcastStart (exact : s.Exact objects) (owner : s.cs = some c) {msg : String}
    {goesOn : Bool} (here : s.points c = .broadcastStart msg goesOn) :
    ({ s with broadcasts := s.broadcasts + 1 }.move c
      (.broadcastLoop s.broadcasts msg s.first goesOn)).Exact objects := by
  apply exact_go exact owner (.broadcastLoop s.broadcasts msg s.first goesOn)
  · rfl
  · rfl
  · rfl
  · rfl
  · exact .inl ⟨trivial, owner⟩
  · rw [here]
    exact Iff.rfl
  · exact False.elim
  · intro _
    unfold State.WalksAlong
    rw [move_self]
    have fresh : ∀ sending ∈ s.sent, sending.number ≠ s.broadcasts :=
      fun sending there => Nat.ne_of_lt (exact.numbers sending there)
    refine ⟨rfl, fun sending there number => absurd number (fresh sending there), [], objects, rfl,
      exact.chain, ?_⟩
    intro d
    refine iff_of_false ?_ List.not_mem_nil
    intro facts
    rcases facts with ⟨sending, there, -, number⟩
    exact fresh sending there number
  · exact fun sending there => Nat.lt_succ_of_lt (exact.numbers sending there)
  · exact exact.order

theorem exact_broadcastNext (exact : s.Exact objects) (owner : s.cs = some c) {number : Nat}
    {msg : String} {cm : Client} {goesOn : Bool}
    (here : s.points c = .broadcastLoop number msg (some cm) goesOn) :
    ({ s with sent := s.sent ++ [Sending.mk cm number msg] }.move c
      (.broadcastLoop number msg (s.next cm) goesOn)).Exact objects := by
  have walks := exact.walks c owner
  unfold State.WalksAlong at walks
  rw [here] at walks
  obtain ⟨last, text, front, rest, whole, chain, sentTo⟩ := walks
  obtain ⟨behind, rfl, links⟩ := chain.of_some
  have notFront : cm ∉ front := by
    have nodup := exact.nodup
    rw [whole] at nodup
    exact fun there => (List.nodup_append.mp nodup).2.2 cm there cm List.mem_cons_self rfl
  apply exact_go exact owner (.broadcastLoop number msg (s.next cm) goesOn)
  · rfl
  · rfl
  · rfl
  · rfl
  · exact .inl ⟨trivial, owner⟩
  · rw [here]
    exact Iff.rfl
  · exact False.elim
  · intro _
    unfold State.WalksAlong
    rw [move_self]
    refine ⟨last, ?_, front ++ [cm], behind, by rw [whole, List.append_assoc]; rfl, links, ?_⟩
    · intro sending there same
      rcases List.mem_append.mp there with before | new
      · exact text sending before same
      · rw [List.mem_singleton.mp new]
    intro d
    rw [List.mem_append, List.mem_singleton, ← sentTo d]
    constructor
    · intro facts
      rcases facts with ⟨sending, there, client, same⟩
      rcases List.mem_append.mp there with before | new
      · exact .inl ⟨sending, before, client, same⟩
      · rw [List.mem_singleton.mp new] at client
        exact .inr client.symm
    · rintro (⟨sending, before, client, same⟩ | own)
      · exact ⟨sending, List.mem_append_left _ before, client, same⟩
      · exact ⟨_, List.mem_append_right _ (List.mem_singleton_self _), own.symm, rfl⟩
  · intro sending there
    show sending.number < s.broadcasts
    rcases List.mem_append.mp there with before | new
    · exact exact.numbers sending before
    · rw [List.mem_singleton.mp new]
      show number < s.broadcasts
      omega
  · refine List.pairwise_append.mpr ⟨exact.order, List.pairwise_singleton _ _, ?_⟩
    intro sending there new isNew
    rw [List.mem_singleton.mp isNew]
    have before := exact.numbers sending there
    by_cases same : sending.number = number
    · refine .inr ⟨same, fun client => notFront ?_⟩
      exact (sentTo cm).mp ⟨sending, there, client, same⟩
    · refine .inl ?_
      show sending.number < number
      omega

theorem exact_destructorFirst (exact : s.Exact objects) (owner : s.cs = some c)
    (first : s.first = some c) :
    ({ s with first := s.next c }.move c .destructorLeave).Exact objects.tail := by
  have chain := exact.chain
  rw [first] at chain
  obtain ⟨rest, whole, links⟩ := chain.of_some
  have nodup := exact.nodup
  rw [whole] at nodup
  obtain ⟨absent, nodup⟩ := List.nodup_cons.mp nodup
  rw [whole]
  apply exact_inside exact owner .destructorLeave
  · rfl
  · exact .inl ⟨trivial, owner⟩
  · exact links
  · exact nodup
  · intro d other
    rw [whole]
    exact (List.mem_cons.trans (or_iff_right other)).symm
  · exact iff_of_false absent id
  · exact False.elim
  · exact fun _ _ => rfl
  · exact fun own => absurd own absent
  · intro _
    unfold State.WalksAlong
    rw [move_self]
    trivial
  · exact exact.numbers
  · exact exact.order

theorem exact_destructorWalk (exact : s.Exact objects) (owner : s.cs = some c)
    (here : s.points c = .destructorStart) (first : s.first ≠ some c) :
    (s.move c (.destructorLoop s.first)).Exact objects := by
  apply exact_move exact owner
  · trivial
  · rw [here]
    exact Iff.rfl
  · exact False.elim
  · unfold State.WalksAlong
    rw [move_self]
    refine ⟨[], objects, rfl, exact.chain, ?_⟩
    have there : c ∈ objects := by
      rw [exact.linked, here]
      trivial
    have chain := exact.chain
    cases objects with
    | nil => cases there
    | cons head rest =>
      rcases List.mem_cons.mp there with own | later
      · rw [own] at first
        exact absurd chain.1 first
      · exact later

omit [DecidableEq Client] in
theorem destructorLoop_next (exact : s.Exact objects) (owner : s.cs = some c)
    {cm : Option Client} (here : s.points c = .destructorLoop cm) :
    ∃ object behind front rest, cm = some object ∧ s.next object = some behind ∧
      objects = front ++ object :: behind :: rest ∧ c ∈ behind :: rest := by
  have walks := exact.walks c owner
  unfold State.WalksAlong at walks
  rw [here] at walks
  obtain ⟨front, rest, whole, chain, later⟩ := walks
  cases rest with
  | nil => cases later
  | cons object rest =>
    cases rest with
    | nil => cases later
    | cons behind rest => exact ⟨object, behind, front, rest, chain.1, chain.2.1, whole, later⟩

theorem exact_destructorNext (exact : s.Exact objects) (owner : s.cs = some c)
    {cm behind : Client} (here : s.points c = .destructorLoop (some cm))
    (next : s.next cm = some behind) (other : behind ≠ c) :
    (s.move c (.destructorLoop (some behind))).Exact objects := by
  obtain ⟨_, _, front, rest, same, sameNext, whole, later⟩ := destructorLoop_next exact owner here
  cases same
  rw [next] at sameNext
  cases sameNext
  apply exact_move exact owner
  · trivial
  · rw [here]
    exact Iff.rfl
  · exact False.elim
  · unfold State.WalksAlong
    rw [move_self]
    have chain := exact.chain
    rw [whole] at chain
    refine ⟨front ++ [cm], behind :: rest, by rw [whole, List.append_assoc]; rfl, ?_, ?_⟩
    · rw [← next]
      exact chain.drop
    · exact (List.mem_cons.mp later).resolve_left other.symm

theorem exact_destructorUnlink (exact : s.Exact objects) (owner : s.cs = some c) {cm : Client}
    (here : s.points c = .destructorLoop (some cm)) (next : s.next cm = some c) :
    ∃ objects', ({ s with next := Function.update s.next cm (s.next c) }.move c
      .destructorLeave).Exact objects' := by
  obtain ⟨_, _, front, rest, same, sameNext, whole, -⟩ := destructorLoop_next exact owner here
  cases same
  rw [next] at sameNext
  cases sameNext
  have chain := exact.chain
  have nodup := exact.nodup
  rw [whole] at chain nodup
  have removed : objects.erase c = front ++ cm :: rest := by
    have split : front ++ cm :: c :: rest = (front ++ [cm]) ++ c :: rest := by
      rw [List.append_assoc]
      rfl
    have before : c ∉ front ++ [cm] := by
      rw [split] at nodup
      exact fun there => (List.nodup_append.mp nodup).2.2 c there c List.mem_cons_self rfl
    rw [whole, split, List.erase_append_right _ before, List.erase_cons_head, List.append_assoc]
    rfl
  refine ⟨objects.erase c, ?_⟩
  have absent : c ∉ objects.erase c := exact.nodup.not_mem_erase
  apply exact_inside exact owner .destructorLeave
  · rfl
  · exact .inl ⟨trivial, owner⟩
  · rw [removed]
    exact chain.unlink nodup
  · exact exact.nodup.erase c
  · exact fun d other => List.mem_erase_of_ne other
  · exact iff_of_false absent id
  · exact False.elim
  · exact fun _ _ => rfl
  · exact fun own => absurd own absent
  · intro _
    unfold State.WalksAlong
    rw [move_self]
    trivial
  · exact exact.numbers
  · exact exact.order

theorem exact_insideStep (exact : s.Exact objects) (owner : s.cs = some c) :
    ∃ objects', (s.inside c).Exact objects' := by
  have inside := (exact.owner c).mpr owner
  have walks := exact.walks c owner
  unfold State.WalksAlong at walks
  unfold State.inside
  generalize here : s.points c = now at inside walks ⊢
  cases now with
  | setNext => exact ⟨_, exact_setNext exact owner here⟩
  | setFirst => exact ⟨_, exact_setFirst exact owner here⟩
  | constructorLeave =>
    exact ⟨_, exact_leave exact owner id (by rw [here]; exact Iff.rfl) (by rw [here]; exact id)⟩
  | applyStart namebuf =>
    refine ⟨_, exact_move exact owner trivial (by rw [here]; exact Iff.rfl) False.elim ?_⟩
    unfold State.WalksAlong
    rw [move_self]
    exact ⟨[], objects, rfl, exact.chain, nofun⟩
  | applyLoop namebuf cm =>
    cases cm with
    | none => exact ⟨_, exact_applyEnd exact owner here⟩
    | some cm =>
      dsimp only
      cases named : s.name cm with
      | none =>
        refine ⟨_, exact_applyNext exact owner here ?_⟩
        rw [named]
        exact nofun
      | some name =>
        by_cases same : strcmpi namebuf name
        · simp only [if_pos same]
          exact ⟨_, exact_leave exact owner id (by rw [here]; exact Iff.rfl) False.elim⟩
        · simp only [if_neg same]
          refine ⟨_, exact_applyNext exact owner here ?_⟩
          rw [named]
          intro other equal
          cases equal
          exact same
  | applyLeave =>
    exact ⟨_, exact_leave exact owner id (by rw [here]; exact Iff.rfl) False.elim⟩
  | broadcastStart msg goesOn => exact ⟨_, exact_broadcastStart exact owner here⟩
  | broadcastLoop number msg cm goesOn =>
    cases cm with
    | none =>
      cases goesOn with
      | false => exact ⟨_, exact_leave exact owner id (by rw [here]; exact Iff.rfl) False.elim⟩
      | true => exact ⟨_, exact_leave exact owner id (by rw [here]; exact Iff.rfl) False.elim⟩
    | some cm => exact ⟨_, exact_broadcastNext exact owner here⟩
  | listStart =>
    refine ⟨_, exact_move exact owner trivial (by rw [here]; exact Iff.rfl) False.elim ?_⟩
    unfold State.WalksAlong
    rw [move_self]
    trivial
  | listLoop cm =>
    cases cm with
    | none => exact ⟨_, exact_leave exact owner id (by rw [here]; exact Iff.rfl) False.elim⟩
    | some cm =>
      refine ⟨_, exact_move exact owner trivial (by rw [here]; exact Iff.rfl) False.elim ?_⟩
      unfold State.WalksAlong
      rw [move_self]
      trivial
  | destructorStart =>
    by_cases first : s.first = some c
    · simp only [if_pos first]
      exact ⟨_, exact_destructorFirst exact owner first⟩
    · simp only [if_neg first]
      exact ⟨_, exact_destructorWalk exact owner here first⟩
  | destructorLoop cm =>
    obtain ⟨object, behind, _, _, rfl, next, -, -⟩ := destructorLoop_next exact owner here
    simp only [next]
    by_cases own : behind = c
    · rw [own] at next
      simp only [if_pos own]
      exact exact_destructorUnlink exact owner here next
    · simp only [if_neg own]
      exact ⟨_, exact_destructorNext exact owner here next own⟩
  | destructorLeave =>
    exact ⟨_, exact_leave exact owner id (by rw [here]; exact Iff.rfl) False.elim⟩
  | nullPointer => exact walks.elim
  | notConnected | constructorEnter | recvName | applyEnter | broadcastEnter | recvLine | listEnter
  | destructorEnter | deleteName | ended => exact inside.elim

omit [DecidableEq Client] in
theorem serverLoop_outside (Client : Type) (line name : String) :
     ¬(serverLoop line name : Point Client).Inside ∧
    (serverLoop line name : Point Client).Linked ∧ ¬(serverLoop line name : Point Client).Unnamed := by
  unfold serverLoop parseCommand
  split
  · exact ⟨id, trivial, id⟩
  · split
    · split
      · exact ⟨id, trivial, id⟩
      · split
        · exact ⟨id, trivial, id⟩
        · exact ⟨id, trivial, id⟩
    · exact ⟨id, trivial, id⟩

theorem exact_step (exact : s.Exact objects) (step : Step s s') :
    ∃ objects', s'.Exact objects' := by
  cases step with
  | connect here =>
    exact ⟨_, exact_outside exact (by rw [here]; exact id) id (by rw [here]; exact Iff.rfl)
      (by rw [here]; exact id)⟩
  | enter enters free => exact ⟨_, exact_enter exact enters free⟩
  | inside owner => exact exact_insideStep exact owner
  | recvName line here =>
    split
    · exact ⟨_, exact_outside exact (by rw [here]; exact id) id (by rw [here]; exact Iff.rfl)
        False.elim⟩
    · exact ⟨_, exact_outside exact (by rw [here]; exact id) id (by rw [here]; exact Iff.rfl)
        False.elim⟩
  | recvLine line here =>
    obtain ⟨outside, linked, unnamed⟩ := serverLoop_outside Client line (s.nameOf _)
    exact ⟨_, exact_outside exact (by rw [here]; exact id) outside
      (by rw [here]; exact iff_of_true linked trivial) fun none => absurd none unnamed⟩
  | deleteName here =>
    exact ⟨_, exact_outside exact (by rw [here]; exact id) id (by rw [here]; exact Iff.rfl)
      False.elim⟩

theorem exact_reachable (reachable : chatServer.Reachable s) : ∃ objects, s.Exact objects := by
  apply reachable.invariant
  · intro s facts
    rcases facts with ⟨free, first, names, points, -, sent⟩
    refine ⟨[], ?_⟩
    exact {
      chain := first
      nodup := List.nodup_nil
      linked := fun c => by
        rw [points]
        exact iff_of_false List.not_mem_nil id
      owner := fun c => by
        rw [points, free]
        exact iff_of_false id nofun
      unnamed := fun c _ => names c
      names := nofun
      walks := fun c held => by
        rw [free] at held
        cases held
      numbers := by
        rw [sent]
        exact nofun
      order := by
        rw [sent]
        exact List.Pairwise.nil }
  · intro s s' _ before step
    obtain ⟨objects, exact⟩ := before
    exact exact_step exact step

end steps

end Chatsrv
