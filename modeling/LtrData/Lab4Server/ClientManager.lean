import LtrData.Library.TransitionSystem
import Mathlib.Data.List.AList
import Mathlib.Logic.Function.Basic

namespace Lab4Server

/-- Where ServerMain stands in its accept loop and in the constructor it calls. -/
inductive MainThread (Client : Type)
  | accept
  | readName (c : Client)
  | lookup (c : Client)
  | refuse (c : Client)
  | start (c : Client)
  | ended
deriving DecidableEq

/-- Where the object and the thread of a connection stand. The calls are those about to be done. -/
inductive ClientThread
  | notConnected
  | constructing
  | refused
  | put
  | broadCastJoined
  | readLine
  | broadCastChat (chatMsg : String)
  | broadCastLeft
  | remove
  | left
deriving DecidableEq

structure State (Client : Type) where
  main : MainThread Client
  threads : Client → ClientThread
  name : Client → String
  userNames : AList fun _ : String => Client
  received : Client → List String

variable {Client : Type} [DecidableEq Client]

/-- Between the put and the remove. -/
def ClientThread.Joined : ClientThread → Prop
  | broadCastJoined | readLine | broadCastChat _ | broadCastLeft | remove => True
  | _ => False

/-- Between start() and the remove. -/
def ClientThread.Started (thread : ClientThread) : Prop := thread = .put ∨ thread.Joined

def MainThread.client : MainThread Client → Option Client
  | readName c | lookup c | refuse c | start c => some c
  | accept | ended => none

namespace State

def moveMain (s : State Client) (main : MainThread Client) : State Client := { s with main }

def move (s : State Client) (c : Client) (point : ClientThread) : State Client :=
  { s with threads := Function.update s.threads c point }

def setName (s : State Client) (c : Client) (name : String) : State Client :=
  { s with name := Function.update s.name c name }

def elements (s : State Client) : List Client := s.userNames.entries.map Sigma.snd

/-- The loop holds the lock of the table, and an exception of sendMsg does not end it. -/
def broadCastMsg (s : State Client) (msg : String) : State Client :=
  { s with received := fun c => if c ∈ s.elements then s.received c ++ [msg] else s.received c }

/-- Accepted by the constructor and not yet left. -/
def Accepted (s : State Client) (c : Client) : Prop :=
  s.main = .start c ∨ (s.threads c).Started

end State

section code

variable (toLowerCase : String → String)

/-- An exception of sendMsg is caught and the connection goes on. -/
def parseCommand (cmd : String) : Bool := toLowerCase cmd ≠ "/quit"

/-- A round of the main message loop. There is no line after an exception or at the end. -/
def messageLoop : Option String → ClientThread
  | none => .broadCastLeft
  | some chatMsg =>
    if chatMsg.length = 0 then .broadCastLeft
    else if chatMsg.front = '/' then
      if parseCommand toLowerCase chatMsg then .readLine else .broadCastLeft
    else .broadCastChat chatMsg

/-- One step of the accepting thread or of the thread of a connection. -/
inductive Step : State Client → State Client → Prop
  | accept {s : State Client} {c : Client} (point : s.main = .accept)
    (fresh : s.threads c = .notConnected) : Step s ((s.move c .constructing).moveMain (.readName c))
  | acceptFailed {s : State Client} (point : s.main = .accept) : Step s (s.moveMain .ended)
  | readName {s : State Client} {c : Client} {name : String} (point : s.main = .readName c)
    (line : name.length ≠ 0) : Step s ((s.setName c name).moveMain (.lookup c))
  | readNoName {s : State Client} {c : Client} (point : s.main = .readName c) :
    Step s ((s.move c .refused).moveMain .accept)
  | lookup {s : State Client} {c : Client} (point : s.main = .lookup c) :
    Step s (s.moveMain (if s.userNames.lookup (toLowerCase (s.name c)) ≠ none then .refuse c
      else .start c))
  | refuse {s : State Client} {c : Client} (point : s.main = .refuse c) :
    Step s ((s.move c .refused).moveMain .accept)
  | constructorFailed {s : State Client} {c : Client}
    (point : s.main = .readName c ∨ s.main = .refuse c) :
    Step s ((s.move c .refused).moveMain .ended)
  | start {s : State Client} {c : Client} (point : s.main = .start c) :
    Step s ((s.move c .put).moveMain .accept)
  | put {s : State Client} {c : Client} (point : s.threads c = .put) :
    Step s ({ s with userNames := s.userNames.insert (toLowerCase (s.name c)) c }.move c
      .broadCastJoined)
  | broadCastJoined {s : State Client} {c : Client} (point : s.threads c = .broadCastJoined) :
    Step s ((s.broadCastMsg (s.name c ++ " joined the chat.")).move c .readLine)
  | readLine {s : State Client} {c : Client} (line : Option String)
    (point : s.threads c = .readLine) : Step s (s.move c (messageLoop toLowerCase line))
  | broadCastChat {s : State Client} {c : Client} {chatMsg : String}
    (point : s.threads c = .broadCastChat chatMsg) :
    Step s ((s.broadCastMsg (s.name c ++ "> " ++ chatMsg)).move c .readLine)
  | broadCastLeft {s : State Client} {c : Client} (point : s.threads c = .broadCastLeft) :
    Step s ((s.broadCastMsg (s.name c ++ " left the chat.")).move c .remove)
  | remove {s : State Client} {c : Client} (point : s.threads c = .remove) :
    Step s ({ s with userNames := s.userNames.erase (toLowerCase (s.name c)) }.move c .left)

def server : TransitionSystem (State Client) where
  start s := s.main = .accept ∧ (∀ c, s.threads c = .notConnected) ∧ s.userNames = ∅
  step := Step toLowerCase

/-- Nicknames identify connections, and who is in the chat hears everybody. -/
structure NicknamesIdentify (s : State Client) : Prop where
  unique : ∀ c d, s.Accepted c → s.Accepted d →
    toLowerCase (s.name c) = toLowerCase (s.name d) → c = d
  inTable : ∀ c, (s.threads c).Joined → s.userNames.lookup (toLowerCase (s.name c)) = some c
  receives : ∀ c msg, (s.threads c).Joined →
    (s.broadCastMsg msg).received c = s.received c ++ [msg]

/-- When the constructor finds a name unused, no thread with that name has its put still to do. -/
def LooksUpAfterPuts (s s' : State Client) : Prop :=
  ∀ c, s.main = .lookup c → s'.main ≠ .lookup c →
    s.userNames.lookup (toLowerCase (s.name c)) = none →
    ∀ d, s.threads d = .put → toLowerCase (s.name d) ≠ toLowerCase (s.name c)

/-- What every state of a run keeps in which the lookups come after the puts. -/
structure TableExact (s : State Client) : Prop where
  unique : ∀ c d, s.Accepted c → s.Accepted d →
    toLowerCase (s.name c) = toLowerCase (s.name d) → c = d
  inTable : ∀ c, (s.threads c).Joined → s.userNames.lookup (toLowerCase (s.name c)) = some c
  owner : ∀ key c, s.userNames.lookup key = some c →
    (s.threads c).Joined ∧ toLowerCase (s.name c) = key
  constructing : ∀ c, s.main.client = some c → s.threads c = .constructing

end code

/-! ### What a step keeps -/

section steps

variable {toLowerCase : String → String} {s s' : State Client} {c : Client}

theorem move_self (point : ClientThread) : (s.move c point).threads c = point :=
  Function.update_self ..

theorem move_other (point : ClientThread) {d : Client} (other : d ≠ c) :
    (s.move c point).threads d = s.threads d := Function.update_of_ne other ..

theorem move_threads (point : ClientThread) (d : Client) :
    (s.move c point).threads d = if d = c then point else s.threads d := Function.update_apply ..

theorem setName_other (name : String) {d : Client} (other : d ≠ c) :
    (s.setName c name).name d = s.name d := Function.update_of_ne other ..

theorem messageLoop_joined (line : Option String) : (messageLoop toLowerCase line).Joined := by
  unfold messageLoop
  split
  · trivial
  · split
    · trivial
    · split
      · split <;> trivial
      · trivial

theorem started_of_joined {thread : ClientThread} (joined : thread.Joined) : thread.Started :=
  .inr joined

omit [DecidableEq Client] in
theorem accepted_of_joined (joined : (s.threads c).Joined) : s.Accepted c :=
  .inr (started_of_joined joined)

theorem not_started_notConnected : ¬ClientThread.notConnected.Started := by
  rintro (put | joined)
  · cases put
  · exact joined

theorem not_started_constructing : ¬ClientThread.constructing.Started := by
  rintro (put | joined)
  · cases put
  · exact joined

theorem not_started_refused : ¬ClientThread.refused.Started := by
  rintro (put | joined)
  · cases put
  · exact joined

omit [DecidableEq Client] in
theorem not_started (exact : TableExact toLowerCase s) (constructor : s.main.client = some c) :
    ¬(s.threads c).Started := by
  rw [exact.constructing c constructor]
  exact not_started_constructing

theorem accepted_of_move {userNames : AList fun _ : String => Client} {received : Client → List String}
    {point : ClientThread} {d : Client} (accepted : s.Accepted c)
    (there : ({ s with userNames, received }.move c point).Accepted d) : s.Accepted d := by
  by_cases own : d = c
  · rwa [own]
  · rcases there with start | started
    · exact .inl start
    · rw [move_other point own] at started
      exact .inr started

omit [DecidableEq Client] in
theorem tableExact_keep (exact : TableExact toLowerCase s)
    (accepted : ∀ c, s'.Accepted c → s.Accepted c)
    (names : ∀ c, s.Accepted c → s'.name c = s.name c)
    (userNames : s'.userNames = s.userNames)
    (joined : ∀ c, (s'.threads c).Joined ↔ (s.threads c).Joined)
    (constructing : ∀ c, s'.main.client = some c → s'.threads c = .constructing) :
    TableExact toLowerCase s' where
  unique c d first second same := by
    have firstBefore := accepted c first
    have secondBefore := accepted d second
    rw [names c firstBefore, names d secondBefore] at same
    exact exact.unique c d firstBefore secondBefore same
  inTable c there := by
    have before := (joined c).mp there
    rw [userNames, names c (accepted_of_joined before)]
    exact exact.inTable c before
  owner key c found := by
    rw [userNames] at found
    obtain ⟨before, same⟩ := exact.owner key c found
    rw [names c (accepted_of_joined before)]
    exact ⟨(joined c).mpr before, same⟩
  constructing := constructing

theorem tableExact_outside (exact : TableExact toLowerCase s) {main : MainThread Client}
    {point : ClientThread} (before : ¬(s.threads c).Started) (after : ¬point.Started)
    (starts : ∀ d, main ≠ .start d)
    (constructing : ∀ d, main.client = some d → d = c ∧ point = .constructing) :
    TableExact toLowerCase ((s.move c point).moveMain main) := by
  have threads : ∀ d, ((s.move c point).moveMain main).threads d =
      if d = c then point else s.threads d := move_threads point
  apply tableExact_keep exact
  · intro d accepted
    rcases accepted with start | started
    · exact absurd start (starts d)
    · rw [threads] at started
      by_cases own : d = c
      · rw [if_pos own] at started
        exact absurd started after
      · rw [if_neg own] at started
        exact .inr started
  · exact fun _ _ => rfl
  · rfl
  · intro d
    rw [threads]
    by_cases own : d = c
    · rw [if_pos own, own]
      exact iff_of_false (fun joined => after (started_of_joined joined))
        fun joined => before (started_of_joined joined)
    · rw [if_neg own]
  · intro d client
    obtain ⟨own, point⟩ := constructing d client
    rw [threads, if_pos own, point]

theorem tableExact_chat (exact : TableExact toLowerCase s) {received : Client → List String}
    {point : ClientThread} (before : (s.threads c).Joined) (joined : point.Joined) :
    TableExact toLowerCase ({ s with received }.move c point) := by
  have threads : ∀ d, (({ s with received } : State Client).move c point).threads d =
      if d = c then point else s.threads d := move_threads point
  apply tableExact_keep exact
  · exact fun d => accepted_of_move (accepted_of_joined before)
  · exact fun _ _ => rfl
  · rfl
  · intro d
    rw [threads]
    by_cases own : d = c
    · rw [if_pos own, own]
      exact iff_of_true joined before
    · rw [if_neg own]
  · intro d constructing
    have point := exact.constructing d constructing
    rw [threads, if_neg]
    · exact point
    · intro own
      rw [← own, point] at before
      exact before

theorem tableExact_readName (exact : TableExact toLowerCase s) {name : String}
    (point : s.main = .readName c) :
    TableExact toLowerCase ((s.setName c name).moveMain (.lookup c)) := by
  have constructor : s.main.client = some c := by
    rw [point]
    rfl
  apply tableExact_keep exact
  · rintro d (start | started)
    · cases start
    · exact .inr started
  · rintro d (start | started)
    · rw [point] at start
      cases start
    · apply setName_other
      intro own
      rw [own] at started
      exact not_started exact constructor started
  · rfl
  · exact fun _ => Iff.rfl
  · intro d constructing
    cases constructing
    exact exact.constructing c constructor

omit [DecidableEq Client] in
theorem tableExact_lookup (exact : TableExact toLowerCase s) (point : s.main = .lookup c)
    (unused : s.userNames.lookup (toLowerCase (s.name c)) = none)
    (puts : ∀ d, s.threads d = .put → toLowerCase (s.name d) ≠ toLowerCase (s.name c)) :
    TableExact toLowerCase (s.moveMain (.start c)) := by
  have others : ∀ d, (s.threads d).Started →
      toLowerCase (s.name d) ≠ toLowerCase (s.name c) := by
    intro d started
    rcases started with put | joined
    · exact puts d put
    · intro same
      have found := exact.inTable d joined
      rw [same, unused] at found
      cases found
  have accepted : ∀ d, (s.moveMain (.start c)).Accepted d → d = c ∨ (s.threads d).Started := by
    intro d accepted
    rcases accepted with start | started
    · cases start
      exact .inl rfl
    · exact .inr started
  exact {
    unique := by
      intro d e first second same
      rcases accepted d first with own | firstStarted
      · rcases accepted e second with alsoOwn | secondStarted
        · rw [own, alsoOwn]
        · rw [own] at same
          exact absurd same.symm (others e secondStarted)
      · rcases accepted e second with own | secondStarted
        · rw [own] at same
          exact absurd same (others d firstStarted)
        · exact exact.unique d e (.inr firstStarted) (.inr secondStarted) same
    inTable := exact.inTable
    owner := exact.owner
    constructing := by
      intro d client
      cases client
      apply exact.constructing
      rw [point]
      rfl }

omit [DecidableEq Client] in
theorem tableExact_refuse (exact : TableExact toLowerCase s) (point : s.main = .lookup c) :
    TableExact toLowerCase (s.moveMain (.refuse c)) := by
  apply tableExact_keep exact
  · intro d accepted
    rcases accepted with start | started
    · cases start
    · exact .inr started
  · exact fun _ _ => rfl
  · rfl
  · exact fun _ => Iff.rfl
  · intro d client
    cases client
    apply exact.constructing
    rw [point]
    rfl

theorem tableExact_start (exact : TableExact toLowerCase s) (point : s.main = .start c) :
    TableExact toLowerCase ((s.move c .put).moveMain .accept) := by
  have constructor : s.main.client = some c := by
    rw [point]
    rfl
  apply tableExact_keep exact
  · intro d accepted
    by_cases own : d = c
    · rw [own]
      exact .inl point
    · rcases accepted with start | started
      · cases start
      · have elsewhere : ((s.move c .put).threads d).Started := started
        rw [move_other _ own] at elsewhere
        exact .inr elsewhere
  · exact fun _ _ => rfl
  · rfl
  · intro d
    show ((s.move c .put).threads d).Joined ↔ _
    by_cases own : d = c
    · rw [own, move_self]
      exact iff_of_false id fun joined =>
        not_started exact constructor (started_of_joined joined)
    · rw [move_other _ own]
  · intro d client
    cases client

/-- A step of a thread of an accepted client that changes the table. -/
theorem tableExact_move (exact : TableExact toLowerCase s) (accepted : s.Accepted c)
    (started : s.threads c ≠ .constructing) {point : ClientThread} {userNames : AList fun _ : String => Client}
    (inTable : ∀ d, (if d = c then point else s.threads d).Joined →
      userNames.lookup (toLowerCase (s.name d)) = some d)
    (owner : ∀ key d, userNames.lookup key = some d →
      (if d = c then point else s.threads d).Joined ∧ toLowerCase (s.name d) = key) :
    TableExact toLowerCase ({ s with userNames }.move c point) := by
  have threads : ∀ d, (({ s with userNames } : State Client).move c point).threads d =
      if d = c then point else s.threads d := move_threads point
  exact {
    unique := fun d e first second =>
      exact.unique d e (accepted_of_move accepted first) (accepted_of_move accepted second)
    inTable := by
      intro d joined
      rw [threads] at joined
      exact inTable d joined
    owner := by
      intro key d found
      rw [threads]
      exact owner key d found
    constructing := by
      intro d client
      have constructing := exact.constructing d client
      rw [threads, if_neg]
      · exact constructing
      · intro own
        exact started (own ▸ constructing) }

theorem tableExact_put (exact : TableExact toLowerCase s) (point : s.threads c = .put) :
    TableExact toLowerCase
      ({ s with userNames := s.userNames.insert (toLowerCase (s.name c)) c }.move c
        .broadCastJoined) := by
  have accepted : s.Accepted c := .inr (.inl point)
  apply tableExact_move exact accepted (by rw [point]; simp)
  · intro d joined
    by_cases own : d = c
    · rw [own, AList.lookup_insert]
    · rw [if_neg own] at joined
      rw [AList.lookup_insert_ne]
      · exact exact.inTable d joined
      · exact fun same => own (exact.unique d c (accepted_of_joined joined) accepted same)
  · intro key d found
    by_cases own : key = toLowerCase (s.name c)
    · rw [own, AList.lookup_insert] at found
      cases found
      rw [if_pos rfl]
      exact ⟨trivial, own.symm⟩
    · rw [AList.lookup_insert_ne own] at found
      obtain ⟨joined, same⟩ := exact.owner key d found
      refine ⟨?_, same⟩
      split
      · trivial
      · exact joined

theorem tableExact_remove (exact : TableExact toLowerCase s) (point : s.threads c = .remove) :
    TableExact toLowerCase
      ({ s with userNames := s.userNames.erase (toLowerCase (s.name c)) }.move c .left) := by
  have accepted : s.Accepted c := by
    apply accepted_of_joined
    rw [point]
    trivial
  apply tableExact_move exact accepted (by rw [point]; simp)
  · intro d joined
    by_cases own : d = c
    · rw [if_pos own] at joined
      exact joined.elim
    · rw [if_neg own] at joined
      rw [AList.lookup_erase_ne]
      · exact exact.inTable d joined
      · exact fun same => own (exact.unique d c (accepted_of_joined joined) accepted same)
  · intro key d found
    have other : key ≠ toLowerCase (s.name c) := by
      intro own
      rw [own, AList.lookup_erase] at found
      cases found
    rw [AList.lookup_erase_ne other] at found
    obtain ⟨joined, same⟩ := exact.owner key d found
    rw [if_neg]
    · exact ⟨joined, same⟩
    · intro own
      rw [own] at same
      exact other same.symm

theorem tableExact_step (exact : TableExact toLowerCase s) (step : Step toLowerCase s s')
    (condition : LooksUpAfterPuts toLowerCase s s') : TableExact toLowerCase s' := by
  cases step with
  | accept point fresh =>
    apply tableExact_outside exact
    · rw [fresh]
      exact not_started_notConnected
    · exact not_started_constructing
    · exact fun _ same => by cases same
    · intro d client
      cases client
      exact ⟨rfl, rfl⟩
  | acceptFailed point =>
    apply tableExact_keep exact
    · intro d accepted
      rcases accepted with start | started
      · cases start
      · exact .inr started
    · exact fun _ _ => rfl
    · rfl
    · exact fun _ => Iff.rfl
    · intro d client
      cases client
  | readName point => exact tableExact_readName exact point
  | readNoName point =>
    apply tableExact_outside exact
    · apply not_started exact
      rw [point]
      rfl
    · exact not_started_refused
    · exact fun _ same => by cases same
    · exact fun _ client => by cases client
  | @lookup c point =>
    by_cases unused : s.userNames.lookup (toLowerCase (s.name c)) = none
    · have puts := condition c point (by rw [if_neg (not_not.mpr unused)]; exact nofun) unused
      rw [if_neg (not_not.mpr unused)]
      exact tableExact_lookup exact point unused puts
    · rw [if_pos unused]
      exact tableExact_refuse exact point
  | refuse point =>
    apply tableExact_outside exact
    · apply not_started exact
      rw [point]
      rfl
    · exact not_started_refused
    · exact fun _ same => by cases same
    · exact fun _ client => by cases client
  | constructorFailed point =>
    apply tableExact_outside exact
    · apply not_started exact
      rcases point with point | point
      · rw [point]
        rfl
      · rw [point]
        rfl
    · exact not_started_refused
    · exact fun _ same => by cases same
    · exact fun _ client => by cases client
  | start point => exact tableExact_start exact point
  | put point => exact tableExact_put exact point
  | broadCastJoined point => exact tableExact_chat exact (by rw [point]; trivial) trivial
  | readLine line point =>
    exact tableExact_chat exact (by rw [point]; trivial) (messageLoop_joined line)
  | broadCastChat point => exact tableExact_chat exact (by rw [point]; trivial) trivial
  | broadCastLeft point => exact tableExact_chat exact (by rw [point]; trivial) trivial
  | remove point => exact tableExact_remove exact point

theorem tableExact_reachable
    (reachable : ((server toLowerCase).restrict (LooksUpAfterPuts toLowerCase)).Reachable s) :
    TableExact toLowerCase s := by
  apply reachable.invariant
  · intro s facts
    rcases facts with ⟨main, threads, userNames⟩
    have nobody : ∀ d, ¬s.Accepted d := by
      intro d accepted
      rcases accepted with start | started
      · rw [main] at start
        cases start
      · rw [threads] at started
        exact not_started_notConnected started
    exact {
      unique := fun d _ first => absurd first (nobody d)
      inTable := fun d joined => absurd (accepted_of_joined joined) (nobody d)
      owner := by
        intro key d found
        rw [userNames, AList.lookup_empty] at found
        cases found
      constructing := by
        intro d client
        rw [main] at client
        cases client }
  · intro s s' _ exact step
    exact tableExact_step exact step.1 step.2

omit [DecidableEq Client] in
theorem mem_elements {key : String} (found : s.userNames.lookup key = some c) : c ∈ s.elements :=
  List.mem_map.mpr ⟨⟨key, c⟩, AList.mem_lookup_iff.mp found, rfl⟩

theorem nicknamesIdentify_of_tableExact (exact : TableExact toLowerCase s) :
    NicknamesIdentify toLowerCase s where
  unique := exact.unique
  inTable := exact.inTable
  receives c msg joined := by
    show (if c ∈ s.elements then s.received c ++ [msg] else s.received c) = _
    exact if_pos (mem_elements (exact.inTable c joined))

/-- Two connections are accepted under one name once the constructor overtakes a put. -/
theorem not_nicknamesIdentify (exact : TableExact toLowerCase s) (step : Step toLowerCase s s')
    (overtakes : ¬LooksUpAfterPuts toLowerCase s s') : ¬NicknamesIdentify toLowerCase s' := by
  intro identify
  unfold LooksUpAfterPuts at overtakes
  push Not at overtakes
  obtain ⟨c, point, moved, unused, d, put, same⟩ := overtakes
  have apart : d ≠ c := by
    intro own
    have constructing := exact.constructing c (by rw [point]; rfl)
    rw [← own, put] at constructing
    cases constructing
  have after : s' = s.moveMain (.start c) := by
    cases step with
    | @lookup e here =>
      rw [point] at here
      cases here
      rw [if_neg (not_not.mpr unused)]
    | accept here | acceptFailed here | readName here | readNoName here | refuse here
    | start here =>
      rw [point] at here
      cases here
    | constructorFailed here =>
      rw [point] at here
      rcases here with here | here
      · cases here
      · cases here
    | put | broadCastJoined | readLine | broadCastChat | broadCastLeft | remove =>
      exact absurd point moved
  rw [after] at identify
  exact apart (identify.unique d c (.inr (.inl put)) (.inl rfl) same)

end steps

/-! ### The chat server -/

theorem lookup_unused {toLowerCase : String → String} {s : State Client} {c : Client}
    (point : s.main = .lookup c)
    (unused : s.userNames.lookup (toLowerCase (s.name c)) = none) :
    Step toLowerCase s (s.moveMain (.start c)) := by
  have step : Step toLowerCase s _ := .lookup point
  rw [if_neg (not_not.mpr unused)] at step
  exact step

/-- A client connects with a name while the table is empty, and its thread has not run yet. -/
theorem connect_unseen (toLowerCase : String → String) {s : State Client} (c : Client)
    (name : String) (point : s.main = .accept) (fresh : s.threads c = .notConnected)
    (line : name.length ≠ 0) (empty : s.userNames = ∅) :
    ∃ s', Relation.ReflTransGen (Step toLowerCase) s s' ∧ s'.main = .accept ∧
      s'.userNames = ∅ ∧ s'.threads = Function.update s.threads c .put ∧
      s'.name = Function.update s.name c name := by
  have accept : Step toLowerCase s _ := .accept point fresh
  have readName : Step toLowerCase ((s.move c .constructing).moveMain (.readName c)) _ :=
    .readName rfl line
  have lookup : Step toLowerCase
      ((((s.move c .constructing).moveMain (.readName c)).setName c name).moveMain (.lookup c)) _ :=
    lookup_unused rfl (by
      show s.userNames.lookup _ = none
      rw [empty, AList.lookup_empty])
  have start : Step toLowerCase (((((s.move c .constructing).moveMain (.readName c)).setName c
      name).moveMain (.lookup c)).moveMain (.start c)) _ := .start rfl
  refine ⟨_, (((Relation.ReflTransGen.single accept).tail readName).tail lookup).tail start, rfl,
    empty, ?_, rfl⟩
  exact Function.update_idem ..

def listening : State Nat := ⟨.accept, fun _ => .notConnected, fun _ => "", ∅, fun _ => []⟩

theorem reachable_listening : (server String.toLower).Reachable listening :=
  TransitionSystem.reachable_start ⟨rfl, fun _ => rfl, rfl⟩

end Lab4Server
