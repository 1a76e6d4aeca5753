import LtrData.Ftpcp.Handover
import Mathlib.Data.List.Forall2

namespace Ftpcp

open Octet Popdump

/-! ### What is said and heard on the control connections -/

def Action.exchange? : Action → Option Exchange
  | .reply e => some e
  | .sync .givePort => some PASV
  | _ => none

def Action.command (port : List Octet) : Action → Option (List Octet)
  | .send strings => some strings.reduceOption.flatten
  | .quit => some (text "QUIT" ++ [LF])
  | .sync .relayPort => some (portCommand port)
  | _ => none

def Exchange.Answered (e : Exchange) (line : List Octet) : Prop :=
  e.codes = [] ∨ line.take 3 ∈ e.codes

/-- A thread has done a first part of its actions: it has sent the commands of these and no others,
    each behind an expected answer to the one before, and a PORT command with the string given. -/
def Conversation (c : Config) (s : State) (thread : Thread) : Prop :=
  ∃ done port, c.actions thread = done ++ (s.parties thread).left ∧
    (.sync .relayPort ∈ done → s.shared.port = some port) ∧
    (s.parties thread).said = done.filterMap (Action.command port) ∧
    List.Forall₂ Exchange.Answered (done.filterMap Action.exchange?) (s.parties thread).heard

/-- A port string is what a server's answer to PASV has in parentheses, or a listener's address. -/
def PortFromSource (c : Config) (s : State) : Prop :=
  ∀ port, s.shared.port = some port →
    if c.isServer .PasvThread then
      ∃ line ∈ (s.parties .PasvThread).heard, line.take 3 = text "227" ∧ szPortStr line = some port
    else ∃ a, a.sin_addr = c.targetAddr ∧ s.shared.listener = some a ∧ port = a.render

section exchanges

def Exchange.Clean (e : Exchange) : Prop := ∀ code ∈ e.codes, code.length = 3 ∧ NUL ∉ code

instance (e : Exchange) : Decidable e.Clean := inferInstanceAs (Decidable (∀ _ ∈ _, _))

theorem clean_exchanges (thread : Thread) (bModeA bModeB : Bool) :
    ∀ e ∈ thread.exchanges bModeA bModeB, e.Clean := by
  cases thread <;> cases bModeA <;> cases bModeB <;> decide

/-- The replies of a thread, with the one to QUIT, are those of its loops. -/
theorem exchanges_eq (c : Config) {thread : Thread} (server : c.isServer thread = true) :
    (c.actions thread).filterMap Action.exchange? ++ [⟨cBufferSize, []⟩] =
      thread.exchanges c.bModeA c.bModeB := by
  unfold Config.isServer at server
  obtain ⟨szServer, isServer⟩ := Option.isSome_iff_exists.mp server
  cases thread with
  | PasvThread =>
    unfold Config.actions ConnectionInfo.PasvThread
    rw [isServer]
    cases c.bModeA <;> cases c.bModeB <;> rfl
  | PortThread =>
    unfold Config.actions ConnectionInfo.PortThread
    rw [isServer]
    cases c.bModeA <;> cases c.bModeB <;> rfl

theorem clean_action (c : Config) {thread : Thread} {action : Action} {e : Exchange}
    (mem : action ∈ c.actions thread) (isExchange : action.exchange? = some e) : e.Clean := by
  have inside : e ∈ (c.actions thread).filterMap Action.exchange? :=
    List.mem_filterMap.mpr ⟨action, mem, isExchange⟩
  cases kind : c.isServer thread with
  | true =>
    apply clean_exchanges thread c.bModeA c.bModeB
    rw [← exchanges_eq c kind]
    exact List.mem_append_left _ inside
  | false =>
    have none_ : (c.actions thread).filterMap Action.exchange? = [] := by
      have isNone := Option.isSome_eq_false_iff.mp kind
      rw [Option.isNone_iff_eq_none] at isNone
      cases thread with
      | PasvThread =>
        unfold Config.actions ConnectionInfo.PasvThread
        rw [isNone]
        rfl
      | PortThread =>
        unfold Config.actions ConnectionInfo.PortThread
        rw [isNone]
        rfl
    rw [none_] at inside
    cases inside

/-- The test of a code is one of the string in the buffer. -/
theorem answered_of_accepts {e : Exchange} (clean : e.Clean) {cBuffer : Buffer}
    (accepted : e.accepts cBuffer = true) : e.Answered (cString cBufferSize cBuffer) := by
  unfold Exchange.accepts at accepted
  rw [Bool.or_eq_true, decide_eq_true_eq, decide_eq_true_eq] at accepted
  apply accepted.imp_right
  intro mem
  obtain ⟨-, noNul⟩ := clean _ mem
  have split : (List.range cBufferSize).map cBuffer =
      (List.range 3).map cBuffer ++ (List.range (cBufferSize - 3)).map fun i => cBuffer (3 + i) := by
    rw [show cBufferSize = 3 + (cBufferSize - 3) from rfl, List.range_add, List.map_append,
      List.map_map]
    rfl
  have all : ∀ x ∈ (List.range 3).map cBuffer, decide (x ≠ NUL) = true := by
    intro x inside
    rw [decide_eq_true_eq]
    intro same
    exact noNul (same ▸ inside)
  have three : ((List.range 3).map cBuffer).length = 3 := rfl
  unfold cString beforeNul
  rw [split, List.takeWhile_append_of_pos all, List.take_left' three]
  exact mem

end exchanges

section conversation

variable {c : Config} {s s' : State} {thread : Thread} {action : Action} {rest : List Action}
  {p : Party} {sh : Shared}

theorem filterMap_one {α β : Type} (f : α → Option β) (a : α) : [a].filterMap f = (f a).toList := by
  rw [List.filterMap_cons]
  cases f a <;> rfl

theorem command_of_ne (other : action ≠ .sync .relayPort) (port port' : List Octet) :
    action.command port = action.command port' := by
  cases action with
  | sync point =>
    cases point with
    | relayPort => exact absurd rfl other
    | _ => rfl
  | _ => rfl

/-- A thread has done one action more, with what it says and hears in it. -/
theorem Conversation.own (conversation : Conversation c s thread) (at_ : s.At thread action rest)
    (other : action ≠ .sync .relayPort)
    (kept : ∀ port, s.shared.port = some port → sh.port = some port)
    (said : p.said = (s.parties thread).said ++ (action.command []).toList)
    {lines : List (List Octet)} (heard : p.heard = (s.parties thread).heard ++ lines)
    (answered : List.Forall₂ Exchange.Answered action.exchange?.toList lines) :
    Conversation c { s.set thread p rest with shared := sh } thread := by
  obtain ⟨done, port, actions, isPort, earlier, replies⟩ := conversation
  have own : (State.parties { s.set thread p rest with shared := sh } thread) = { p with left := rest } :=
    Function.update_self _ _ _
  refine ⟨done ++ [action], port, ?_, ?_, ?_, ?_⟩
  · rw [own, actions, at_.left]
    simp
  · intro mem
    rcases List.mem_append.mp mem with before | now
    · exact kept port (isPort before)
    · exact absurd (List.mem_singleton.mp now).symm other
  · rw [own, List.filterMap_append, ← earlier, filterMap_one, command_of_ne other port []]
    exact said
  · rw [own, List.filterMap_append, filterMap_one]
    show List.Forall₂ _ _ p.heard
    rw [heard]
    exact List.rel_append replies answered

/-- What another thread does, or the pipes and the data connection, is not in it. -/
theorem Conversation.kept (conversation : Conversation c s thread)
    (same : s'.parties thread = s.parties thread)
    (kept : ∀ port, s.shared.port = some port → s'.shared.port = some port) :
    Conversation c s' thread := by
  obtain ⟨done, port, actions, isPort, said, heard⟩ := conversation
  refine ⟨done, port, ?_, fun mem => kept port (isPort mem), ?_, ?_⟩ <;> rw [same] <;> assumption

/-- A PORT command has the string from the pipe. -/
theorem Conversation.relay (conversation : Conversation c s thread)
    (at_ : s.At thread (.sync .relayPort) rest) {port : List Octet} (isPort : sh.port = some port)
    (said : p.said = (s.parties thread).said ++ [portCommand port])
    (heard : p.heard = (s.parties thread).heard) :
    Conversation c { s.set thread p rest with shared := sh } thread := by
  obtain ⟨done, before, actions, -, earlier, replies⟩ := conversation
  have own : (State.parties { s.set thread p rest with shared := sh } thread) = { p with left := rest } :=
    Function.update_self _ _ _
  have notDone : Action.sync .relayPort ∉ done := by
    intro mem
    have once : (thread.order (c.isServer thread)).Nodup := by
      have all := order_once (c.isServer .PasvThread) (c.isServer .PortThread)
      rw [List.nodup_append] at all
      cases thread with
      | PasvThread => exact all.1
      | PortThread => exact all.2.1
    rw [← c.todo_actions, actions, at_.left, todo, List.filterMap_append, List.nodup_append] at once
    have first : Sync.relayPort ∈ done.filterMap Action.sync? :=
      List.mem_filterMap.mpr ⟨_, mem, rfl⟩
    exact once.2.2 _ first _ List.mem_cons_self rfl
  refine ⟨done ++ [.sync .relayPort], port, ?_, fun _ => isPort, ?_, ?_⟩
  · rw [own, actions, at_.left]
    simp
  · have same : done.filterMap (Action.command before) = done.filterMap (Action.command port) := by
      apply List.filterMap_congr
      intro a mem
      apply command_of_ne
      intro isRelay
      exact notDone (isRelay ▸ mem)
    rw [own, List.filterMap_append, ← same, ← earlier]
    exact said
  · rw [own, List.filterMap_append, filterMap_one]
    show List.Forall₂ _ (_ ++ []) p.heard
    rw [heard, List.append_nil]
    exact replies

/-- What a point adds to a conversation. -/
theorem Sound.kept_port (sound : Sound c s) {point : Sync} (at_ : s.At thread (.sync point) rest)
    (does : Does c point (s.parties thread, s.shared) (p, sh)) (port : List Octet)
    (given : s.shared.port = some port) : sh.port = some port := by
  have pend : Pending s point := ⟨thread, by rw [todo_sync at_]; exact List.mem_cons_self⟩
  have ungiven (giving : Giving (Pending s)) : False := by
    have none_ := (sound.handover.ungiven giving).1
    rw [given] at none_
    cases none_
  cases does with
  | listen => exact (ungiven (.inr pend)).elim
  | givePort => exact (ungiven (.inl pend)).elim
  | putTarget | relayPort | connectPort | accept | upload | download => exact given

theorem Sound.converses (sound : Sound c s) {point : Sync} (at_ : s.At thread (.sync point) rest)
    (conversation : Conversation c s thread)
    (does : Does c point (s.parties thread, s.shared) (p, sh)) :
    Conversation c { s.set thread p rest with shared := sh } thread := by
  have kept := sound.kept_port at_ does
  have pend : Pending s point := ⟨thread, by rw [todo_sync at_]; exact List.mem_cons_self⟩
  cases does with
  | putTarget | listen | connectPort | accept | upload | download =>
    exact conversation.own at_ (by simp) kept (List.append_nil _).symm (List.append_nil _).symm .nil
  | givePort marked accepted =>
    have clean : PASV.Clean := by decide
    exact conversation.own at_ (by simp) kept (List.append_nil _).symm rfl
      (.cons (answered_of_accepts clean accepted) .nil)
  | relayPort whole =>
    exact conversation.relay at_ (sound.handover.received whole (.inl pend) (s.parties thread)).2 rfl rfl

theorem conversation_start (c : Config) (thread : Thread) : Conversation c c.start thread :=
  ⟨[], [], rfl, fun mem => absurd mem List.not_mem_nil, rfl, .nil⟩

theorem conversation_step (sound : Sound c s) (conversations : ∀ thread, Conversation c s thread)
    (step : Step c s s') : ∀ thread, Conversation c s' thread := by
  intro thread
  have before := conversations thread
  have others {t : Thread} {p : Party} {rest : List Action} {sh : Shared} (apart : thread ≠ t)
      (kept : ∀ port, s.shared.port = some port → sh.port = some port) :
      Conversation c { s.set t p rest with shared := sh } thread :=
    before.kept (left_other s apart p rest) kept
  cases step with
  | @openFile t _ rest at_ =>
    by_cases same : thread = t
    · subst same
      exact before.own at_ (by simp) (fun _ => id) (List.append_nil _).symm (List.append_nil _).symm .nil
    · exact others same fun _ => id
  | @send t _ rest at_ =>
    by_cases same : thread = t
    · subst same
      exact before.own at_ (by simp) (fun _ => id) rfl (List.append_nil _).symm .nil
    · exact others same fun _ => id
  | @reply t e rest at_ accepted =>
    by_cases same : thread = t
    · subst same
      obtain ⟨done, -, actions, -⟩ := before
      have mem : Action.reply e ∈ c.actions thread := by
        rw [actions, at_.left]
        exact List.mem_append_right _ List.mem_cons_self
      have clean : e.Clean := clean_action c mem rfl
      exact (conversations thread).own at_ (by simp) (fun _ => id) (List.append_nil _).symm rfl
        (.cons (answered_of_accepts clean accepted) .nil)
    · exact others same fun _ => id
  | @quit t rest at_ | @quitFails t rest at_ =>
    by_cases same : thread = t
    · subst same
      exact before.own at_ (by simp) (fun _ => id) rfl (List.append_nil _).symm .nil
    · exact others same fun _ => id
  | @sync t point rest p sh at_ does =>
    by_cases same : thread = t
    · subst same
      exact sound.converses at_ before does
    · exact others same (sound.kept_port at_ does)
  | moves _ moves =>
    refine before.kept rfl fun port given => ?_
    cases moves <;> exact given
  | openNull | sendNull | fails | returns => exact before.kept rfl fun _ => id

theorem heard_set (s : State) (thread : Thread) (p : Party) (rest : List Action) :
    ((s.set thread p rest).parties thread).heard = p.heard := by
  unfold State.set
  dsimp only
  rw [Function.update_self]

/-- What has been heard stays. -/
theorem heard_grows (step : Step c s s') (thread : Thread) :
    (s.parties thread).heard ⊆ (s'.parties thread).heard := by
  have set {t : Thread} {p : Party} {rest : List Action} (more : (s.parties t).heard ⊆ p.heard) :
      (s.parties thread).heard ⊆ ((s.set t p rest).parties thread).heard := by
    by_cases same : thread = t
    · subst same
      rw [heard_set]
      exact more
    · rw [left_other s same]
      exact List.Subset.refl _
  cases step with
  | openFile | send | quit | quitFails => exact set (List.Subset.refl _)
  | reply => exact set (List.subset_append_left _ _)
  | sync at_ does =>
    refine set ?_
    cases does with
    | givePort => exact List.subset_append_left _ _
    | putTarget | listen | relayPort | connectPort | accept | upload | download =>
      exact List.Subset.refl _
  | moves | openNull | sendNull | fails | returns => exact List.Subset.refl _

/-- What a server's answer to PASV has in parentheses. -/
def PortHeard (s : State) : Prop :=
  ∀ port, s.shared.port = some port →
    ∃ line ∈ (s.parties .PasvThread).heard, line.take 3 = text "227" ∧ szPortStr line = some port

theorem portHeard_step (sound : Sound c s) (server : c.isServer .PasvThread = true)
    (portHeard : PortHeard s) (step : Step c s s') : PortHeard s' := by
  have grows := heard_grows step .PasvThread
  have kept (same : s'.shared.port = s.shared.port) : PortHeard s' := by
    intro port isPort
    rw [same] at isPort
    obtain ⟨line, mem, answer⟩ := portHeard port isPort
    exact ⟨line, grows mem, answer⟩
  cases step with
  | openFile | send | reply | quit | quitFails | openNull | sendNull | fails | returns => exact kept rfl
  | moves _ moves =>
    apply kept
    cases moves <;> rfl
  | @sync thread point rest p sh at_ does =>
    cases does with
    | putTarget | relayPort | connectPort | accept | upload | download => exact kept rfl
    | listen =>
      have local_ := sound.order.belongs.listen
        ⟨thread, by rw [todo_sync at_]; exact List.mem_cons_self⟩
      rw [server] at local_
      cases local_
    | @givePort _ _ given marked accepted found =>
      have isSource : thread = .PasvThread := sound.order.own at_
      subst isSource
      intro port isPort
      obtain rfl : given = port := Option.some.inj isPort
      have answered := answered_of_accepts (show PASV.Clean by decide) accepted
      refine ⟨((s.parties .PasvThread).receive PASV).string, ?_, ?_, found⟩
      · show _ ∈ (Party.heard ((State.set s .PasvThread _ rest).parties .PasvThread))
        rw [heard_set]
        exact List.mem_append_right _ (List.mem_singleton.mpr rfl)
      · rcases answered with any | code
        · cases any
        · exact List.mem_singleton.mp code

theorem Sound.fromSource (sound : Sound c s)
    (portHeard : c.isServer .PasvThread = true → PortHeard s) : PortFromSource c s := by
  intro port isPort
  cases source : c.isServer .PasvThread with
  | true => exact portHeard source port isPort
  | false =>
    have listening : ¬Pending s .listen := by
      intro pend
      have none_ := (sound.handover.ungiven (.inr pend)).1
      rw [isPort] at none_
      cases none_
    obtain ⟨a, addr, listener, given⟩ := sound.listening.listening source listening
    rw [isPort] at given
    exact ⟨a, addr, listener, Option.some.inj given⟩

end conversation

/-! ### Results over all runs -/

/-- The transfer is over: both threads are at their end, and nothing is left of the data. -/
structure Complete (c : Config) (s : State) : Prop where
  left : ∀ thread, (s.parties thread).left = []
  sent : c.isServer .PasvThread = false → s.shared.uploaded = c.input
  received : c.isServer .PortThread = false → s.shared.output = s.shared.uploaded

section results

variable {c : Config} {s s' : State}

theorem returned_step (step : Step c s s') : s'.exit = some .returned → ∀ thread, (s'.parties thread).left = [] := by
  intro exit
  cases step with
  | openFile at_ | send at_ | reply at_ | quit at_ | quitFails at_ | sync at_ =>
    have running : s.exit = some .returned := exit
    rw [at_.running] at running
    cases running
  | moves running =>
    rw [show s.exit = _ from exit] at running
    cases running
  | openNull | sendNull | fails => cases exit
  | returns _ all => exact all

theorem Sound.complete (sound : Sound c s) (left : ∀ thread, (s.parties thread).left = []) :
    Complete c s := by
  have none_ (point : Sync) : ¬Pending s point := by
    intro pend
    obtain ⟨thread, mem⟩ := pend
    rw [left thread] at mem
    cases mem
  refine ⟨left, fun source => ?_, fun target => ?_⟩
  · have all := (sound.carried.sent source (none_ .upload)).2
    rw [sound.carried.input source, all, List.append_nil]
  · have all := (sound.carried.received target (none_ .download)).2
    rw [sound.carried.data, all, List.append_nil]

/-- What the threads have said and heard, in every state of every run. -/
theorem converses_reachable (reachable : (program c).Reachable s) :
    (∀ thread, Conversation c s thread) ∧ (c.isServer .PasvThread = true → PortHeard s) ∧
      (s.exit = some .returned → ∀ thread, (s.parties thread).left = []) := by
  apply reachable.invariant
  · intro s start
    rw [show s = _ from start]
    refine ⟨conversation_start c, fun _ port none_ => ?_, fun none_ => ?_⟩
    · cases none_
    · cases none_
  · intro s s' reachable invariant step
    obtain ⟨conversations, portHeard, returned⟩ := invariant
    have sound := sound_reachable reachable
    exact ⟨conversation_step sound conversations step,
      fun server => portHeard_step sound server (portHeard server) step, returned_step step⟩

/-- In every state of every run, each thread's conversation with its server is a first part of its
    own, a target is told the port that the source has given, data are neither lost nor doubled
    nor mixed up, and where main returns the transfer is complete. -/
theorem transfer_safe (c : Config) {s : State} (reachable : (program c).Reachable s) :
    (∀ thread, Conversation c s thread) ∧ PortFromSource c s ∧
      s.shared.uploaded = s.shared.output ++ s.shared.data ∧
      (c.isServer .PasvThread = false → c.input = s.shared.uploaded ++ s.shared.unread) ∧
      (s.exit = some .returned → Complete c s) := by
  have sound := sound_reachable reachable
  obtain ⟨conversations, portHeard, returned⟩ := converses_reachable reachable
  exact ⟨conversations, sound.fromSource portHeard, sound.carried.data, sound.carried.input,
    fun exit => sound.complete (returned exit)⟩

end results

/-! ### No deadlock -/

/-- What has still to be done by the threads. -/
def work (c : Config) (s : State) : Nat :=
  (s.parties .PasvThread).left.length + (s.parties .PortThread).left.length +
    2 * s.shared.unread.length + if c.isServer .PortThread then 0 else s.shared.data.length

/-- A thread that gets there waits. -/
def Waits (s : State) : Sync → Prop
  | .listen => s.shared.hTargetAddr.length < 4
  | .relayPort | .connectPort => LF ∉ s.shared.hSourcePort
  | .accept => s.shared.connected = false
  | .download => s.shared.data = [] ∧ s.shared.closed = false
  | _ => False

/-- A reply that is not accepted, or a null pointer, ends the process. -/
inductive Refused (s : State) : Prop
  | openNull {thread : Thread} {rest : List Action} (at_ : s.At thread (.openFile none) rest)
  | sendNull {thread : Thread} {strings : List (Option (List Octet))} {rest : List Action}
    (at_ : s.At thread (.send strings) rest) (null : none ∈ strings)
  | reply {thread : Thread} {e : Exchange} {rest : List Action} (at_ : s.At thread (.reply e) rest)
    (rejected : e.accepts ((s.parties thread).receive e).cBuffer = false)
  | answer {thread : Thread} {rest : List Action} (at_ : s.At thread (.sync .givePort) rest)
    (useless : PASV.accepts ((s.parties thread).receive PASV).cBuffer = false ∨
      szPortStr ((s.parties thread).receive PASV).string = none)

/-- A thread waits for what only a server does: a connection, or data. -/
inductive AwaitsServer (c : Config) (s : State) : Prop
  | accept {rest : List Action} (server : c.isServer .PortThread = true)
    (at_ : s.At .PasvThread (.sync .accept) rest)
  | download {rest : List Action} (server : c.isServer .PasvThread = true)
    (at_ : s.At .PortThread (.sync .download) rest)

/-- A step that takes the transfer on. -/
def Goes (c : Config) (s : State) : Prop := ∃ s', Step c s s' ∧ s'.exit = none ∧ work c s' < work c s

section progress

variable {c : Config} {s : State} {thread : Thread} {rest : List Action}

theorem work_set {action : Action} (at_ : s.At thread action rest) (p : Party) (sh : Shared)
    (unread : sh.unread = s.shared.unread) (data : sh.data = s.shared.data) :
    work c { s.set thread p rest with shared := sh } < work c s := by
  have own := left_set s thread p rest
  have before : (s.parties thread).left.length = rest.length + 1 := by
    rw [at_.left]
    rfl
  have other {t : Thread} (apart : t ≠ thread) := left_other s apart p rest
  unfold work
  dsimp only
  rw [unread, data]
  cases thread with
  | PasvThread =>
    rw [own, other (by decide)]
    omega
  | PortThread =>
    rw [own, other (by decide)]
    omega

theorem goes_set {action : Action} (at_ : s.At thread action rest) {p : Party}
    (step : Step c s (s.set thread p rest)) : Goes c s :=
  ⟨_, step, at_.running, work_set at_ p s.shared rfl rfl⟩

theorem goes_sync {point : Sync} (at_ : s.At thread (.sync point) rest) {p : Party} {sh : Shared}
    (does : Does c point (s.parties thread, s.shared) (p, sh)) (unread : sh.unread = s.shared.unread)
    (data : sh.data = s.shared.data) : Goes c s :=
  ⟨_, .sync at_ does, at_.running, work_set at_ p sh unread data⟩

theorem exists_piece {data : List Octet} (some_ : data ≠ []) :
    ∃ piece behind, data = piece ++ behind ∧ piece ≠ [] ∧ piece.length ≤ cBufferSize := by
  obtain ⟨c, behind, rfl⟩ := List.exists_cons_of_ne_nil some_
  exact ⟨[c], behind, rfl, List.cons_ne_nil _ _, show 1 ≤ 2048 by decide⟩

theorem Sound.goes_at (sound : Sound c s) {point : Sync} (at_ : s.At thread (.sync point) rest)
    (ready : ¬Waits s point) : Goes c s ∨ Refused s := by
  have pend : Pending s point := ⟨thread, by rw [todo_sync at_]; exact List.mem_cons_self⟩
  have belongs := sound.order.belongs
  have isThread := sound.order.own at_
  cases point with
  | putTarget => exact .inl (goes_sync at_ .putTarget rfl rfl)
  | listen =>
    have first : ¬Pending s .putTarget := by
      intro untold
      have empty := sound.listening.untold untold
      exact ready (by rw [Waits, empty]; decide)
    have told := sound.listening.told first pend
    have behind : s.shared.hTargetAddr =
        (SockAddr.mk c.targetAddr 0 0).sin_addr.bytes ++ [] := by rw [told, List.append_nil]
    exact .inl (goes_sync at_ (.listen behind) rfl rfl)
  | givePort =>
    by_cases accepted : PASV.accepts ((s.parties thread).receive PASV).cBuffer = true
    · cases found : szPortStr ((s.parties thread).receive PASV).string with
      | some port => exact .inl (goes_sync at_ (.givePort (fun _ => 0) accepted found) rfl rfl)
      | none => exact .inr (.answer at_ (.inr found))
    · exact .inr (.answer at_ (.inl (Bool.eq_false_of_not_eq_true accepted)))
  | relayPort =>
    have whole := Classical.not_not.mp ready
    exact .inl (goes_sync at_ (.relayPort whole (sound.handover.line_some whole (.inl pend) _)) rfl rfl)
  | connectPort =>
    have whole := Classical.not_not.mp ready
    refine .inl (goes_sync at_ (.connectPort whole (sound.handover.line_some whole (.inr pend) _) ?_)
      rfl rfl)
    intro source
    have given := (sound.handover.line whole (.inr pend)).1
    obtain ⟨a, -, listener, isPort⟩ :=
      sound.listening.listening source fun listens => given (.inr listens)
    have string := (sound.handover.received whole (.inr pend) (s.parties thread)).2
    rw [isPort] at string
    exact ⟨a, listener, by rw [← Option.some.inj string, sscanf_render]⟩
  | accept => exact .inl (goes_sync at_ (.accept (Bool.eq_true_of_not_eq_false ready)) rfl rfl)
  | upload =>
    by_cases all : s.shared.unread = []
    · exact .inl (goes_sync at_ (.upload all) rfl rfl)
    · obtain ⟨piece, behind, read, some_, fits⟩ := exists_piece all
      subst isThread
      refine .inl ⟨_, .moves at_.running (.uploads at_ read some_ fits), at_.running, ?_⟩
      have pieces := List.length_pos_iff.mpr some_
      unfold work
      dsimp only
      rw [read, List.length_append, List.length_append]
      split <;> omega
  | download =>
    by_cases all : s.shared.data = []
    · have closed : s.shared.closed = true :=
        Bool.eq_true_of_not_eq_false fun open_ => ready ⟨all, open_⟩
      exact .inl (goes_sync at_ (.download all closed) rfl rfl)
    · obtain ⟨piece, behind, read, some_, fits⟩ := exists_piece all
      subst isThread
      refine .inl ⟨_, .moves at_.running (.downloads at_ read some_ fits), at_.running, ?_⟩
      have pieces := List.length_pos_iff.mpr some_
      unfold work
      dsimp only
      rw [belongs.download pend, read, List.length_append]
      simp only [Bool.false_eq_true, if_false]
      omega

/-- A thread that does not wait goes on, where its server accepts what it has said. -/
theorem Sound.goes (sound : Sound c s) {action : Action} (at_ : s.At thread action rest)
    (ready : ∀ point, action = .sync point → ¬Waits s point) : Goes c s ∨ Refused s := by
  cases action with
  | openFile szPath =>
    cases szPath with
    | some szPath => exact .inl (goes_set at_ (.openFile at_))
    | none => exact .inr (.openNull at_)
  | send strings =>
    by_cases null : none ∈ strings
    · exact .inr (.sendNull at_ null)
    · exact .inl (goes_set at_ (.send at_ null))
  | reply e =>
    by_cases accepted : e.accepts ((s.parties thread).receive e).cBuffer = true
    · exact .inl (goes_set at_ (.reply at_ accepted))
    · exact .inr (.reply at_ (Bool.eq_false_of_not_eq_true accepted))
  | quit => exact .inl (goes_set at_ (.quitFails at_))
  | sync point => exact sound.goes_at at_ (ready point rfl)

/-- The points of the other thread that a thread waits for. -/
def Awaits : Sync → Sync → Prop
  | .listen, .putTarget => True
  | .relayPort, .givePort | .relayPort, .listen => True
  | .connectPort, .givePort | .connectPort, .listen => True
  | .accept, .connectPort => True
  | .download, .upload => True
  | _, _ => False

/-- A thread that waits, for a point that has not been reached or for a server. -/
theorem Sound.awaits (sound : Sound c s) {point : Sync} (at_ : s.At thread (.sync point) rest)
    (waits : Waits s point) : AwaitsServer c s ∨ ∃ other, Awaits point other ∧ Pending s other := by
  have pend : Pending s point := ⟨thread, by rw [todo_sync at_]; exact List.mem_cons_self⟩
  have isThread := sound.order.own at_
  have giving (noLine : LF ∉ s.shared.hSourcePort) (taking : Taking (Pending s)) :
      Pending s .givePort ∨ Pending s .listen := by
    by_contra given
    obtain ⟨port, -, -, pipe, -⟩ := sound.handover.given given
    rw [pipe taking] at noLine
    exact noLine (List.mem_append_right _ List.mem_cons_self)
  cases point with
  | putTarget | givePort | upload => exact waits.elim
  | listen =>
    refine .inr ⟨.putTarget, trivial, ?_⟩
    by_contra told
    have short : s.shared.hTargetAddr.length < 4 := waits
    rw [sound.listening.told told pend] at short
    exact Nat.lt_irrefl 4 short
  | relayPort =>
    rcases giving waits (.inl pend) with gives | gives
    · exact .inr ⟨.givePort, trivial, gives⟩
    · exact .inr ⟨.listen, trivial, gives⟩
  | connectPort =>
    rcases giving waits (.inr pend) with gives | gives
    · exact .inr ⟨.givePort, trivial, gives⟩
    · exact .inr ⟨.listen, trivial, gives⟩
  | accept =>
    subst isThread
    cases target : c.isServer .PortThread with
    | true => exact .inl (.accept target at_)
    | false =>
      refine .inr ⟨.connectPort, trivial, ?_⟩
      by_contra connected
      have unconnected : s.shared.connected = false := waits
      rw [sound.carried.connected target connected] at unconnected
      cases unconnected
  | download =>
    subst isThread
    cases source : c.isServer .PasvThread with
    | true => exact .inl (.download source at_)
    | false =>
      refine .inr ⟨.upload, trivial, ?_⟩
      by_contra sent
      have open_ : s.shared.closed = false := waits.2
      rw [(sound.carried.sent source sent).1] at open_
      cases open_

/-- How late the threads get to a point. -/
def late : Sync → Nat
  | .putTarget => 5
  | .listen | .givePort => 4
  | .relayPort | .connectPort => 3
  | .accept => 2
  | .upload => 1
  | .download => 0

theorem late_awaits {point m : Sync} (awaits : Awaits point m) : late point < late m := by
  cases point <;> cases m <;> first | exact awaits.elim | decide

theorem order_late (thread : Thread) (kind : Bool) :
    (thread.order kind).Pairwise fun first later => late later ≤ late first := by
  cases thread <;> cases kind <;> decide

theorem Sound.progress (sound : Sound c s) (running : s.exit = none)
    (unfinished : ∃ thread, (s.parties thread).left ≠ []) :
    Goes c s ∨ Refused s ∨ AwaitsServer c s := by
  by_contra stuck
  rw [not_or, not_or] at stuck
  obtain ⟨still, notRefused, notServer⟩ := stuck
  -- each thread that is not at its end waits for a point of the other one
  have busy (thread : Thread) (more : (s.parties thread).left ≠ []) :
      ∃ point rest m, s.At thread (.sync point) rest ∧ Awaits point m ∧ Pending s m := by
    obtain ⟨action, rest, left⟩ := List.exists_cons_of_ne_nil more
    have at_ : s.At thread action rest := ⟨running, left⟩
    by_contra idle
    have ready : ∀ point, action = .sync point → ¬Waits s point := by
      intro point isPoint waits
      subst isPoint
      rcases sound.awaits at_ waits with server | ⟨m, awaits, pend⟩
      · exact notServer server
      · exact idle ⟨point, rest, m, at_, awaits, pend⟩
    exact (sound.goes at_ ready).elim still notRefused
  obtain ⟨thread, more⟩ := unfinished
  obtain ⟨point, rest, m, at_, awaits, pend⟩ := busy thread more
  refine @not_waits_in_order _ _
    (fun p m => ∃ point rest, s.At p (.sync point) rest ∧ Awaits point m ∧ Pending s m)
    (fun p l => l ∈ todo (s.parties p).left) late ?_ ?_ ?_ 5 ?_ thread m ⟨point, rest, at_, awaits, pend⟩
  · intro p l m holds waits
    obtain ⟨point, rest, at_, awaits, -⟩ := waits
    have later := late_awaits awaits
    have sorted := (order_late p (c.isServer p)).sublist (sound.order p).sublist
    rw [todo_sync at_] at sorted holds
    rcases List.mem_cons.mp holds with same | behind
    · rw [same]
      exact later
    · exact Nat.lt_of_le_of_lt ((List.pairwise_cons.mp sorted).1 l behind) later
  · intro p l waits
    obtain ⟨-, -, -, -, pend⟩ := waits
    exact pend
  · intro p l holds
    have more : (s.parties p).left ≠ [] := by
      intro none_
      rw [none_] at holds
      cases holds
    obtain ⟨point, rest, m, at_, awaits, pend⟩ := busy p more
    exact ⟨m, point, rest, at_, awaits, pend⟩
  · intro l
    cases l <;> decide

/-- The two threads never wait for each other: while there is anything to be done, the transfer goes
    on, or a server is waited for, or has refused something. -/
theorem transfer_progress (c : Config) {s : State} (reachable : (program c).Reachable s)
    (running : s.exit = none) (unfinished : ∃ thread, (s.parties thread).left ≠ []) :
    Goes c s ∨ Refused s ∨ AwaitsServer c s :=
  (sound_reachable reachable).progress running unfinished

end progress

/-! ### A copy from file to file -/

/-- The runs in which no call fails. -/
def unfailing (c : Config) : TransitionSystem State :=
  (program c).restrict fun _ s' => s'.exit = none ∨ s'.exit = some .returned

/-- Both names are those of local files. -/
structure LocalNames (c : Config) : Prop where
  source : COLON ∉ c.source
  target : COLON ∉ c.target.getD (text "-")

section localCopy

variable {c : Config} {s s' : State}

theorem fillOut_path {info : ConnectionInfo} {ftpstr : List Octet} (noColon : COLON ∉ ftpstr) :
    (info.FillOut ftpstr).szServer = none ∧ (info.FillOut ftpstr).szPath = some ftpstr := by
  unfold ConnectionInfo.FillOut
  rw [if_pos noColon]
  exact ⟨rfl, rfl⟩

theorem LocalNames.path (names : LocalNames c) (thread : Thread) :
    (c.info thread).szServer = none ∧ ∃ szPath, (c.info thread).szPath = some szPath := by
  cases thread with
  | PasvThread => exact (fillOut_path names.source).imp_right fun path => ⟨_, path⟩
  | PortThread => exact (fillOut_path names.target).imp_right fun path => ⟨_, path⟩

theorem LocalNames.isServer (names : LocalNames c) (thread : Thread) : c.isServer thread = false := by
  rw [Config.isServer, (names.path thread).1]
  rfl

theorem LocalNames.actions (names : LocalNames c) (thread : Thread) :
    ∃ szPath, c.actions thread = .openFile (some szPath) :: (thread.order false).map .sync := by
  obtain ⟨server, szPath, path⟩ := names.path thread
  refine ⟨szPath, ?_⟩
  cases thread with
  | PasvThread =>
    unfold Config.actions ConnectionInfo.PasvThread
    rw [server, path]
    rfl
  | PortThread =>
    unfold Config.actions ConnectionInfo.PortThread
    rw [server, path]
    rfl

/-- Nothing is refused where no server takes part. -/
theorem LocalNames.not_refused (names : LocalNames c)
    (conversations : ∀ thread, Conversation c s thread) : ¬Refused s := by
  have among {thread : Thread} {action : Action} {rest : List Action}
      (at_ : s.At thread action rest) : (∃ szPath, action = .openFile (some szPath)) ∨
        ∃ point ∈ thread.order false, .sync point = action := by
    obtain ⟨done, -, actions, -⟩ := conversations thread
    obtain ⟨szPath, plain⟩ := names.actions thread
    have mem : action ∈ c.actions thread := by
      rw [actions, at_.left]
      exact List.mem_append_right _ List.mem_cons_self
    rw [plain] at mem
    rcases List.mem_cons.mp mem with opens | syncs
    · exact .inl ⟨szPath, opens⟩
    · exact .inr (List.mem_map.mp syncs)
  intro refused
  cases refused with
  | openNull at_ | sendNull at_ | reply at_ =>
    rcases among at_ with ⟨szPath, same⟩ | ⟨point, -, same⟩
    · cases same
    · cases same
  | @answer thread _ at_ =>
    rcases among at_ with ⟨szPath, same⟩ | ⟨point, mem, same⟩
    · cases same
    · cases same
      revert mem
      cases thread <;> decide

theorem does_data {point : Sync} {p p' : Party} {sh sh' : Shared}
    (does : Does c point (p, sh) (p', sh')) : sh'.unread = sh.unread ∧ sh'.data = sh.data := by
  cases does <;> exact ⟨rfl, rfl⟩

/-- What the rest of a run takes at most. -/
def size (c : Config) (s : State) : Nat := work c s + if s.exit = none then 1 else 0

theorem LocalNames.shrinks (names : LocalNames c) (step : (unfailing c).step s s') :
    size c s' < size c s := by
  obtain ⟨taken, goesOn⟩ := step
  have less (running : s.exit = none) (running' : s'.exit = none) (work_ : work c s' < work c s) :
      size c s' < size c s := by
    unfold size
    rw [running, running', if_pos rfl]
    exact Nat.add_lt_add_right work_ 1
  cases taken with
  | openFile at_ | send at_ | reply at_ | quit at_ | quitFails at_ =>
    exact less at_.running at_.running (work_set at_ _ s.shared rfl rfl)
  | sync at_ does =>
    have same := does_data does
    exact less at_.running at_.running (work_set at_ _ _ same.1 same.2)
  | moves running moves =>
    apply less running running
    cases moves with
    | uploads _ read some_ =>
      have pieces := List.length_pos_iff.mpr some_
      unfold work
      dsimp only
      rw [read, List.length_append, List.length_append]
      split <;> omega
    | downloads _ read some_ =>
      have pieces := List.length_pos_iff.mpr some_
      unfold work
      dsimp only
      rw [names.isServer, read, List.length_append]
      simp only [Bool.false_eq_true, if_false]
      omega
    | serverConnects server | serverStores server | serverSends server | serverCloses server =>
      rw [names.isServer] at server
      cases server
  | openNull | sendNull | fails =>
    rcases goesOn with none_ | returned
    · cases none_
    · cases returned
  | returns running =>
    unfold size
    rw [running, if_pos rfl]
    exact Nat.lt_succ_self _

/-- A run that cannot go on has ended well. -/
theorem LocalNames.last (names : LocalNames c) (reachable : (unfailing c).Reachable s)
    (last : ∀ s', ¬(unfailing c).step s s') :
    s.exit = some .returned ∧ ∀ thread, (s.parties thread).left = [] := by
  have ended : s.exit = none ∨ s.exit = some .returned := by
    apply reachable.invariant
    · intro s start
      rw [show s = _ from start]
      exact .inl rfl
    · intro s s' _ _ step
      exact step.2
  have sound := sound_reachable reachable.of_restrict
  obtain ⟨conversations, -, left⟩ := converses_reachable reachable.of_restrict
  have notRunning : s.exit ≠ none := by
    intro running
    by_cases unfinished : ∃ thread, (s.parties thread).left ≠ []
    · rcases sound.progress running unfinished with goes | refused | server
      · obtain ⟨s', step, running', -⟩ := goes
        exact last s' ⟨step, .inl running'⟩
      · exact names.not_refused conversations refused
      · cases server with
        | accept server | download server =>
          rw [names.isServer] at server
          cases server
    · have all : ∀ thread, (s.parties thread).left = [] := by
        intro thread
        by_contra more
        exact unfinished ⟨thread, more⟩
      exact last _ ⟨.returns running all, .inr rfl⟩
  have returned := ended.resolve_left notRunning
  exact ⟨returned, left returned⟩

/-- A copy from file to file ends: where no call fails, no run is longer than the files are, and
    one that cannot go on has ended with all of the source in the target. -/
theorem localCopy_ends (names : LocalNames c) {n : Nat} (run : (unfailing c).Run c.start n s) :
    n ≤ 2 * c.input.length + 9 ∧
      ((∀ s', ¬(unfailing c).step s s') → s.exit = some .returned ∧ s.shared.output = c.input) := by
  have start : (unfailing c).Reachable c.start := TransitionSystem.reachable_start rfl
  have reachable := run.reachable start
  constructor
  · have bound := run.shrinks (size c) (fun s s' _ step => names.shrinks step) start
    have whole : size c c.start = 2 * c.input.length + 9 := by
      have length (thread : Thread) : (c.actions thread).length = 4 := by
        obtain ⟨szPath, actions⟩ := names.actions thread
        rw [actions]
        cases thread <;> rfl
      unfold size work Config.start
      dsimp only
      rw [length, length, names.isServer, if_pos rfl]
      simp only [Bool.false_eq_true, if_false, List.length_nil]
      omega
    omega
  · intro last
    obtain ⟨returned, left⟩ := names.last reachable last
    have complete := (sound_reachable reachable.of_restrict).complete left
    exact ⟨returned, by rw [complete.received (names.isServer _), complete.sent (names.isServer _)]⟩

/-- The copy of a file with one byte. -/
def oneByte : Config where
  source := text "a"
  target := some (text "b")
  bModeA := false
  bModeB := false
  stream _ := []
  cBuffer _ _ := 0
  sin_addr := ⟨0, 0, 0, 0⟩
  input := [7]

theorem oneByte_names : LocalNames oneByte := ⟨by decide, by decide⟩

theorem oneByte_last : ∃ n s, (unfailing oneByte).Run oneByte.start n s ∧
    ∀ s', ¬(unfailing oneByte).step s s' := by
  have start : (unfailing oneByte).Reachable oneByte.start := TransitionSystem.reachable_start rfl
  obtain ⟨s, reachable, last⟩ :=
    start.exists_last (start.acc (size oneByte) fun s s' _ step => oneByte_names.shrinks step)
  obtain ⟨first, isStart, steps⟩ := reachable
  rw [show first = _ from isStart] at steps
  obtain ⟨n, run⟩ := TransitionSystem.exists_run steps
  exact ⟨n, s, run, last⟩

theorem localCopy_ends_oneByte : ∃ n s, n ≤ 11 ∧ (unfailing oneByte).Run oneByte.start n s ∧
    s.exit = some .returned ∧ s.shared.output = [7] := by
  obtain ⟨n, s, run, last⟩ := oneByte_last
  obtain ⟨bound, ends⟩ := localCopy_ends oneByte_names run
  exact ⟨n, s, bound, run, ends last⟩

theorem transfer_safe_oneByte : ∃ s, (program oneByte).Reachable s ∧ s.exit = some .returned ∧
    Complete oneByte s := by
  obtain ⟨n, s, run, last⟩ := oneByte_last
  have reachable := run.reachable (TransitionSystem.reachable_start rfl)
  obtain ⟨returned, -⟩ := oneByte_names.last reachable last
  exact ⟨s, reachable.of_restrict, returned,
    (transfer_safe oneByte reachable.of_restrict).2.2.2.2 returned⟩

theorem transfer_progress_start : Goes oneByte oneByte.start ∨ Refused oneByte.start ∨
    AwaitsServer oneByte oneByte.start :=
  transfer_progress oneByte (TransitionSystem.reachable_start rfl) rfl
    ⟨.PasvThread, List.cons_ne_nil _ _⟩

end localCopy

end Ftpcp
