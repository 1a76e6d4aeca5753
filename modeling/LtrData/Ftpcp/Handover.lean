import LtrData.Ftpcp.Transfer
import LtrData.Library.Tokens

namespace Ftpcp

open Octet Popdump

/-! ### The order in which the threads get to what they share -/

def todo (left : List Action) : List Sync := left.filterMap Action.sync?

def Thread.order : Thread → Bool → List Sync
  | .PasvThread, true => [.givePort]
  | .PasvThread, false => [.listen, .accept, .upload]
  | .PortThread, true => [.putTarget, .relayPort]
  | .PortThread, false => [.putTarget, .connectPort, .download]

/-- The thread that gets to a point. -/
def Sync.thread : Sync → Thread
  | .listen | .givePort | .accept | .upload => .PasvThread
  | .putTarget | .relayPort | .connectPort | .download => .PortThread

theorem todo_login (info : ConnectionInfo) (bModeA bModeB : Bool) :
    todo (info.login bModeA bModeB) = [] := by
  cases bModeA <;> cases bModeB <;> rfl

namespace Config

variable (c : Config)

theorem todo_actions (thread : Thread) :
    todo (c.actions thread) = thread.order (c.isServer thread) := by
  cases thread with
  | PasvThread =>
    unfold actions isServer ConnectionInfo.PasvThread
    cases (c.info .PasvThread).szServer with
    | some szServer =>
      have login := todo_login (c.info .PasvThread) c.bModeA c.bModeB
      unfold todo at login ⊢
      dsimp only
      rw [List.filterMap_append, List.filterMap_append, login]
      rfl
    | none => rfl
  | PortThread =>
    unfold actions isServer ConnectionInfo.PortThread
    cases (c.info .PortThread).szServer with
    | some szServer =>
      have login := todo_login (c.info .PortThread) c.bModeA c.bModeB
      unfold todo at login ⊢
      dsimp only
      rw [List.cons_append, List.cons_append, List.filterMap_cons, List.filterMap_append,
        List.filterMap_append, login]
      rfl
    | none => rfl

end Config

/-- No thread gets to a point twice, or to one of the other thread. -/
theorem order_once : ∀ source target : Bool,
    (Thread.order .PasvThread source ++ Thread.order .PortThread target).Nodup := by
  decide

/-! ### What the pipes and the data connection hold -/

/-- The source thread has still to give the port string. -/
def Giving (pend : Sync → Prop) : Prop := pend .givePort ∨ pend .listen

/-- The target thread has still to take it. -/
def Taking (pend : Sync → Prop) : Prop := pend .relayPort ∨ pend .connectPort

/-- The port string is nowhere, in the pipe as a line, or taken. -/
structure Handover (pend : Sync → Prop) (sh : Shared) : Prop where
  ungiven : Giving pend → sh.port = none ∧ sh.hSourcePort = [] ∧ Taking pend
  given : ¬Giving pend → ∃ port, PortLine port ∧ sh.port = some port ∧
    (Taking pend → sh.hSourcePort = port ++ [LF]) ∧ (¬Taking pend → sh.hSourcePort = [])

/-- A local sender listens at the target's address, and gives the listener's. -/
structure Listening (c : Config) (pend : Sync → Prop) (sh : Shared) : Prop where
  untold : pend .putTarget → sh.hTargetAddr = []
  told : ¬pend .putTarget → pend .listen → sh.hTargetAddr = c.targetAddr.bytes
  listening : c.isServer .PasvThread = false → ¬pend .listen →
    ∃ a, a.sin_addr = c.targetAddr ∧ sh.listener = some a ∧ sh.port = some a.render

/-- What has been sent has been received or is on the way. -/
structure Carried (c : Config) (pend : Sync → Prop) (sh : Shared) : Prop where
  connected : c.isServer .PortThread = false → ¬pend .connectPort → sh.connected = true
  data : sh.uploaded = sh.output ++ sh.data
  input : c.isServer .PasvThread = false → c.input = sh.uploaded ++ sh.unread
  open_ : pend .upload → sh.closed = false
  sent : c.isServer .PasvThread = false → ¬pend .upload → sh.closed = true ∧ sh.unread = []
  received : c.isServer .PortThread = false → ¬pend .download → sh.closed = true ∧ sh.data = []

/-- The points that threads of these kinds get to. -/
structure Belongs (c : Config) (pend : Sync → Prop) : Prop where
  givePort : pend .givePort → c.isServer .PasvThread = true
  listen : pend .listen → c.isServer .PasvThread = false
  upload : pend .upload → c.isServer .PasvThread = false
  relayPort : pend .relayPort → c.isServer .PortThread = true
  connectPort : pend .connectPort → c.isServer .PortThread = false
  download : pend .download → c.isServer .PortThread = false

section handover

variable {pend pend' : Sync → Prop} {sh sh' : Shared} {port : List Octet}

theorem Handover.same (handover : Handover pend sh) (giving : Giving pend' ↔ Giving pend)
    (taking : Taking pend' ↔ Taking pend) (port : sh'.port = sh.port)
    (pipe : sh'.hSourcePort = sh.hSourcePort) : Handover pend' sh' where
  ungiven := by
    rw [giving, taking, port, pipe]
    exact handover.ungiven
  given := by
    rw [giving, taking, port, pipe]
    exact handover.given

theorem Handover.gives (handover : Handover pend sh) (giving : Giving pend) (given : ¬Giving pend')
    (taking : Taking pend' ↔ Taking pend) (line : PortLine port) (port_ : sh'.port = some port)
    (pipe : sh'.hSourcePort = sh.hSourcePort ++ (port ++ [LF])) : Handover pend' sh' where
  ungiven again := absurd again given
  given _ := by
    obtain ⟨-, empty, takes⟩ := handover.ungiven giving
    rw [empty, List.nil_append] at pipe
    exact ⟨port, line, port_, fun _ => pipe, fun none => absurd (taking.mpr takes) none⟩

/-- A line in the pipe is the port string. -/
theorem Handover.line (handover : Handover pend sh) (whole : LF ∈ sh.hSourcePort)
    (taking : Taking pend) : ¬Giving pend ∧ ∃ port, PortLine port ∧ sh.port = some port ∧
      sh.hSourcePort = port ++ [LF] := by
  have given : ¬Giving pend := by
    intro giving
    rw [(handover.ungiven giving).2.1] at whole
    exact List.not_mem_nil whole
  obtain ⟨port, line, port_, pipe, -⟩ := handover.given given
  exact ⟨given, port, line, port_, pipe taking⟩

/-- The target takes the string that the source has given. -/
theorem Handover.received (handover : Handover pend sh) (whole : LF ∈ sh.hSourcePort)
    (taking : Taking pend) (p : Party) : (p.line sh.hSourcePort).stream = [] ∧
      sh.port = some (p.takeLine sh.hSourcePort).string := by
  obtain ⟨given, port, line, isPort, holds⟩ := handover.line whole taking
  have received : p.line sh.hSourcePort = ⟨[], sprintf p.cBuffer port, port.length⟩ := by
    rw [holds]
    exact lineRecv_portLine line p.cBuffer
  have string : (p.takeLine sh.hSourcePort).string = port := by
    unfold Party.takeLine Party.string
    rw [received]
    exact cString_portLine line p.cBuffer
  rw [received, string]
  exact ⟨rfl, isPort⟩

theorem Handover.line_some (handover : Handover pend sh) (whole : LF ∈ sh.hSourcePort)
    (taking : Taking pend) (p : Party) : (p.line sh.hSourcePort).dwLen ≠ 0 := by
  obtain ⟨-, port, line, -, holds⟩ := handover.line whole taking
  have received : p.line sh.hSourcePort = ⟨[], sprintf p.cBuffer port, port.length⟩ := by
    rw [holds]
    exact lineRecv_portLine line p.cBuffer
  rw [received]
  exact List.length_pos_iff.mpr line.nonempty |>.ne'

theorem Handover.takes (handover : Handover pend sh) (whole : LF ∈ sh.hSourcePort)
    (taking : Taking pend) (taken : ¬Taking pend') (giving : Giving pend' ↔ Giving pend)
    (port_ : sh'.port = sh.port) (p : Party)
    (pipe : sh'.hSourcePort = (p.line sh.hSourcePort).stream) : Handover pend' sh' where
  ungiven again := absurd (giving.mp again) (handover.line whole taking).1
  given _ := by
    obtain ⟨-, port, line, isPort, -⟩ := handover.line whole taking
    rw [port_, pipe, (handover.received whole taking p).1]
    exact ⟨port, line, isPort, fun again => absurd again taken, fun _ => rfl⟩

end handover

section steps

variable {c : Config} {pend : Sync → Prop} {p p' : Party} {sh sh' : Shared} {point : Sync}

/-- The points that are left behind this one. -/
def Past (pend : Sync → Prop) (point : Sync) : Sync → Prop := fun q => pend q ∧ q ≠ point

theorem giving_past (neither : point ≠ .givePort ∧ point ≠ .listen) :
    Giving (Past pend point) ↔ Giving pend := by
  have first := Ne.symm neither.1
  have second := Ne.symm neither.2
  simp [Giving, Past, first, second]

theorem taking_past (neither : point ≠ .relayPort ∧ point ≠ .connectPort) :
    Taking (Past pend point) ↔ Taking pend := by
  have first := Ne.symm neither.1
  have second := Ne.symm neither.2
  simp [Taking, Past, first, second]

theorem Handover.does (handover : Handover pend sh) (belongs : Belongs c pend) (at_ : pend point)
    (does : Does c point (p, sh) (p', sh')) : Handover (Past pend point) sh' := by
  cases does with
  | putTarget | accept | upload | download =>
    exact handover.same (giving_past (by decide)) (taking_past (by decide)) rfl rfl
  | listen =>
    have given : ¬Giving (Past pend .listen) := by
      intro giving
      rcases giving with ⟨other, -⟩ | ⟨-, other⟩
      · have server := belongs.givePort other
        rw [belongs.listen at_] at server
        cases server
      · exact other rfl
    exact handover.gives (.inr at_) given (taking_past (by decide)) (portLine_render _) rfl rfl
  | givePort marked accepted found =>
    have given : ¬Giving (Past pend .givePort) := by
      intro giving
      rcases giving with ⟨-, other⟩ | ⟨other, -⟩
      · exact other rfl
      · have server := belongs.listen other
        rw [belongs.givePort at_] at server
        cases server
    exact handover.gives (.inl at_) given (taking_past (by decide))
      (portLine_answer (Nat.le_refl _) found) rfl rfl
  | relayPort whole =>
    have taken : ¬Taking (Past pend .relayPort) := by
      intro taking
      rcases taking with ⟨-, other⟩ | ⟨other, -⟩
      · exact other rfl
      · have server := belongs.connectPort other
        rw [belongs.relayPort at_] at server
        cases server
    exact handover.takes whole (.inl at_) taken (giving_past (by decide)) rfl p rfl
  | connectPort whole =>
    have taken : ¬Taking (Past pend .connectPort) := by
      intro taking
      rcases taking with ⟨other, -⟩ | ⟨-, other⟩
      · have server := belongs.relayPort other
        rw [belongs.connectPort at_] at server
        cases server
      · exact other rfl
    exact handover.takes whole (.inr at_) taken (giving_past (by decide)) rfl p rfl

theorem Listening.same (listening : Listening c pend sh) (point_ : point ≠ .putTarget ∧ point ≠ .listen)
    (addr : sh'.hTargetAddr = sh.hTargetAddr) (listener : sh'.listener = sh.listener)
    (port : c.isServer .PasvThread = false → sh'.port = sh.port) :
    Listening c (Past pend point) sh' where
  untold later := by
    rw [addr]
    exact listening.untold later.1
  told first later := by
    rw [addr]
    exact listening.told (fun again => first ⟨again, Ne.symm point_.1⟩) later.1
  listening source later := by
    rw [listener, port source]
    exact listening.listening source fun again => later ⟨again, Ne.symm point_.2⟩

theorem Listening.does (listening : Listening c pend sh) (belongs : Belongs c pend) (at_ : pend point)
    (does : Does c point (p, sh) (p', sh')) : Listening c (Past pend point) sh' := by
  cases does with
  | accept | upload | download | relayPort | connectPort =>
    exact listening.same ⟨by decide, by decide⟩ rfl rfl fun _ => rfl
  | givePort =>
    refine listening.same ⟨by decide, by decide⟩ rfl rfl ?_
    intro source
    rw [belongs.givePort at_] at source
    cases source
  | putTarget =>
    exact {
      untold := fun later => absurd rfl later.2
      told := fun _ _ => by
        show sh.hTargetAddr ++ _ = _
        rw [listening.untold at_, List.nil_append]
      listening := fun source later => listening.listening source fun again =>
        later ⟨again, by decide⟩ }
  | @listen _ _ a behind told =>
    have first : ¬pend .putTarget := by
      intro untold
      rw [listening.untold untold] at told
      cases told
    rw [listening.told first at_] at told
    have same : a.sin_addr = c.targetAddr := by
      simp only [InAddr.bytes, List.cons_append, List.nil_append, List.cons.injEq] at told
      cases addr : a.sin_addr
      cases target : c.targetAddr
      simp_all
    exact {
      untold := fun later => absurd later.1 first
      told := fun _ later => absurd rfl later.2
      listening := fun _ _ => ⟨a, same, rfl, rfl⟩ }

theorem Carried.does (carried : Carried c pend sh) (at_ : pend point)
    (does : Does c point (p, sh) (p', sh')) : Carried c (Past pend point) sh' := by
  cases does with
  | putTarget | accept | listen | givePort | relayPort =>
    exact {
      connected := by simpa [Past] using carried.connected
      data := carried.data
      input := carried.input
      open_ := by simpa [Past] using carried.open_
      sent := by simpa [Past] using carried.sent
      received := by simpa [Past] using carried.received }
  | connectPort =>
    exact {
      connected := fun _ _ => rfl
      data := carried.data
      input := carried.input
      open_ := by simpa [Past] using carried.open_
      sent := by simpa [Past] using carried.sent
      received := by simpa [Past] using carried.received }
  | upload all =>
    exact {
      connected := by simpa [Past] using carried.connected
      data := carried.data
      input := carried.input
      open_ := fun later => absurd rfl later.2
      sent := fun _ _ => ⟨rfl, all⟩
      received := by
        -- the receiver cannot have come to the end before
        intro local_ later
        have ended := carried.received local_ fun again => later ⟨again, by decide⟩
        rw [carried.open_ at_] at ended
        cases ended.1 }
  | download all closed =>
    exact {
      connected := by simpa [Past] using carried.connected
      data := carried.data
      input := carried.input
      open_ := by simpa [Past] using carried.open_
      sent := by simpa [Past] using carried.sent
      received := fun _ _ => ⟨closed, all⟩ }

theorem Carried.moves {s : State} (carried : Carried c pend s.shared) (belongs : Belongs c pend)
    (uploading : ∀ rest, s.At .PasvThread (.sync .upload) rest → pend .upload)
    (downloading : ∀ rest, s.At .PortThread (.sync .download) rest → pend .download)
    (moves : Moves c s sh') : Carried c pend sh' := by
  cases moves with
  | uploads at_ read some_ =>
    have source := belongs.upload (uploading _ at_)
    have running := carried.open_ (uploading _ at_)
    exact {
      connected := carried.connected
      data := by
        show s.shared.uploaded ++ _ = s.shared.output ++ (s.shared.data ++ _)
        rw [carried.data, List.append_assoc]
      input := fun _ => by
        rw [carried.input source, read, ← List.append_assoc]
      open_ := carried.open_
      sent := fun _ later => absurd (uploading _ at_) later
      received := fun local_ later => by
        have ended := carried.received local_ later
        rw [running] at ended
        cases ended.1 }
  | downloads at_ read some_ =>
    exact {
      connected := carried.connected
      data := by
        show s.shared.uploaded = s.shared.output ++ _ ++ _
        rw [carried.data, read, List.append_assoc]
      input := carried.input
      open_ := carried.open_
      sent := carried.sent
      received := fun _ later => absurd (downloading _ at_) later }
  | serverConnects server =>
    exact { carried with
      connected := fun local_ => by
        rw [server] at local_
        cases local_ }
  | serverStores server read some_ =>
    exact { carried with
      data := by
        show s.shared.uploaded = s.shared.output ++ _ ++ _
        rw [carried.data, read, List.append_assoc]
      received := fun local_ => by
        rw [server] at local_
        cases local_ }
  | serverSends server receiver connected open_ some_ =>
    have foreign : c.isServer .PasvThread ≠ false := by
      rw [server]
      decide
    exact {
      connected := carried.connected
      data := by
        show s.shared.uploaded ++ _ = s.shared.output ++ (s.shared.data ++ _)
        rw [carried.data, List.append_assoc]
      input := fun source => absurd source foreign
      open_ := carried.open_
      sent := fun source => absurd source foreign
      received := fun local_ later => by
        have ended := carried.received local_ later
        rw [open_] at ended
        cases ended.1 }
  | serverCloses server receiver connected open_ =>
    have foreign : c.isServer .PasvThread ≠ false := by
      rw [server]
      decide
    exact { carried with
      open_ := fun later => absurd (belongs.upload later) foreign
      sent := fun source => absurd source foreign
      received := fun local_ later => by
        have ended := carried.received local_ later
        rw [open_] at ended
        cases ended.1 }

end steps

/-! ### The points still to come -/

/-- Some thread has still to get to this point. -/
def Pending (s : State) (point : Sync) : Prop := ∃ thread, point ∈ todo (s.parties thread).left

/-- The threads get to their points in order. -/
def InOrder (c : Config) (s : State) : Prop :=
  ∀ thread, todo (s.parties thread).left <:+ thread.order (c.isServer thread)

section pending

variable {c : Config} {s : State} {thread : Thread} {action : Action} {point : Sync} {rest : List Action}

theorem left_set (s : State) (thread : Thread) (p : Party) (rest : List Action) :
    ((s.set thread p rest).parties thread).left = rest := by
  unfold State.set
  dsimp only
  rw [Function.update_self]

theorem left_other (s : State) {thread other : Thread} (apart : other ≠ thread) (p : Party)
    (rest : List Action) : (s.set thread p rest).parties other = s.parties other :=
  Function.update_of_ne apart _ _

theorem todo_sync (at_ : s.At thread (.sync point) rest) :
    todo (s.parties thread).left = point :: todo rest := by
  rw [at_.left]
  rfl

theorem todo_other (at_ : s.At thread action rest) (other : action.sync? = none) :
    todo (s.parties thread).left = todo rest := by
  rw [at_.left, todo, List.filterMap_cons_none other]
  rfl

theorem InOrder.set (inOrder : InOrder c s) {p : Party} (suffix : todo rest <:+ todo (s.parties thread).left) :
    InOrder c (s.set thread p rest) := by
  intro other
  by_cases same : other = thread
  · rw [same, left_set]
    exact suffix.trans (inOrder thread)
  · rw [left_other s same]
    exact inOrder other

theorem InOrder.belongs (inOrder : InOrder c s) : Belongs c (Pending s) := by
  have among {point : Sync} (pend : Pending s point) :
      point ∈ Thread.order .PasvThread (c.isServer .PasvThread) ∨
        point ∈ Thread.order .PortThread (c.isServer .PortThread) := by
    obtain ⟨thread, mem⟩ := pend
    have inside := (inOrder thread).subset mem
    cases thread with
    | PasvThread => exact .inl inside
    | PortThread => exact .inr inside
  constructor
  all_goals
    intro pend
    have inside := among pend
    revert inside
    cases c.isServer .PasvThread <;> cases c.isServer .PortThread <;> decide

theorem order_thread (thread : Thread) (kind : Bool) : ∀ point ∈ thread.order kind, thread = point.thread := by
  cases thread <;> cases kind <;> decide

theorem InOrder.own (inOrder : InOrder c s) (at_ : s.At thread (.sync point) rest) :
    thread = point.thread := by
  apply order_thread thread (c.isServer thread)
  apply (inOrder thread).subset
  rw [todo_sync at_]
  exact List.mem_cons_self

/-- No other thread gets to the point, and this one not again. -/
theorem InOrder.once (inOrder : InOrder c s) (at_ : s.At thread (.sync point) rest) :
    point ∉ todo rest ∧ ∀ other, other ≠ thread → point ∉ todo (s.parties other).left := by
  have nodup : (todo (s.parties .PasvThread).left ++ todo (s.parties .PortThread).left).Nodup :=
    (order_once (c.isServer .PasvThread) (c.isServer .PortThread)).sublist
      ((inOrder .PasvThread).sublist.append (inOrder .PortThread).sublist)
  rw [List.nodup_append] at nodup
  obtain ⟨source, target, apart⟩ := nodup
  cases thread with
  | PasvThread =>
    rw [todo_sync at_] at source apart
    refine ⟨(List.nodup_cons.mp source).1, fun other different mem => ?_⟩
    cases other with
    | PasvThread => exact different rfl
    | PortThread => exact apart point List.mem_cons_self point mem rfl
  | PortThread =>
    rw [todo_sync at_] at target apart
    refine ⟨(List.nodup_cons.mp target).1, fun other different mem => ?_⟩
    cases other with
    | PasvThread => exact apart point mem point List.mem_cons_self rfl
    | PortThread => exact different rfl

theorem pending_sync (inOrder : InOrder c s) (at_ : s.At thread (.sync point) rest) (p : Party) :
    Pending (s.set thread p rest) = Past (Pending s) point := by
  obtain ⟨notAgain, notOther⟩ := inOrder.once at_
  funext q
  apply propext
  constructor
  · intro pend
    obtain ⟨other, mem⟩ := pend
    by_cases same : other = thread
    · rw [same, left_set] at mem
      refine ⟨⟨thread, ?_⟩, fun isPoint => notAgain (isPoint ▸ mem)⟩
      rw [todo_sync at_]
      exact List.mem_cons_of_mem _ mem
    · rw [left_other s same] at mem
      exact ⟨⟨other, mem⟩, fun isPoint => notOther other same (isPoint ▸ mem)⟩
  · intro past
    obtain ⟨⟨other, mem⟩, different⟩ := past
    refine ⟨other, ?_⟩
    by_cases same : other = thread
    · rw [same, todo_sync at_] at mem
      rw [same, left_set]
      exact (List.mem_cons.mp mem).resolve_left different
    · rw [left_other s same]
      exact mem

theorem pending_other (at_ : s.At thread action rest) (other : action.sync? = none) (p : Party) :
    Pending (s.set thread p rest) = Pending s := by
  have same (t : Thread) : todo ((s.set thread p rest).parties t).left = todo (s.parties t).left := by
    by_cases isThread : t = thread
    · rw [isThread, left_set, todo_other at_ other]
    · rw [left_other s isThread]
  funext q
  unfold Pending
  simp only [same]

end pending

/-- What holds in every state that the program gets to. -/
structure Sound (c : Config) (s : State) : Prop where
  order : InOrder c s
  handover : Handover (Pending s) s.shared
  listening : Listening c (Pending s) s.shared
  carried : Carried c (Pending s) s.shared

section sound

variable {c : Config} {s s' : State}

theorem pending_start {thread : Thread} {point : Sync} {kind : Bool}
    (isKind : c.isServer thread = kind) (mem : point ∈ thread.order kind) : Pending c.start point := by
  refine ⟨thread, ?_⟩
  show point ∈ todo (c.actions thread)
  rw [c.todo_actions, isKind]
  exact mem

theorem sound_start (c : Config) : Sound c c.start := by
  have giving : Giving (Pending c.start) := by
    cases source : c.isServer .PasvThread with
    | true => exact .inl (pending_start source (by decide))
    | false => exact .inr (pending_start source (by decide))
  have taking : Taking (Pending c.start) := by
    cases target : c.isServer .PortThread with
    | true => exact .inl (pending_start target (by decide))
    | false => exact .inr (pending_start target (by decide))
  have putTarget : Pending c.start .putTarget := by
    cases target : c.isServer .PortThread with
    | true => exact pending_start target (by decide)
    | false => exact pending_start target (by decide)
  exact {
    order := fun thread => by
      show todo (c.actions thread) <:+ _
      rw [c.todo_actions]
    handover := ⟨fun _ => ⟨rfl, rfl, taking⟩, fun given => absurd giving given⟩
    listening := {
      untold := fun _ => rfl
      told := fun first => absurd putTarget first
      listening := fun source later => absurd (pending_start source (by decide)) later }
    carried := {
      connected := fun target later => absurd (pending_start target (by decide)) later
      data := rfl
      input := fun _ => rfl
      open_ := fun _ => rfl
      sent := fun source later => absurd (pending_start source (by decide)) later
      received := fun target later => absurd (pending_start target (by decide)) later } }

/-- What a thread does by itself changes nothing of it. -/
theorem Sound.other (sound : Sound c s) {thread : Thread} {action : Action} {rest : List Action}
    (at_ : s.At thread action rest) (other : action.sync? = none) (p : Party) :
    Sound c (s.set thread p rest) := by
  have same := pending_other at_ other p
  exact {
    order := sound.order.set (by rw [todo_other at_ other])
    handover := by
      rw [same]
      exact sound.handover
    listening := by
      rw [same]
      exact sound.listening
    carried := by
      rw [same]
      exact sound.carried }

theorem Sound.sync (sound : Sound c s) {thread : Thread} {point : Sync} {rest : List Action}
    {p : Party} {sh : Shared} (at_ : s.At thread (.sync point) rest)
    (does : Does c point (s.parties thread, s.shared) (p, sh)) :
    Sound c { s.set thread p rest with shared := sh } := by
  have pend : Pending s point := ⟨thread, by rw [todo_sync at_]; exact List.mem_cons_self⟩
  have past : Pending { s.set thread p rest with shared := sh } = Past (Pending s) point :=
    pending_sync sound.order at_ p
  have belongs := sound.order.belongs
  exact {
    order := sound.order.set (by
      rw [todo_sync at_]
      exact List.suffix_cons _ _)
    handover := by
      rw [past]
      exact sound.handover.does belongs pend does
    listening := by
      rw [past]
      exact sound.listening.does belongs pend does
    carried := by
      rw [past]
      exact sound.carried.does pend does }

theorem Sound.moves (sound : Sound c s) {sh : Shared} (moves : Moves c s sh) :
    Sound c { s with shared := sh } := by
  have pend {thread : Thread} {point : Sync} (rest : List Action)
      (at_ : s.At thread (.sync point) rest) : Pending s point :=
    ⟨thread, by rw [todo_sync at_]; exact List.mem_cons_self⟩
  have carried := sound.carried.moves sound.order.belongs pend pend moves
  cases moves with
  | uploads | downloads | serverConnects | serverStores | serverSends | serverCloses =>
    exact {
      order := sound.order
      handover := ⟨sound.handover.ungiven, sound.handover.given⟩
      listening := ⟨sound.listening.untold, sound.listening.told, sound.listening.listening⟩
      carried := carried }

theorem sound_step (sound : Sound c s) (step : Step c s s') : Sound c s' := by
  cases step with
  | openFile at_ | send at_ | reply at_ | quit at_ | quitFails at_ => exact sound.other at_ rfl _
  | sync at_ does => exact sound.sync at_ does
  | moves _ moves => exact sound.moves moves
  | openNull | sendNull | fails | returns =>
    exact ⟨sound.order, sound.handover, sound.listening, sound.carried⟩

theorem sound_reachable (reachable : (program c).Reachable s) : Sound c s := by
  apply reachable.invariant
  · intro s start
    rw [show s = _ from start]
    exact sound_start c
  · intro s s' _ sound step
    exact sound_step sound step

end sound

end Ftpcp
