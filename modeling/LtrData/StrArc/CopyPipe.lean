import LtrData.StrArc.BackupRuns
import LtrData.StrArc.Failures
import LtrData.StrArc.RoundTrip

namespace StrArc

open Traced

/-- The parts of a FileCopyContext, with the file SourceHandle has been opened on and the state of
    the disk when the caller starts. -/
structure CopyContext (F σ H : Type) where
  SourceReadSession : BackupConfig F
  SourceFile : F
  TargetWriteSession : Config σ H
  TargetName : UnicodeString
  TargetHandle : Handle H
  disk : σ
  dwPipeBufferSize : Nat

/-- Where the source thread stands in ReadFileStreamsToArchive: at the head of the loop with what
    BackupRead still delivers, or in WriteArchive with what is left of a block. The number is that
    of the questions it has asked. -/
inductive SourceReadThread
  | reading (blocks : List (List BYTE)) (asked : Nat)
  | writing (left : List BYTE) (blocks : List (List BYTE)) (asked : Nat)
  | ended (result : Bool)

/-- Where the caller stands: in WriteFileFromArchive with the number of bytes taken from the pipe,
    in GetSourceReadThreadResult with the result of that, or behind BackupCopyFile. -/
inductive CopyCaller
  | writing (taken : Nat)
  | waiting (bWriteResult : Bool)
  | returned (result : Bool)
  | aborted (exception : XError)

structure CopyState where
  thread : SourceReadThread
  pipe : List BYTE
  caller : CopyCaller

variable {F σ H : Type}

namespace CopyContext

variable (x : CopyContext F σ H)

def reads : Reads := x.SourceReadSession.reads x.SourceFile 0

/-- What the thread still writes behind a block, depending on when it is cancelled. -/
def following : List (List BYTE) → Nat → List BYTE
  | [], _ => []
  | block :: blocks, asked =>
    if x.SourceReadSession.bCancel asked then [] else block ++ following blocks (asked + 1)

/-- Everything that goes through the pipe unless a party is blocked. -/
def content : List BYTE := x.following x.reads.blocks 1

/-- One round of the loop up to WriteArchive. -/
def readRound (blocks : List (List BYTE)) (asked : Nat) : SourceReadThread :=
  if x.SourceReadSession.bCancel asked then .ended false
  else
    match blocks with
    | [] => .ended (!x.reads.fails)
    | block :: blocks => .writing block blocks (asked + 1)

/-- The archive of TargetWriteSession is the read end of the pipe. -/
def targetConfig (bytes : List BYTE) : Config σ H :=
  { x.TargetWriteSession with archive := ⟨bytes, x.TargetWriteSession.archive.grants⟩ }

def targetRun (bytes : List BYTE) : Outcome XError (Session σ) (Event H) (StreamResult H) :=
  writeFileFromArchive (x.targetConfig bytes) x.TargetName x.TargetHandle false (Session.start x.disk)

/-- What WriteFileFromArchive has not read when it is left. -/
def unread : Nat := remaining (x.targetConfig x.content) (x.targetRun x.content).state

/-- WriteFileFromArchive takes this much from the pipe. -/
def takes : Nat := x.content.length - x.unread

/-- Whether it waits for the end of the pipe, since it would take more if there were more. -/
def seesEnd : Prop :=
  x.unread = 0 ∧ x.content.length < (x.targetRun (x.content ++ [0])).state.pos

/-- A thread that ends closes its end of the pipe. -/
inductive ThreadStep : CopyState → CopyState → Prop
  | read {blocks : List (List BYTE)} {asked : Nat} {pipe : List BYTE} {caller : CopyCaller} :
    ThreadStep ⟨.reading blocks asked, pipe, caller⟩ ⟨x.readRound blocks asked, pipe, caller⟩
  | write {some left : List BYTE} {blocks : List (List BYTE)} {asked : Nat} {pipe : List BYTE}
    {caller : CopyCaller} (nonempty : some ≠ [])
    (room : pipe.length + some.length ≤ x.dwPipeBufferSize) :
    ThreadStep ⟨.writing (some ++ left) blocks asked, pipe, caller⟩
      ⟨.writing left blocks asked, pipe ++ some, caller⟩
  | written {blocks : List (List BYTE)} {asked : Nat} {pipe : List BYTE} {caller : CopyCaller} :
    ThreadStep ⟨.writing [] blocks asked, pipe, caller⟩ ⟨.reading blocks asked, pipe, caller⟩

/-- How WriteFileFromArchive is left. -/
def leaves : CopyCaller :=
  match x.targetRun x.content with
  | .ok _ result _ => .waiting result.result
  | .error _ exception _ => .aborted exception

inductive CallerStep : CopyState → CopyState → Prop
  | take {thread : SourceReadThread} {some rest : List BYTE} {taken : Nat} (nonempty : some ≠ [])
    (wanted : taken + some.length ≤ x.takes) :
    CallerStep ⟨thread, some ++ rest, .writing taken⟩ ⟨thread, rest, .writing (taken + some.length)⟩
  | leave {thread : SourceReadThread} {pipe : List BYTE}
    (seen : x.seesEnd → pipe = [] ∧ ∃ result, thread = .ended result) :
    CallerStep ⟨thread, pipe, .writing x.takes⟩ ⟨thread, pipe, x.leaves⟩
  | join {bReadResult bWriteResult : Bool} {pipe : List BYTE} :
    CallerStep ⟨.ended bReadResult, pipe, .waiting bWriteResult⟩
      ⟨.ended bReadResult, pipe, .returned (bReadResult && bWriteResult)⟩

inductive Reachable : CopyState → Prop
  | start : Reachable ⟨.reading x.reads.blocks 1, [], .writing 0⟩
  | thread {s s' : CopyState} (reachable : Reachable s) (step : x.ThreadStep s s') : Reachable s'
  | caller {s s' : CopyState} (reachable : Reachable s) (step : x.CallerStep s s') : Reachable s'

def ThreadBlocked (s : CopyState) : Prop :=
  (∀ result, s.thread ≠ .ended result) ∧ ∀ s', ¬ x.ThreadStep s s'

def CallerBlocked (s : CopyState) : Prop :=
  (∀ result, s.caller ≠ .returned result) ∧ (∀ exception, s.caller ≠ .aborted exception) ∧
    ∀ s', ¬ x.CallerStep s s'

variable {x}

/-- What the thread has still to write. -/
def pending (x : CopyContext F σ H) : SourceReadThread → List BYTE
  | .reading blocks asked => x.following blocks asked
  | .writing left blocks asked => left ++ x.following blocks asked
  | .ended _ => []

def takenBy (x : CopyContext F σ H) : CopyCaller → Nat
  | .writing taken => taken
  | _ => x.takes

theorem pending_readRound (blocks : List (List BYTE)) (asked : Nat) :
    x.pending (x.readRound blocks asked) = x.following blocks asked := by
  unfold readRound
  cases blocks with
  | nil => split <;> rfl
  | cons block blocks =>
    by_cases cancelled : x.SourceReadSession.bCancel asked = true
    · rw [if_pos cancelled, following, if_pos cancelled]
      rfl
    · rw [if_neg cancelled, following, if_neg cancelled]
      rfl

theorem unread_le (x : CopyContext F σ H) : x.unread ≤ x.content.length := Nat.sub_le _ _

theorem readStreamsLoop_following (fails : Bool) (blocks : List (List BYTE)) (s : BackupSession F) :
    (readStreamsLoop x.SourceReadSession fails blocks s).state.archive =
      s.archive ++ x.following blocks s.questions := by
  induction blocks generalizing s with
  | nil =>
    have same : (readStreamsLoop x.SourceReadSession fails [] s).state.archive = s.archive := by
      unfold readStreamsLoop
      rw [bind_eq_of_ok (question_run _ s)]
      split
      · rfl
      · split <;> rfl
    rw [same, following, List.append_nil]
  | cons block blocks ih =>
    unfold readStreamsLoop following
    rw [bind_eq_of_ok (question_run _ s)]
    by_cases cancelled : x.SourceReadSession.bCancel s.questions = true
    · rw [if_pos cancelled, if_pos cancelled, List.append_nil]
      rfl
    · rw [if_neg cancelled, if_neg cancelled, bind_eq_of_ok (writeArchive_run block _),
        Outcome.after_nil, Outcome.after_nil, ih, List.append_assoc]

theorem content_archive (x : CopyContext F σ H) {s : BackupSession F} (first : s.questions = 0) :
    (readFileStreamsToArchive x.SourceReadSession x.SourceFile s).state.archive =
      s.archive ++ x.content := by
  unfold readFileStreamsToArchive
  rw [bind_eq_of_ok (question_run _ s), Outcome.after_nil, readStreamsLoop_following, first]
  rfl

theorem targetRun_ends (x : CopyContext F σ H) (large : headerSize ≤ x.TargetWriteSession.dwBufferSize)
    (small : x.TargetWriteSession.dwBufferSize < 2 ^ 32 - 19) (bytes : List BYTE) :
    (x.targetRun bytes).exception ≠ some .outOfFuel := by
  intro raised
  have acting : Acting (x.targetConfig bytes) (fun _ => True) (fun _ => True)
      (writeFileFromArchive (x.targetConfig bytes) x.TargetName x.TargetHandle false)
      (Session.start x.disk) _ :=
    writeFileFromArchive_acts x.TargetName (fun _ _ => trivial) fun _ => trivial
  have opens : ∀ e ∈ (x.targetRun bytes).events, Opens (fun _ => True) e := by
    intro e _
    unfold Opens
    split
    · exact fun _ => trivial
    · trivial
  exact (acting.outcome opens).2 _ raised large small rfl

/-- Every byte is still to be written, in the pipe or taken. -/
structure Flows (x : CopyContext F σ H) (s : CopyState) : Prop where
  all : x.takenBy s.caller + s.pipe.length + (x.pending s.thread).length = x.content.length
  wanted : x.takenBy s.caller ≤ x.takes
  room : s.pipe.length ≤ x.dwPipeBufferSize
  ended : ∀ result, s.caller = .waiting result → (x.targetRun x.content).exception = none

theorem ThreadStep.flows {s s' : CopyState} (step : x.ThreadStep s s') (flows : x.Flows s) :
    x.Flows s' := by
  obtain ⟨all, wanted, room, ended⟩ := flows
  cases step with
  | read =>
    refine ⟨?_, wanted, room, ended⟩
    rw [pending_readRound]
    exact all
  | write nonempty fits =>
    refine ⟨?_, wanted, ?_, ended⟩
    · simp only [pending, List.length_append] at all ⊢
      omega
    · rw [List.length_append]
      exact fits
  | written => exact ⟨all, wanted, room, ended⟩

theorem takenBy_leaves : x.takenBy x.leaves = x.takes := by
  unfold leaves
  cases x.targetRun x.content <;> rfl

theorem CallerStep.flows {s s' : CopyState} (step : x.CallerStep s s') (flows : x.Flows s) :
    x.Flows s' := by
  obtain ⟨all, wanted, room, ended⟩ := flows
  cases step with
  | take nonempty fits =>
    simp only [takenBy, List.length_append] at all room
    refine ⟨?_, fits, ?_, fun _ absurd => by cases absurd⟩
    · simp only [takenBy]
      omega
    · simp only
      omega
  | leave =>
    refine ⟨?_, ?_, room, fun result is => ?_⟩
    · rw [takenBy_leaves]
      exact all
    · rw [takenBy_leaves]
    · simp only [leaves] at is
      cases run : x.targetRun x.content with
      | ok => rfl
      | error =>
        rw [run] at is
        cases is
  | join => exact ⟨all, wanted, room, fun _ absurd => by cases absurd⟩

theorem Reachable.flows {s : CopyState} (reachable : x.Reachable s) : x.Flows s := by
  induction reachable with
  | start => exact ⟨by simp [takenBy, pending, content], Nat.zero_le _, Nat.zero_le _,
      fun _ absurd => by cases absurd⟩
  | thread _ step flows => exact step.flows flows
  | caller _ step flows => exact step.flows flows

theorem ThreadBlocked.full {s : CopyState} (blocked : x.ThreadBlocked s) (flows : x.Flows s) :
    s.pipe.length = x.dwPipeBufferSize ∧ x.pending s.thread ≠ [] := by
  obtain ⟨thread, pipe, caller⟩ := s
  cases thread with
  | reading blocks asked => exact absurd .read (blocked.2 _)
  | ended result => exact absurd rfl (blocked.1 result)
  | writing left blocks asked =>
    cases left with
    | nil => exact absurd .written (blocked.2 _)
    | cons unit left =>
      refine ⟨?_, List.cons_ne_nil _ _⟩
      by_contra free
      have room := flows.room
      have step : x.ThreadStep ⟨.writing ([unit] ++ left) blocks asked, pipe, caller⟩
          ⟨.writing left blocks asked, pipe ++ [unit], caller⟩ := by
        apply ThreadStep.write (List.cons_ne_nil _ _)
        simp only at free room
        rw [List.length_singleton]
        omega
      exact blocked.2 _ step

theorem threadBlocked_of_full {unit : BYTE} {left : List BYTE} {blocks : List (List BYTE)}
    {asked : Nat} {pipe : List BYTE} (caller : CopyCaller) (full : x.dwPipeBufferSize ≤ pipe.length) :
    x.ThreadBlocked ⟨.writing (unit :: left) blocks asked, pipe, caller⟩ := by
  refine ⟨fun _ absurd => (by cases absurd), fun s' step => ?_⟩
  have held {s s' : CopyState} (step : x.ThreadStep s s') (full : x.dwPipeBufferSize ≤ s.pipe.length)
      (more : ∃ left, s.thread = .writing (unit :: left) blocks asked) : False := by
    cases step with
    | read => exact more.elim fun _ absurd => by cases absurd
    | written => exact more.elim fun _ absurd => by cases absurd
    | write nonempty room =>
      have some_unit := List.length_pos_iff.mpr nonempty
      simp only at full
      omega
  exact held step full ⟨left, rfl⟩

theorem callerBlocked_of_waiting {thread : SourceReadThread} {pipe : List BYTE} {bWriteResult : Bool}
    (runs : ∀ result, thread ≠ .ended result) :
    x.CallerBlocked ⟨thread, pipe, .waiting bWriteResult⟩ := by
  refine ⟨fun _ absurd => (by cases absurd), fun _ absurd => (by cases absurd), fun s' step => ?_⟩
  cases step with
  | join => exact runs _ rfl

theorem Reachable.settles {s : CopyState} (reachable : x.Reachable s)
    (more : x.pending s.thread ≠ []) : ∃ unit left blocks asked,
      x.Reachable ⟨.writing (unit :: left) blocks asked, s.pipe, s.caller⟩ := by
  have read (blocks : List (List BYTE)) : ∀ asked, x.Reachable ⟨.reading blocks asked, s.pipe, s.caller⟩ →
      x.following blocks asked ≠ [] → ∃ unit left blocks asked,
        x.Reachable ⟨.writing (unit :: left) blocks asked, s.pipe, s.caller⟩ := by
    induction blocks with
    | nil => exact fun _ _ absurd => (absurd rfl).elim
    | cons block blocks ih =>
      intro asked reachable more
      have next := reachable.thread .read
      rw [following] at more
      by_cases cancelled : x.SourceReadSession.bCancel asked = true
      · rw [if_pos cancelled] at more
        exact absurd rfl more
      · rw [if_neg cancelled] at more
        rw [readRound, if_neg cancelled] at next
        cases block with
        | nil => exact ih _ (next.thread .written) more
        | cons unit left => exact ⟨unit, left, blocks, _, next⟩
  obtain ⟨thread, pipe, caller⟩ := s
  cases thread with
  | reading blocks asked => exact read blocks asked reachable more
  | ended result => exact absurd rfl more
  | writing left blocks asked =>
    cases left with
    | nil => exact read blocks asked (reachable.thread .written) more
    | cons unit left => exact ⟨unit, left, blocks, asked, reachable⟩

theorem Reachable.pushes {s : CopyState} (reachable : x.Reachable s)
    (more : x.pending s.thread ≠ []) (room : s.pipe.length < x.dwPipeBufferSize) :
    ∃ thread unit, x.Reachable ⟨thread, s.pipe ++ [unit], s.caller⟩ := by
  obtain ⟨unit, left, blocks, asked, reachable⟩ := reachable.settles more
  have fits : s.pipe.length + [unit].length ≤ x.dwPipeBufferSize := room
  exact ⟨_, unit, reachable.thread (.write (List.cons_ne_nil _ _) fits)⟩

theorem takes_reached (positive : 0 < x.dwPipeBufferSize) (taken : Nat) (wanted : taken ≤ x.takes) :
    ∃ thread pipe, x.Reachable ⟨thread, pipe, .writing taken⟩ := by
  induction taken with
  | zero => exact ⟨_, _, .start⟩
  | succ taken ih =>
    obtain ⟨thread, pipe, reachable⟩ := ih (Nat.le_of_succ_le wanted)
    have take {thread : SourceReadThread} {unit : BYTE} {rest : List BYTE}
        (reachable : x.Reachable ⟨thread, [unit] ++ rest, .writing taken⟩) :
        x.Reachable ⟨thread, rest, .writing (taken + [unit].length)⟩ :=
      reachable.caller (.take (List.cons_ne_nil _ _) wanted)
    cases pipe with
    | cons unit rest => exact ⟨_, _, take reachable⟩
    | nil =>
      have all := reachable.flows.all
      have within : x.takes ≤ x.content.length := Nat.sub_le _ _
      have more : x.pending thread ≠ [] := by
        intro none_left
        simp only [takenBy, none_left, List.length_nil] at all
        omega
      obtain ⟨thread, unit, reachable⟩ := reachable.pushes more positive
      exact ⟨_, _, take reachable⟩

/-- Where the caller leaves more than fits the pipe, both parties come to wait for each other. -/
theorem deadlock_reached (positive : 0 < x.dwPipeBufferSize)
    (ends : (x.targetRun x.content).exception = none) (more : x.dwPipeBufferSize < x.unread) :
    ∃ s, x.Reachable s ∧ (∃ result, s.caller = .waiting result) ∧ x.ThreadBlocked s ∧
      x.CallerBlocked s := by
  have within := x.unread_le
  obtain ⟨result, leaves⟩ : ∃ result, x.leaves = .waiting result := by
    unfold CopyContext.leaves
    cases run : x.targetRun x.content with
    | ok _ result _ => exact ⟨_, rfl⟩
    | error =>
      rw [run] at ends
      cases ends
  have waits : ∃ thread pipe, x.Reachable ⟨thread, pipe, .waiting result⟩ := by
    obtain ⟨thread, pipe, reachable⟩ := takes_reached positive x.takes (Nat.le_refl _)
    have left := reachable.caller (.leave fun sees => absurd sees.1 (by omega))
    exact ⟨thread, pipe, leaves ▸ left⟩
  have behind {thread : SourceReadThread} {pipe : List BYTE}
      (reachable : x.Reachable ⟨thread, pipe, .waiting result⟩) : x.pending thread ≠ [] := by
    intro none_left
    obtain ⟨all, -, room, -⟩ := reachable.flows
    simp only [takenBy, takes, none_left, List.length_nil] at all room
    omega
  have fills (free : Nat) : free ≤ x.dwPipeBufferSize → ∃ thread pipe,
      x.Reachable ⟨thread, pipe, .waiting result⟩ ∧ free ≤ pipe.length := by
    induction free with
    | zero => exact fun _ => waits.imp fun _ => Exists.imp fun _ reachable => ⟨reachable, Nat.zero_le _⟩
    | succ free ih =>
      intro fits
      obtain ⟨thread, pipe, reachable, filled⟩ := ih (Nat.le_of_succ_le fits)
      by_cases done : free + 1 ≤ pipe.length
      · exact ⟨thread, pipe, reachable, done⟩
      · have room : pipe.length < x.dwPipeBufferSize := by omega
        obtain ⟨thread, unit, reachable⟩ := reachable.pushes (behind reachable) room
        refine ⟨thread, _, reachable, ?_⟩
        simp only [List.length_append, List.length_singleton]
        omega
  obtain ⟨thread, pipe, reachable, full⟩ := fills _ (Nat.le_refl _)
  obtain ⟨unit, left, blocks, asked, reachable⟩ := reachable.settles (behind reachable)
  exact ⟨_, reachable, ⟨result, rfl⟩, threadBlocked_of_full _ full,
    callerBlocked_of_waiting fun _ absurd => by cases absurd⟩

theorem CallerBlocked.empty {s : CopyState} (blocked : x.CallerBlocked s) (flows : x.Flows s)
    (behind : x.pending s.thread ≠ []) {taken : Nat} (writing : s.caller = .writing taken) :
    s.pipe = [] := by
  obtain ⟨thread, pipe, caller⟩ := s
  obtain rfl : caller = .writing taken := writing
  cases pipe with
  | nil => rfl
  | cons unit rest =>
    by_cases done : taken = x.takes
    · have left : x.CallerStep ⟨thread, unit :: rest, .writing x.takes⟩
          ⟨thread, unit :: rest, x.leaves⟩ := by
        refine .leave fun sees => (behind ?_).elim
        have all := flows.all
        simp only [takenBy, done, takes, sees.1] at all
        exact List.length_eq_zero_iff.mp (by simp only at *; omega)
      exact absurd (done ▸ left) (blocked.2.2 _)
    · have wanted := flows.wanted
      have take : x.CallerStep ⟨thread, [unit] ++ rest, .writing taken⟩
          ⟨thread, rest, .writing (taken + [unit].length)⟩ := by
        refine .take (List.cons_ne_nil _ _) ?_
        simp only [takenBy, List.length_singleton] at wanted ⊢
        omega
      exact absurd take (blocked.2.2 _)

/-- BackupCopyFile cannot come to a halt exactly if WriteFileFromArchive, unless it raises an
    exception, leaves no more unread than fits the pipe. -/
theorem never_deadlocked (x : CopyContext F σ H) (positive : 0 < x.dwPipeBufferSize) :
    (∀ s, x.Reachable s → ¬ (x.ThreadBlocked s ∧ x.CallerBlocked s) ∧
      ∀ result, s.caller = .waiting result → ¬ x.ThreadBlocked s) ↔
        ((x.targetRun x.content).exception = none → x.unread ≤ x.dwPipeBufferSize) := by
  constructor
  · intro never ends
    by_contra more
    obtain ⟨s, reachable, -, thread, caller⟩ := deadlock_reached positive ends (Nat.lt_of_not_le more)
    exact (never s reachable).1 ⟨thread, caller⟩
  · intro fits s reachable
    have flows := reachable.flows
    have free (blocked : x.ThreadBlocked s) {result : Bool} (waits : s.caller = .waiting result) :
        False := by
      obtain ⟨full, behind⟩ := blocked.full flows
      have some_left := List.length_pos_iff.mpr behind
      have few := fits (flows.ended result waits)
      have within := x.unread_le
      have all := flows.all
      simp only [waits, takenBy, takes] at all
      omega
    refine ⟨fun ⟨thread, caller⟩ => ?_, fun result waits blocked => free blocked waits⟩
    obtain ⟨full, behind⟩ := thread.full flows
    cases place : s.caller with
    | writing taken =>
      have empty := caller.empty flows behind place
      rw [empty, List.length_nil] at full
      omega
    | waiting result => exact free thread place
    | returned result => exact caller.1 result place
    | aborted exception => exact caller.2.1 exception place

/-- What a caller has read whose target refuses a later block of the first stream. -/
theorem unread_refused (x : CopyContext F σ H) [DecidableEq H] {c : Config σ H}
    (target : x.targetConfig x.content = c) (quiet : ∀ pos, c.bCancel pos = false)
    (refused : RefusesBlocks c) {stream : Stream} (large : headerSize ≤ c.dwBufferSize)
    (wf : stream.WellFormed c.dwBufferSize) (long : stream.Long c.dwBufferSize) {rest : List BYTE}
    (content : x.content = stream.encode ++ rest) :
    (x.targetRun x.content).exception = none ∧
      stream.body.length + rest.length ≤ x.unread + 2 * c.dwBufferSize := by
  have archive : c.archive.bytes = stream.encode ++ rest := by
    rw [← target]
    exact content
  have written : Provided (fun _ => True) LinkWhole
      (writeFileFromArchive c x.TargetName x.TargetHandle false) (Session.start x.disk) _ :=
    writeFileFromArchive_refused quiet large refused x.TargetName x.TargetHandle wf long
      (rest_start archive x.disk)
  obtain ⟨t, result, s, run, -, behind⟩ := written.outcome fun _ _ => trivial
  rw [unread, targetRun, target, run]
  exact ⟨rfl, behind⟩

/-- A copy of what BackupRead delivers in these blocks to a target in the current directory. -/
def copyOf (blocks : List (List BYTE)) (nonempty : ∀ block ∈ blocks, block ≠ [])
    (target : Config Unit Unit) : CopyContext Unit Unit Unit where
  SourceReadSession := { (backupOf [0x61] []).c with reads := fun _ _ => ⟨blocks, nonempty, false⟩ }
  SourceFile := ()
  TargetWriteSession := target
  TargetName := [0x62]
  TargetHandle := some ()
  disk := ()
  dwPipeBufferSize := target.dwBufferSize

theorem following_uncancelled (quiet : ∀ n, x.SourceReadSession.bCancel n = false)
    (blocks : List (List BYTE)) (asked : Nat) : x.following blocks asked = blocks.flatten := by
  induction blocks generalizing asked with
  | nil => rfl
  | cons block blocks ih =>
    rw [following, quiet, if_neg Bool.false_ne_true, ih, List.flatten_cons]

def zeroFile (size : Nat) : Stream := ⟨backupData, 0, [], List.replicate size 0⟩

def zeroBlocks (count size : Nat) : List (List BYTE) :=
  (zeroFile (count * size)).header.encode :: List.replicate count (List.replicate size 0)

theorem zeroBlocks_nonempty (count : Nat) {size : Nat} (positive : size ≠ 0) :
    ∀ block ∈ zeroBlocks count size, block ≠ [] := by
  intro block mem
  rcases List.mem_cons.mp mem with rfl | mem
  · exact List.ne_nil_of_length_pos (by simp [headerSize])
  · rw [(List.mem_replicate.mp mem).2]
    simpa using positive

theorem zeroBlocks_flatten (count size : Nat) :
    (zeroBlocks count size).flatten = (zeroFile (count * size)).encode := by
  rw [zeroBlocks, List.flatten_cons, List.flatten_replicate_replicate]
  rfl

theorem zeroFile_wellFormed {size : Nat} (small : size < 2 ^ 62) : (zeroFile size).WellFormed 65536 where
  id := by simp [zeroFile, backupData, backupInvalid]
  fits := by simp [zeroFile, headerSize]
  size := by
    simp only [zeroFile, List.length_nil, List.length_replicate, headerSize]
    omega
  sparse := fun absurd => by simp [zeroFile, backupData, backupSparseBlock] at absurd
  link := fun absurd => by simp [zeroFile, backupData, backupLink] at absurd

theorem zeroFile_body (size : Nat) : (zeroFile size).body.length = size := by
  simp [Stream.body, zeroFile, wcharBytes]

theorem copyOf_content {blocks : List (List BYTE)} (nonempty : ∀ block ∈ blocks, block ≠ [])
    (target : Config Unit Unit) : (copyOf blocks nonempty target).content = blocks.flatten :=
  following_uncancelled (fun _ => rfl) blocks 1

theorem smallBlock_nonempty : ∀ block ∈ zeroBlocks 1 3, block ≠ [] :=
  zeroBlocks_nonempty 1 (by decide)

def smallCopy : CopyContext Unit Unit Unit :=
  copyOf (zeroBlocks 1 3) smallBlock_nonempty (workingConfig [])

theorem never_deadlocked_small : 0 < smallCopy.dwPipeBufferSize ∧
    ∀ s, smallCopy.Reachable s → ¬ (smallCopy.ThreadBlocked s ∧ smallCopy.CallerBlocked s) ∧
      ∀ result, s.caller = .waiting result → ¬ smallCopy.ThreadBlocked s := by
  have positive : 0 < smallCopy.dwPipeBufferSize := (by decide : 0 < 65536)
  have few : smallCopy.unread ≤ smallCopy.dwPipeBufferSize := by
    have content : smallCopy.content.length = 23 := by
      rw [smallCopy, copyOf_content]
      decide
    have within := smallCopy.unread_le
    have capacity : smallCopy.dwPipeBufferSize = 65536 := rfl
    omega
  exact ⟨positive, (never_deadlocked smallCopy positive).mpr fun _ => few⟩

theorem full_volume_deadlock : ¬ ∀ x : CopyContext Unit Unit Unit, 0 < x.dwPipeBufferSize →
    ∀ s, x.Reachable s → ¬ (x.ThreadBlocked s ∧ x.CallerBlocked s) := by
  intro never
  have nonempty := zeroBlocks_nonempty 5 (by decide : 50000 ≠ 0)
  have content : (copyOf (zeroBlocks 5 50000) nonempty (fullConfig [])).content =
      (zeroFile (5 * 50000)).encode ++ [] := by
    rw [copyOf_content, zeroBlocks_flatten, List.append_nil]
  have refused : RefusesBlocks ((copyOf (zeroBlocks 5 50000) nonempty (fullConfig [])).targetConfig
      (copyOf (zeroBlocks 5 50000) nonempty (fullConfig [])).content) :=
    ⟨fun _ _ _ _ _ => ⟨(), rfl⟩, fun _ _ _ => rfl, fun _ _ _ => rfl⟩
  have long : (zeroFile (5 * 50000)).Long 65536 := ⟨rfl, by rw [zeroFile_body]; decide⟩
  obtain ⟨ends, behind⟩ := unread_refused (copyOf (zeroBlocks 5 50000) nonempty (fullConfig [])) rfl
    (fun _ => rfl) refused (by decide : headerSize ≤ 65536) (zeroFile_wellFormed (by decide)) long content
  rw [zeroFile_body] at behind
  have capacity : (copyOf (zeroBlocks 5 50000) nonempty (fullConfig [])).dwPipeBufferSize = 65536 := rfl
  have size : ((copyOf (zeroBlocks 5 50000) nonempty (fullConfig [])).targetConfig
    (copyOf (zeroBlocks 5 50000) nonempty (fullConfig [])).content).dwBufferSize = 65536 := rfl
  rw [size, List.length_nil] at behind
  obtain ⟨s, reachable, -, thread, caller⟩ := deadlock_reached (by omega) ends (by omega)
  exact never _ (by omega) s reachable ⟨thread, caller⟩

end CopyContext

end StrArc
