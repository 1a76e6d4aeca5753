import LtrData.StrArc.RoundTrip

namespace StrArc

open Traced

variable {σ H : Type}

/-- Where the streams of a file are to go: an alternate stream with its data to its own name, as
    well as the sparse blocks directly behind it if it is sparse, everything else to the file. -/
def ownDeliveries (File : UnicodeString) : Option UnicodeString → List Stream → List Delivery
  | _, [] => []
  | sparse, stream :: rest =>
    if stream.name ≠ [] then
      let Name := File ++ stream.name
      .alternate Name stream.data :: ownDeliveries File
        (if hasAttribute stream.dwStreamAttributes streamSparseAttribute then some Name else none) rest
    else
      match sparse with
      | some Name =>
        if stream.dwStreamId = backupSparseBlock then
          .stream Name stream.encode :: ownDeliveries File (some Name) rest
        else .stream File stream.encode :: ownDeliveries File none rest
      | none => .stream File stream.encode :: ownDeliveries File none rest

/-- Behind an alternate stream there are only the blocks of one that is sparse, and other alternate
    streams. None of them has data under other attributes than the normal ones. -/
def Separable : Option Stream → List Stream → Prop
  | _, [] => True
  | last, stream :: rest =>
    if stream.name ≠ [] then stream.written = stream.data ∧ Separable (some stream) rest
    else
      (∀ alternate, last = some alternate → stream.dwStreamId = backupSparseBlock ∧
        hasAttribute alternate.dwStreamAttributes streamSparseAttribute = true) ∧ Separable last rest

/-- The streams of a file as a backup finds them: the alternate streams are the named ones, and
    their complete names are names of the system. -/
structure FileStreams (dwBufferSize : Nat) (File : UnicodeString) (streams : List Stream) : Prop where
  wellFormed : ∀ stream ∈ streams, stream.WellFormed dwBufferSize
  named : ∀ stream ∈ streams, stream.name ≠ [] ↔ stream.dwStreamId = backupAlternateData
  plain : ∀ stream ∈ streams, stream.dwStreamId ≠ backupLink ∧ stream.Storable File

theorem append_ne_self {File name : UnicodeString} (named : name ≠ []) : File ++ name ≠ File := by
  intro same
  have front : File ++ name = File ++ [] := by rw [same, List.append_nil]
  exact named (List.append_cancel_left front)

theorem alternateDeliveries_iff (File : UnicodeString) {last : Stream} (named : last.name ≠ [])
    (rest : List Stream) :
    alternateDeliveries File (File ++ last.name) rest = ownDeliveries File
      (if hasAttribute last.dwStreamAttributes streamSparseAttribute then some (File ++ last.name) else none)
      rest ↔ Separable (some last) rest := by
  induction rest generalizing last with
  | nil => simp [alternateDeliveries, ownDeliveries, Separable]
  | cons stream rest ih =>
    have apart : File ++ last.name ≠ File := append_ne_self named
    rw [alternateDeliveries, Separable]
    unfold ownDeliveries
    by_cases unnamed : stream.name = []
    · rw [if_pos unnamed, if_neg (not_not.mpr unnamed), if_neg (not_not.mpr unnamed)]
      by_cases sparse : hasAttribute last.dwStreamAttributes streamSparseAttribute = true
      · have here := ih named
        rw [if_pos sparse] at here ⊢
        dsimp only
        split
        · next block => simp [here, block, sparse]
        · next other => simp [apart, other]
      · rw [if_neg sparse]
        simp [apart, sparse]
    · rw [if_neg unnamed, if_pos unnamed, if_pos unnamed]
      simp [ih unnamed]

theorem streamDeliveries_iff {File : UnicodeString} {streams : List Stream}
    (named : ∀ stream ∈ streams, stream.name ≠ [] ↔ stream.dwStreamId = backupAlternateData)
    (plain : ∀ stream ∈ streams, stream.dwStreamId ≠ backupLink) :
    streamDeliveries File streams = ownDeliveries File none streams ↔ Separable none streams := by
  induction streams with
  | nil => simp [streamDeliveries, ownDeliveries, Separable]
  | cons stream rest ih =>
    have here := named stream List.mem_cons_self
    rw [streamDeliveries, Separable, if_neg (plain stream List.mem_cons_self)]
    unfold ownDeliveries
    by_cases alternate : stream.dwStreamId = backupAlternateData
    · have name := here.mpr alternate
      rw [if_pos alternate, if_pos name, if_pos name]
      simp [alternateDeliveries_iff File name]
    · have unnamed := fun name => alternate (here.mp name)
      have behind := ih (fun other mem => named other (List.mem_cons_of_mem _ mem))
        fun other mem => plain other (List.mem_cons_of_mem _ mem)
      rw [if_neg alternate, if_neg unnamed, if_neg unnamed]
      simp [behind]

section Run

variable [DecidableEq H] {c : Config σ H} {s : Session σ}

theorem writeFileFromArchive_delivers (quiet : ∀ pos, c.bCancel pos = false)
    (large : headerSize ≤ c.dwBufferSize) {tail : List BYTE} (boundary : Boundary tail)
    {File : UnicodeString} {streams : List Stream} (file : FileStreams c.dwBufferSize File streams)
    (hFile : Handle H) (at_ : Rest c s (streams.flatMap Stream.encode ++ tail))
    (succeeded : ∀ e ∈ (writeFileFromArchive c File hFile false s).events, Succeeded e) :
    (Delivered.run ⟨hFile, File, []⟩ (writeFileFromArchive c File hFile false s).events).list =
      streamDeliveries File streams := by
  have written : Provided Succeeded LinkWhole (writeFileFromArchive c File hFile false) s fun t _ _ =>
      (Delivered.run ⟨hFile, File, []⟩ t).list = streamDeliveries File streams := by
    have enough : streams.length < c.fuel := by
      have length := length_streams streams
      have bound := at_.lt_fuel
      omega
    apply provided_bind (provided_readStreamHeader boundary at_)
    intro _ n s₁ facts
    rcases facts with ⟨rfl, ready⟩
    apply (provided_streamLoop quiet large boundary File c.fuel hFile false
      (fun _ => succeeded_inStep) (fun _ => Or.inr (restorable_of_plain file.plain)) file.wellFormed
      ready enough).mono
    intro t r s₂ facts
    rcases facts with ⟨-, -, delivers⟩
    exact delivers (fun _ => id) rfl (restorable_of_plain file.plain) _ fun _ => ⟨rfl, rfl⟩
  obtain ⟨t, r, s', run, delivers⟩ := written.outcome succeeded
  rw [run]
  exact delivers

/-- With no failure, every stream goes to the object it belongs to exactly if nothing but the
    blocks of sparse alternate streams stands behind the first alternate stream, and no alternate
    stream has data that is passed over. -/
theorem writeFileFromArchive_belongs (quiet : ∀ pos, c.bCancel pos = false)
    (large : headerSize ≤ c.dwBufferSize) {tail : List BYTE} (boundary : Boundary tail)
    {File : UnicodeString} {streams : List Stream} (file : FileStreams c.dwBufferSize File streams)
    (hFile : Handle H) (at_ : Rest c s (streams.flatMap Stream.encode ++ tail))
    (succeeded : ∀ e ∈ (writeFileFromArchive c File hFile false s).events, Succeeded e) :
    (Delivered.run ⟨hFile, File, []⟩ (writeFileFromArchive c File hFile false s).events).list =
      ownDeliveries File none streams ↔ Separable none streams := by
  rw [writeFileFromArchive_delivers quiet large boundary file hFile at_ succeeded]
  exact streamDeliveries_iff file.named fun stream mem => (file.plain stream mem).1

end Run

theorem writeFileFromArchive_follows (c : Config σ H) (File : UnicodeString) (hFile : Handle H)
    (s : Session σ) :
    Follows c.system s.disk (writeFileFromArchive c File hFile false s).events
      (writeFileFromArchive c File hFile false s).state.disk := by
  have acting : Acting c (fun _ => True) (fun _ => True) (writeFileFromArchive c File hFile false) s _ :=
    writeFileFromArchive_acts File (fun _ _ => trivial) fun _ => trivial
  exact (acting.outcome fun e _ => opens_anything e).1.follows

/-- A system that does what it is asked for, and gives every object a handle of its own. -/
def countingSystem : System Nat Nat
  | .openFile .existing _, d => (.failed 2, d)
  | .openFile .existingFollowed _, d => (.failed 2, d)
  | .openFile .., d => (.opened d, d + 1)
  | .createFile .., d => (.opened d, d + 1)
  | .createDirectory .., d => (.opened d, d + 1)
  | .writeFile _ data, d => (.written data.length, d)
  | _, d => (.success, d)

theorem countingSystem_succeeds (request : Call Nat) (d : Nat) :
    Succeeded (.call request (countingSystem request d).1) := by
  cases request with
  | openFile site Name =>
    cases site <;> first | trivial | exact ⟨d, rfl⟩
  | createDirectory => exact ⟨d, rfl⟩
  | createFile => exact ⟨d, rfl⟩
  | writeFile => rfl
  | _ => rfl

def countingConfig (bytes : List BYTE) : Config Nat Nat where
  archive := ⟨bytes, fun _ => 0⟩
  dwBufferSize := 65536
  isDword := bufferSize_dword
  options := {}
  system := countingSystem
  included _ _ := true
  bCancel _ := false

/-- The streams of the file "a" with handle 0 are all there is. -/
def countedRun (streams : List Stream) : List (Event Nat) :=
  (writeFileFromArchive (countingConfig (streams.flatMap Stream.encode)) [0x61] (some 0) false
    (Session.start 1)).events

theorem countedRun_succeeded (streams : List Stream) : ∀ e ∈ countedRun streams, Succeeded e :=
  (writeFileFromArchive_follows (countingConfig (streams.flatMap Stream.encode)) [0x61] (some 0)
    (Session.start 1)).succeeded countingSystem_succeeds

theorem rest_counted (streams : List Stream) :
    Rest (countingConfig (streams.flatMap Stream.encode)) (Session.start 1)
      (streams.flatMap Stream.encode ++ []) :=
  rest_start (by simp [countingConfig]) 1

def notesStream : Stream := ⟨backupAlternateData, 0, [0x3A, 0x73], [4, 5]⟩

def objectIdStream : Stream := ⟨7, 0, [], [6]⟩

theorem notesStream_wellFormed : notesStream.WellFormed 65536 :=
  ⟨by decide, by decide, by decide, by decide, by decide⟩

theorem objectIdStream_wellFormed : objectIdStream.WellFormed 65536 :=
  ⟨by decide, by decide, by decide, by decide, by decide⟩

theorem fileStreams_separable : FileStreams 65536 [0x61] [objectIdStream, notesStream] where
  wellFormed := by simp [notesStream_wellFormed, objectIdStream_wellFormed]
  named := by decide
  plain := by decide

theorem fileStreams_inseparable : FileStreams 65536 [0x61] [notesStream, objectIdStream] where
  wellFormed := by simp [notesStream_wellFormed, objectIdStream_wellFormed]
  named := by decide
  plain := by decide

theorem writeFileFromArchive_belongs_alternateLast :
    (Delivered.run ⟨some 0, [0x61], []⟩ (countedRun [objectIdStream, notesStream])).list =
      ownDeliveries [0x61] none [objectIdStream, notesStream] ↔
      Separable none [objectIdStream, notesStream] :=
  writeFileFromArchive_belongs (fun _ => rfl) (by decide) (Or.inl rfl) fileStreams_separable (some 0)
    (rest_counted _) (countedRun_succeeded _)

/-- The object id behind an alternate stream is written to the alternate stream. -/
theorem object_id_misplaced :
    ¬ ∀ (c : Config Nat Nat) (s : Session Nat) (tail : List BYTE) (File : UnicodeString)
        (streams : List Stream) (hFile : Handle Nat), (∀ pos, c.bCancel pos = false) →
      headerSize ≤ c.dwBufferSize → Boundary tail → FileStreams c.dwBufferSize File streams →
      Rest c s (streams.flatMap Stream.encode ++ tail) →
      (∀ e ∈ (writeFileFromArchive c File hFile false s).events, Succeeded e) →
      (Delivered.run ⟨hFile, File, []⟩ (writeFileFromArchive c File hFile false s).events).list =
        ownDeliveries File none streams := by
  intro belongs
  have placed := belongs _ _ [] [0x61] [notesStream, objectIdStream] (some 0) (fun _ => rfl)
    (by decide) (Or.inl rfl) fileStreams_inseparable (rest_counted _) (countedRun_succeeded _)
  rw [writeFileFromArchive_delivers (fun _ => rfl) (by decide) (Or.inl rfl) fileStreams_inseparable
    (some 0) (rest_counted _) (countedRun_succeeded _)] at placed
  revert placed
  decide

end StrArc
