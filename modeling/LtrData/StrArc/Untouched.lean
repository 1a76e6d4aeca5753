import LtrData.StrArc.FileSystem

namespace StrArc

open Traced

variable {σ H Obj St : Type} {fs : FileSystem σ H Obj St}

def OpenSite.isExisting : OpenSite → Bool
  | existing => true
  | existingFollowed => true
  | linkSource => false
  | copySource => false

/-- The information of the archived file that is being restored after these events. -/
def restoring (t : List (Event H)) : Option ByHandleFileInformation :=
  t.reverse.findSome? fun
    | .restoreFile _ _ FileInfo _ => some FileInfo
    | _ => none

/-- Where the object is found existing, it is not read-only, or it is not extracted over. -/
def HeldBack (fs : FileSystem σ H Obj St) (o : Options) (object : Obj) (st : St)
    (FileInfo : ByHandleFileInformation) : Event H → Prop
  | .call (.openFile site _) (.opened h) => site.isExisting → fs.object h = object →
    hasAttribute (fs.basic st).FileAttributes fileAttributeReadonly →
    overwrites o (fs.basic st) FileInfo = false
  | _ => True

/-- As `HeldBack`, for a whole run, with the information of the file being restored. -/
def Spares (fs : FileSystem σ H Obj St) (o : Options) (object : Obj) (st : St)
    (t : List (Event H)) : Prop :=
  ∀ before e after FileInfo, t = before ++ e :: after → restoring before = some FileInfo →
    HeldBack fs o object st FileInfo e

theorem spares_of_writable {o : Options} {object : Obj} {st : St}
    (writable : hasAttribute (fs.basic st).FileAttributes fileAttributeReadonly = false)
    (t : List (Event H)) : Spares fs o object st t := by
  intro before e after FileInfo _ _
  unfold HeldBack
  split
  · intro _ _ readonly
    rw [writable] at readonly
    cases readonly
  · trivial

section File

variable {c : Config σ H} {s : Session σ} {o : Obj} {Name : UnicodeString} {st : St}
  {FileInfo : ByHandleFileInformation}

/-- The events under which the object is to be left alone: it is not opened by a create call, and
    not extracted over where it is read-only. -/
def Spared (fs : FileSystem σ H Obj St) (c : Config σ H) (o : Obj) (st : St)
    (FileInfo : ByHandleFileInformation) (e : Event H) : Prop :=
  Opens (fun h => fs.object h ≠ o) e ∧ HeldBack fs c.options o st FileInfo e

/-- A run that leaves the object as it is. -/
def Leaves (fs : FileSystem σ H Obj St) (c : Config σ H) (o : Obj) (Name : UnicodeString) (st : St)
    (s : Session σ) (t : List (Event H)) (s' : Session σ) : Prop :=
  remaining c s' ≤ remaining c s ∧ (∀ e ∈ t, ∀ start File FileInfo ShortName,
    e ≠ .restoreFile start File FileInfo ShortName) ∧
    (fs.Keeps o Name st s.disk → fs.Keeps o Name st s'.disk)

theorem leaves_composes : Composes (Leaves fs c o Name st) where
  nil s := ⟨Nat.le_refl _, by simp, id⟩
  append first second := by
    refine ⟨second.1.trans first.1, fun e mem => ?_, second.2.2 ∘ first.2.2⟩
    rcases List.mem_append.mp mem with mem | mem
    · exact first.2.1 e mem
    · exact second.2.1 e mem

theorem Acts.leaves (disk : c.system = fs.system) {s' : Session σ} {t : List (Event H)}
    (acts : Acts c (fun h => fs.object h ≠ o) (· ≠ Name) s t s')
    (opens : ∀ e ∈ t, Opens (fun h => fs.object h ≠ o) e) : Leaves fs c o Name st s t s' := by
  refine ⟨acts.forward, fun e mem => ?_, fun keeps => ?_⟩
  · have inner := acts.events e mem
    rintro _ _ _ _ rfl
    exact inner
  · exact keeps.follows (disk ▸ acts.follows) acts.touches opens

variable {α : Type} {x : Restore σ H α}

theorem Acting.leaves (disk : c.system = fs.system) {Q : α → Session σ → Prop}
    (acting : Acting c (fun h => fs.object h ≠ o) (· ≠ Name) x s Q) :
    Along (Spared fs c o st FileInfo) (Leaves fs c o Name st) (Bounded c) x s fun _ => Q :=
  Along.weaken acting (fun _ spared => spared.1)
    fun _ _ spared acts => acts.leaves disk fun e mem => (spared e mem).1

theorem call_leaves (disk : c.system = fs.system) (request : Call H)
    (touches : request.touches (fun h => fs.object h ≠ o) (· ≠ Name)) :
    Along (Spared fs c o st FileInfo) (Leaves fs c o Name st) (Bounded c) (call c request) s
      fun _ reply s' => reply = (c.system request s.disk).1 ∧ s'.disk = (c.system request s.disk).2 ∧
        Spared fs c o st FileInfo (.call request reply) := by
  refine along_of_ok (call_run c request s) fun all =>
    ⟨⟨Nat.le_refl _, by simp, fun keeps => ?_⟩, rfl, rfl, all _ (List.mem_singleton_self _)⟩
  rw [disk] at all ⊢
  exact keeps.step touches (all _ (List.mem_singleton_self _)).1

/-- A handle to the existing object is only there where it is held back or not read-only. -/
def Judged (fs : FileSystem σ H Obj St) (c : Config σ H) (o : Obj) (st : St)
    (FileInfo : ByHandleFileInformation) (hFile : Handle H) : Prop :=
  ∀ h, hFile = some h → fs.object h = o →
    hasAttribute (fs.basic st).FileAttributes fileAttributeReadonly →
    overwrites c.options (fs.basic st) FileInfo = false

theorem judged_of_reply {site : OpenSite} {File : UnicodeString} {reply : Reply H}
    (existing : site.isExisting)
    (spared : Spared fs c o st FileInfo (.call (.openFile site File) reply)) :
    Judged fs c o st FileInfo reply.handle := by
  intro h opened
  cases reply <;> simp only [Reply.handle, Option.some.injEq, reduceCtorEq] at opened
  subst opened
  exact spared.2 existing

theorem openExisting_leaves (disk : c.system = fs.system) (File : UnicodeString) :
    Along (Spared fs c o st FileInfo) (Leaves fs c o Name st) (Bounded c) (openExisting c File) s
      fun _ hFile _ => Judged fs c o st FileInfo hFile := by
  unfold openExisting
  apply along_bind leaves_composes (call_leaves disk (.openFile .existing File) trivial)
  intro t opened s₁ _ facts
  rcases facts with ⟨-, -, spared⟩
  split
  · apply along_bind leaves_composes (call_leaves disk (.openFile .existingFollowed File) trivial)
    intro t opened s₂ _ facts
    rcases facts with ⟨-, -, spared⟩
    exact along_pure leaves_composes (judged_of_reply rfl spared)
  · exact along_pure leaves_composes (judged_of_reply rfl spared)

theorem judgeExisting_spares (queried : Reply H) {h : H} (same : fs.object h = o)
    (judged : Judged fs c o st FileInfo (some h))
    (reply : ∀ info, queried = .information info → info = fs.basic st) :
    ¬ ((judgeExisting c.options FileInfo queried).1 = true ∧
      hasAttribute (judgeExisting c.options FileInfo queried).2.FileAttributes
        fileAttributeReadonly = true) := by
  intro facts
  rcases facts with ⟨included, readonly⟩
  cases queried with
  | information info =>
    have basic := reply info rfl
    subst basic
    have held := judged h rfl same readonly
    simp only [judgeExisting, held, Bool.false_eq_true] at included
  | _ => simp [judgeExisting, noInformation, hasAttribute] at readonly

theorem probeExisting_leaves (disk : c.system = fs.system) (keeps : fs.Keeps o Name st s.disk)
    (File : UnicodeString) :
    Along (Spared fs c o st FileInfo) (Leaves fs c o Name st) (Bounded c)
      (probeExisting c File FileInfo) s fun _ _ _ => True := by
  unfold probeExisting
  apply along_bind leaves_composes (openExisting_leaves disk File)
  intro t hFile s₁ leaves judged
  have keeps := leaves.2.2 keeps
  split
  · next h =>
    apply along_bind leaves_composes (call_leaves disk (.queryInformation (some h)) trivial)
    intro t queried s₂ leaves facts
    rcases facts with ⟨reply, -, -⟩
    have reset : Along (Spared fs c o st FileInfo) (Leaves fs c o Name st) (Bounded c)
        (resetReadonly c (some h) (judgeExisting c.options FileInfo queried).1
          (judgeExisting c.options FileInfo queried).2) s₂ fun _ _ _ => True := by
      by_cases same : fs.object h = o
      · have unset := judgeExisting_spares queried same judged fun info answer => by
          rw [disk] at reply
          have basic := fs.queried s₁.disk h info (reply ▸ answer)
          rw [basic, same, keeps.1]
        unfold resetReadonly
        rw [if_neg unset]
        exact along_pure leaves_composes trivial
      · exact (resetReadonly_acts (K := fun h => fs.object h ≠ o) (on_some same) _ _).leaves disk
    dsimp only
    apply along_bind leaves_composes reset
    intro _ existing s₃ _ _
    apply along_bind leaves_composes (call_leaves disk (.close (some h)) trivial)
    intro _ _ _ _ _
    exact along_pure leaves_composes trivial
  · exact along_pure leaves_composes trivial

theorem create_leaves (disk : c.system = fs.system) (keeps : fs.Keeps o Name st s.disk)
    (request : Call H) (touches : request.touches (fun h => fs.object h ≠ o) (· ≠ Name))
    (creates : request.creates = true) {File : UnicodeString}
    (names : request.createdName = some File) :
    Along (Spared fs c o st FileInfo) (Leaves fs c o Name st) (Bounded c) (call c request) s
      fun _ reply _ => On (fun h => fs.object h ≠ o) reply.handle ∧
        (reply.handle.isSome → File ≠ Name) := by
  refine (call_leaves disk request touches).mono ?_
  intro t reply s' _ facts
  rcases facts with ⟨answer, -, spared⟩
  cases reply <;> simp only [Reply.handle, on_none, Option.isSome_none, Bool.false_eq_true,
    false_implies, and_self]
  next h =>
  have apart := spared.1 creates
  refine ⟨on_some apart, fun _ same => apart ?_⟩
  subst same
  rw [disk] at answer
  exact fs.opened request s.disk o File h keeps.2 creates names answer.symm

theorem createTarget_leaves (disk : c.system = fs.system) (keeps : fs.Keeps o Name st s.disk)
    (File : UnicodeString) (bIncludeThis bSeekOnly : Bool) (existing : FileBasicInformation) :
    Along (Spared fs c o st FileInfo) (Leaves fs c o Name st) (Bounded c)
      (createTarget c File FileInfo bIncludeThis bSeekOnly existing) s
      fun _ target _ => On (fun h => fs.object h ≠ o) target.1 ∧
        (target.2 = false → File ≠ Name) := by
  unfold createTarget
  dsimp only
  split
  · exact along_pure leaves_composes ⟨on_none _, fun absurd => by cases absurd⟩
  have opened {hFile : Handle H} (created : On (fun h => fs.object h ≠ o) hFile ∧
      (hFile.isSome → File ≠ Name)) : On (fun h => fs.object h ≠ o) hFile ∧
      (hFile.isNone = false → File ≠ Name) :=
    ⟨created.1, fun some => created.2 (by cases hFile <;> simp at some ⊢)⟩
  split
  · unfold createTargetDirectory
    dsimp only
    apply along_bind leaves_composes (Q := fun _ hFile _ => On (fun h => fs.object h ≠ o) hFile ∧
      (hFile.isSome → File ≠ Name))
    · apply along_bind leaves_composes
        (create_leaves disk keeps (.createDirectory File true _ _) trivial rfl rfl)
      intro t created s₁ leaves on
      split
      · apply along_bind leaves_composes (create_leaves disk (leaves.2.2 keeps)
          (.createDirectory File false _ _) trivial rfl rfl)
        intro t' created s₂ _ on
        exact along_pure leaves_composes on
      · exact along_pure leaves_composes on
    · intro t hFile s₁ _ on
      exact along_pure leaves_composes (opened on)
  · apply along_bind leaves_composes
      (create_leaves disk keeps (.createFile .target File _ _ _) trivial rfl rfl)
    intro t created s₁ _ on
    exact along_pure leaves_composes (opened on)

theorem restoreFile_leaves (disk : c.system = fs.system) (keeps : fs.Keeps o Name st s.disk)
    (File ShortName : UnicodeString) :
    Along (Spared fs c o st FileInfo) (Leaves fs c o Name st) (Bounded c)
      (restoreFile c File FileInfo ShortName) s fun _ _ _ => True := by
  unfold restoreFile
  dsimp only
  generalize restoredName c.options File FileInfo ShortName = renamed
  have probed : Along (Spared fs c o st FileInfo) (Leaves fs c o Name st) (Bounded c)
      (probeIncluded c renamed.1 FileInfo) s fun _ _ _ => True := by
    unfold probeIncluded
    split
    · exact probeExisting_leaves disk keeps _
    · exact along_pure leaves_composes trivial
  apply along_bind leaves_composes probed
  intro t probed s₁ leaves _
  have keeps := leaves.2.2 keeps
  apply along_bind leaves_composes (createTarget_leaves disk keeps _ _ _ _)
  intro t target s₂ leaves facts
  rcases facts with ⟨on, named⟩
  apply along_bind leaves_composes ((prepareTarget_acts on FileInfo ShortName _ _).leaves disk)
  intro t _ s₃ _ _
  have written : Acting c (fun h => fs.object h ≠ o) (· ≠ Name)
      (writeFileFromArchive c renamed.1 target.1 target.2) s₃
      fun r _ => Left (fun h => fs.object h ≠ o) target.2 r :=
    writeFileFromArchive_acts _ on named
  apply along_bind leaves_composes (written.leaves disk)
  intro t r s₄ _ left
  split
  · apply along_bind leaves_composes ((finishTarget_acts left.1 FileInfo _).leaves disk)
    intro _ _ _ _ _
    apply along_bind leaves_composes ((countRestored_acts _ _).leaves disk)
    intro _ _ _ _ _
    apply along_bind leaves_composes ((closeOpened_acts _).leaves disk)
    intro _ _ _ _ _
    exact along_pure leaves_composes trivial
  · exact along_pure leaves_composes trivial

end File

theorem restoring_cons (start : Nat) (File ShortName : UnicodeString)
    (FileInfo : ByHandleFileInformation) {t : List (Event H)}
    (others : ∀ e ∈ t, ∀ start File FileInfo ShortName,
      e ≠ .restoreFile start File FileInfo ShortName) :
    restoring (.restoreFile start File FileInfo ShortName :: t) = some FileInfo := by
  have rest : t.reverse.findSome? (fun
      | .restoreFile _ _ FileInfo _ => some FileInfo
      | _ => none) = none := by
    rw [List.findSome?_eq_none_iff]
    intro e mem
    have other := others e (List.mem_reverse.mp mem)
    cases e <;> first | rfl | exact absurd rfl (other _ _ _ _)
  rw [restoring, List.reverse_cons, List.findSome?_append, rest]
  rfl

theorem restoring_append (t t' : List (Event H)) :
    restoring (t ++ t') = (restoring t').or (restoring t) := by
  rw [restoring, List.reverse_append, List.findSome?_append, restoring, restoring]

theorem Spares.append {o : Options} {object : Obj} {st : St} {t t' : List (Event H)}
    (spares : Spares fs o object st (t ++ t')) :
    Spares fs o object st t ∧ Spares fs o object st t' := by
  constructor
  · rintro before e after FileInfo rfl current
    exact spares before e (after ++ t') FileInfo (by simp) current
  · rintro before e after FileInfo rfl current
    exact spares (t ++ before) e after FileInfo (by simp)
      (by rw [restoring_append, current, Option.some_or])

section Run

variable {c : Config σ H} {s : Session σ} {o : Obj} {Name : UnicodeString} {st : St}

structure Untouched (fs : FileSystem σ H Obj St) (c : Config σ H) (o : Obj) (Name : UnicodeString)
    (st : St) (s : Session σ) (t : List (Event H)) (s' : Session σ) : Prop where
  forward : remaining c s' ≤ remaining c s
  keeps : Spares fs c.options o st t → fs.Keeps o Name st s.disk → fs.Keeps o Name st s'.disk

theorem reading_untouched : Reading c (Untouched fs c o Name st) where
  composes :=
    { nil := fun _ => ⟨Nat.le_refl _, fun _ => id⟩
      append := fun first second => ⟨second.forward.trans first.forward, fun spares =>
        second.keeps spares.append.2 ∘ first.keeps spares.append.1⟩ }
  forward h := h.forward
  silent disk forward := ⟨forward, fun _ keeps => disk ▸ keeps⟩
  rejected _ _ _ := ⟨Nat.le_refl _, fun _ => id⟩
  fileHeader _ _ := ⟨Nat.le_refl _, fun _ => id⟩

theorem untouched_of_leaves {start : Nat} {File ShortName : UnicodeString}
    {FileInfo : ByHandleFileInformation} {s' : Session σ} {t : List (Event H)}
    (acts : Acts c (fun _ => True) (fun _ => True) s t s')
    (opens : ∀ e ∈ t, Opens (fun h => fs.object h ≠ o) e)
    (leaves : fs.Keeps o Name st s.disk → (∀ e ∈ t, Spared fs c o st FileInfo e) →
      Leaves fs c o Name st s t s') :
    Untouched fs c o Name st s (.restoreFile start File FileInfo ShortName :: t) s' := by
  refine ⟨acts.forward, fun spares keeps => (leaves keeps fun e mem => ⟨opens e mem, ?_⟩).2.2 keeps⟩
  obtain ⟨before, after, rfl⟩ := List.append_of_mem mem
  refine spares (.restoreFile start File FileInfo ShortName :: before) e after FileInfo rfl ?_
  apply restoring_cons
  intro e' mem'
  have inner := acts.events e' (List.mem_append_left _ mem')
  rintro _ _ _ _ rfl
  exact inner

theorem restoreObject_untouched (disk : c.system = fs.system) :
    Along (Opens fun h => fs.object h ≠ o) (Untouched fs c o Name st) (Bounded c) (restoreObject c) s
      fun _ _ _ => True := by
  have whole (File ShortName : UnicodeString) (FileInfo : ByHandleFileInformation) :
      Ensures (restoreFile c File FileInfo ShortName) s
        (fun t _ s' => Acts c (fun _ => True) (fun _ => True) s t s' ∧
          (fs.Keeps o Name st s.disk → (∀ e ∈ t, Spared fs c o st FileInfo e) →
            Leaves fs c o Name st s t s'))
        (fun t e s' => (Acts c (fun _ => True) (fun _ => True) s t s' ∧ Bounded c e) ∧
          (fs.Keeps o Name st s.disk → (∀ e ∈ t, Spared fs c o st FileInfo e) →
            Leaves fs c o Name st s t s')) := by
    have acts : Acting c (fun _ => True) (fun _ => True) (restoreFile c File FileInfo ShortName) s
        fun _ _ => True := restoreFile_acts (fun _ => trivial) (fun _ => trivial) _ _ _
    by_cases keeps : fs.Keeps o Name st s.disk
    · refine (Ensures.and acts (restoreFile_leaves disk keeps File ShortName)).mono ?_ ?_
      · exact fun t _ s' h =>
          ⟨(h.1 fun e _ => opens_anything e).1, fun _ spared => (h.2 spared).1⟩
      · exact fun t _ s' h =>
          ⟨h.1 fun e _ => opens_anything e, fun _ spared => (h.2 spared).1⟩
    · refine Ensures.mono acts ?_ ?_
      · exact fun t _ s' h => ⟨(h fun e _ => opens_anything e).1, fun held => absurd held keeps⟩
      · exact fun t _ s' h => ⟨h fun e _ => opens_anything e, fun held => absurd held keeps⟩
  unfold restoreObject
  apply ensures_bind_ok (header_run s)
  apply ensures_bind_ok (bufferAt_run _ _ s)
  apply ensures_bind_ok (bufferAt_run _ _ s)
  apply ensures_bind_ok (bufferAt_run _ _ s)
  apply ensures_bind_ok (noteRestoreFile_run _ _ _ s)
  refine (whole _ _ _).mono ?_ ?_
  · intro t _ s' h opens
    exact ⟨untouched_of_leaves h.1 (fun e mem => opens e (List.mem_cons_of_mem _ mem)) h.2, trivial⟩
  · intro t _ s' h opens
    exact ⟨untouched_of_leaves h.1.1 (fun e mem => opens e (List.mem_cons_of_mem _ mem)) h.2, h.1.2⟩

/-- An object that no create call opens keeps its state and its name, where it is not read-only
    whenever it is found existing, or the -o switches hold it back. -/
theorem restoreDirectoryTree_untouched (disk : c.system = fs.system) (d : σ)
    (named : fs.named d Name = some o)
    (unopened : ∀ e ∈ (restoreDirectoryTree c (Session.start d)).events,
      Opens (fun h => fs.object h ≠ o) e)
    (spares : Spares fs c.options o (fs.state d o)
      (restoreDirectoryTree c (Session.start d)).events) :
    fs.state (restoreDirectoryTree c (Session.start d)).state.disk o = fs.state d o ∧
      fs.named (restoreDirectoryTree c (Session.start d)).state.disk Name = some o :=
  ((reading_untouched.along_restoreDirectoryTree fun _ => restoreObject_untouched disk).outcome
    unopened).1.keeps spares ⟨rfl, named⟩

end Run

end StrArc
