import LtrData.StrArc.Backup

namespace StrArc

open Traced

variable {F : Type} {c : BackupConfig F} {s : BackupSession F}

/-- A run of a backup, none of which raises an exception. -/
abbrev Backs {α : Type} (P : BackupSession F → List (Backed F) → BackupSession F → Prop)
    (x : Backup F α) (s : BackupSession F) (Q : List (Backed F) → α → BackupSession F → Prop) : Prop :=
  Along (fun _ => True) P (fun _ => False) x s Q

theorem question_run {α : Type} (answer : Nat → α) (s : BackupSession F) :
    question answer s = .ok [] (answer s.questions) { s with questions := s.questions + 1 } := rfl

theorem pathAt_run (Length : Nat) (s : BackupSession F) :
    pathAt Length s = .ok [] (s.FullPath.read 0 Length) s := rfl

theorem informationOf_run (id : F) (s : BackupSession F) :
    informationOf id s = .ok [] (s.disk id) s := rfl

theorem writeArchive_run (data : List BYTE) (s : BackupSession F) :
    writeArchive data s = .ok [] () { s with archive := s.archive ++ data } := rfl

theorem countBackup_run (s : BackupSession F) :
    countBackup s = .ok [] () { s with FileCounter := s.FileCounter + 1 } := rfl

theorem copyToPath_run (Path : UnicodeString) (s : BackupSession F) :
    copyToPath Path s = .ok [] () { s with FullPath := s.FullPath.write 0 (Path ++ [0]) } := rfl

theorem appendToPath_run {Length : Nat} {source : UnicodeString}
    (fits : 2 * (Length + source.length) ≤ fullPathMaximum) (s : BackupSession F) :
    appendToPath Length source s = .ok [] (some (Length + source.length))
      { s with FullPath := s.FullPath.write Length (source ++ [0]) } := if_pos fits

theorem appendToPath_run_long {Length : Nat} {source : UnicodeString}
    (long : ¬ 2 * (Length + source.length) ≤ fullPathMaximum) (s : BackupSession F) :
    appendToPath Length source s = .ok [] none s := if_neg long

theorem replacePath_run (Length : Nat) (s : BackupSession F) :
    replacePath Length s =
      .ok [] () { s with PathReplaced := s.PathReplaced || decide (Length = 0) } := rfl

theorem pathReplaced_run (s : BackupSession F) : pathReplaced s = .ok [] s.PathReplaced s := rfl

theorem archiveLength_run (s : BackupSession F) : archiveLength s = .ok [] s.archive.length s := rfl

theorem archiveSince_run (start : Nat) (s : BackupSession F) :
    archiveSince start s = .ok [] (s.archive.drop start) s := rfl

theorem questionsAsked_run (s : BackupSession F) : questionsAsked s = .ok [] s.questions s := rfl

theorem noteBacked_run (object : Backed F) (s : BackupSession F) :
    noteBacked object s = .ok [object] () s := rfl

/-- What MatchLink answers, and the tracker behind it. -/
def trackLink (items : Nat → List LinkTrackerItem) (info : ByHandleFileInformation)
    (File : UnicodeString) : Option UnicodeString × (Nat → List LinkTrackerItem) :=
  let slot := linkSlot (fileIndex info)
  match (items slot).find? (·.Match info.dwVolumeSerialNumber (fileIndex info)) with
  | some item => (some item.Name, items)
  | none => (none, fun slot' =>
      if slot' = slot then
        ⟨info.dwVolumeSerialNumber, trackedNumber (fileIndex info), File⟩ :: items slot
      else items slot')

theorem matchLink_run (info : ByHandleFileInformation) (File : UnicodeString) (s : BackupSession F) :
    matchLink info.dwVolumeSerialNumber (fileIndex info) File s =
      .ok [] (trackLink s.LinkTrackerItems info File).1
        { s with LinkTrackerItems := (trackLink s.LinkTrackerItems info File).2 } := by
  unfold matchLink trackLink
  dsimp only
  cases (s.LinkTrackerItems (linkSlot (fileIndex info))).find?
    (·.Match info.dwVolumeSerialNumber (fileIndex info)) with
  | some item => rfl
  | none => rfl

/-- The tracker is asked for files with several names only, and not at all without support for
    hard links. -/
def link (c : BackupConfig F) (items : Nat → List LinkTrackerItem) (info : ByHandleFileInformation)
    (File : UnicodeString) : Option UnicodeString × (Nat → List LinkTrackerItem) :=
  if tracked c info then trackLink items info File else (none, items)

theorem matchedLink_run (c : BackupConfig F) (info : ByHandleFileInformation) (File : UnicodeString)
    (s : BackupSession F) :
    matchedLink c info File s = .ok [] (link c s.LinkTrackerItems info File).1
      { s with LinkTrackerItems := (link c s.LinkTrackerItems info File).2 } := by
  unfold matchedLink link
  split
  · exact matchLink_run info File s
  · rfl

def Backed.bytes (method : BackupMethods) (object : Backed F) : List BYTE :=
  encodeFileHeader object.File (storedInformation method object.FileInfo) object.ShortName ++
    match object.LinkName with
    | some LinkName => (linkHeader LinkName).encode ++ wcharBytes LinkName
    | none => object.data

/-- Reading the streams of a file adds to the archive and changes nothing else that matters. -/
structure ReadTo (s : BackupSession F) (data : List BYTE) (s' : BackupSession F) : Prop where
  archive : s'.archive = s.archive ++ data
  path : s'.FullPath = s.FullPath
  replaced : s'.PathReplaced = s.PathReplaced
  items : s'.LinkTrackerItems = s.LinkTrackerItems
  disk : s'.disk = s.disk

/-- Reading goes on to the end, as no question whether to cancel it is answered with yes. -/
def Uncancelled (c : BackupConfig F) (asked count : Nat) : Prop :=
  ∀ k, k ≤ count → c.bCancel (asked + k) = false

theorem uncancelled_succ {asked count : Nat} :
    Uncancelled c asked (count + 1) ↔ c.bCancel asked = false ∧ Uncancelled c (asked + 1) count := by
  constructor
  · intro all
    refine ⟨all 0 (Nat.zero_le _), fun k within => ?_⟩
    rw [Nat.add_right_comm]
    exact all (k + 1) (Nat.succ_le_succ within)
  · rintro ⟨first, rest⟩ k within
    cases k with
    | zero => exact first
    | succ k =>
      rw [← Nat.add_assoc, Nat.add_right_comm]
      exact rest k (Nat.le_of_succ_le_succ within)

theorem readStreamsLoop_reads (c : BackupConfig F) (fails : Bool) (blocks : List (List BYTE)) :
    Ensures (readStreamsLoop c fails blocks) s (fun t result s' => t = [] ∧
      ∃ n, ReadTo s (blocks.take n).flatten s' ∧
        (result = true ↔ fails = false ∧ Uncancelled c s.questions blocks.length) ∧
        (Uncancelled c s.questions blocks.length → blocks.length ≤ n)) fun _ _ _ => False := by
  induction blocks generalizing s with
  | nil =>
    unfold readStreamsLoop
    apply ensures_bind_ok (question_run c.bCancel s)
    split
    · next cancelled =>
      have stops : ¬ Uncancelled c s.questions 0 := fun all =>
        Bool.false_ne_true ((all 0 (Nat.le_refl _)).symm.trans cancelled)
      exact ensures_pure ⟨rfl, 0, ⟨by simp, rfl, rfl, rfl, rfl⟩,
        ⟨fun absurd => (by cases absurd), fun both => absurd both.2 stops⟩, fun _ => Nat.le_refl _⟩
    · next going =>
      have going : Uncancelled c s.questions 0 := fun k within => by
        obtain rfl := Nat.le_zero.mp within
        exact Bool.eq_false_iff.mpr going
      split
      · next failed =>
        refine ensures_pure ⟨rfl, 0, ⟨by simp, rfl, rfl, rfl, rfl⟩,
          ⟨fun absurd => (by cases absurd), fun both => ?_⟩, fun _ => Nat.le_refl _⟩
        exact absurd (both.1.symm.trans failed) Bool.false_ne_true
      · next ended =>
        apply ensures_bind_ok (countBackup_run _)
        exact ensures_pure ⟨rfl, 0, ⟨by simp, rfl, rfl, rfl, rfl⟩,
          ⟨fun _ => ⟨Bool.eq_false_iff.mpr ended, going⟩, fun _ => rfl⟩, fun _ => Nat.le_refl _⟩
  | cons block rest ih =>
    unfold readStreamsLoop
    apply ensures_bind_ok (question_run c.bCancel s)
    rw [List.length_cons, uncancelled_succ]
    split
    · next cancelled =>
      have stops : ¬ c.bCancel s.questions = false := by
        rw [cancelled]
        exact Bool.false_ne_true.symm
      exact ensures_pure ⟨rfl, 0, ⟨by simp, rfl, rfl, rfl, rfl⟩,
        ⟨fun absurd => (by cases absurd), fun all => absurd all.2.1 stops⟩,
        fun all => absurd all.1 stops⟩
    · next going =>
      have going : c.bCancel s.questions = false := Bool.eq_false_iff.mpr going
      apply ensures_bind_ok (writeArchive_run block _)
      apply ih.mono
      · intro t result s' facts
        rcases facts with ⟨rfl, n, reads, complete, all⟩
        refine ⟨rfl, n + 1, ⟨?_, reads.path, reads.replaced, reads.items, reads.disk⟩, ?_, fun quiet => ?_⟩
        · rw [reads.archive]
          simp
        · rw [complete]
          exact ⟨fun both => ⟨both.1, going, both.2⟩, fun both => ⟨both.1, both.2.2⟩⟩
        · exact Nat.succ_le_succ (all quiet.2)
      · exact fun _ _ _ h => h

/-- BackupRead delivers everything, and nobody cancels. -/
structure ReadsThrough (c : BackupConfig F) (id : F) (asked : Nat) : Prop where
  ends : (c.reads id asked).fails = false
  uncancelled : Uncancelled c (asked + 1) (c.reads id asked).blocks.length

/-- Behind the header of an object that is no link stands what BackupRead has delivered. -/
structure Backed.Read (c : BackupConfig F) (object : Backed F) : Prop where
  data : ∃ n, object.data = ((c.reads object.id object.asked).blocks.take n).flatten ∧
    (Uncancelled c (object.asked + 1) (c.reads object.id object.asked).blocks.length →
      (c.reads object.id object.asked).blocks.length ≤ n)
  result : object.result = true ↔ ReadsThrough c object.id object.asked

theorem Backed.Read.all {object : Backed F} (read : object.Read c)
    (through : ReadsThrough c object.id object.asked) :
    object.data = (c.reads object.id object.asked).blocks.flatten := by
  obtain ⟨n, data, all⟩ := read.data
  rw [data, List.take_of_length_le (all through.uncancelled)]

variable [DecidableEq F]

theorem setDisk_run (id : F) (info : ByHandleFileInformation) (s : BackupSession F) :
    setDisk id info s = .ok [] () { s with disk := fun id' => if id' = id then info else s.disk id' } :=
  rfl

/-- The disk with the archive attribute of a file reset. -/
def resetDisk (disk : F → ByHandleFileInformation) (id : F) (file_info : ByHandleFileInformation) :
    F → ByHandleFileInformation := fun id' =>
  if id' = id then
    setFileAttributes (disk id) (file_info.dwFileAttributes &&& ~~~fileAttributeArchive)
  else disk id'

/-- Whether the archive attribute is reset behind the streams of a file. -/
def resetsAfter (c : BackupConfig F) (file_info : ByHandleFileInformation) (bResult : Bool) : Prop :=
  bResult ∧ clears c.options.BackupMethod ∧
    hasAttribute file_info.dwFileAttributes fileAttributeArchive

theorem resetArchiveAttribute_resets (id : F) (file_info : ByHandleFileInformation) (bResult : Bool) :
    Ensures (resetArchiveAttribute c id file_info bResult) s (fun t _ s' => t = [] ∧
      s'.archive = s.archive ∧ s'.FullPath = s.FullPath ∧ s'.PathReplaced = s.PathReplaced ∧
      s'.LinkTrackerItems = s.LinkTrackerItems ∧
      (s'.disk = s.disk ∨
        resetsAfter c file_info bResult ∧ s'.disk = resetDisk s.disk id file_info) ∧
      ((∀ n, c.resets n = true) → resetsAfter c file_info bResult →
        s'.disk = resetDisk s.disk id file_info)) fun _ _ _ => False := by
  unfold resetArchiveAttribute
  split
  · next resets =>
    apply ensures_bind_ok (question_run c.resets s)
    split
    · apply ensures_bind_ok (informationOf_run id _)
      exact (ensures_of_ok (setDisk_run _ _ _)).mpr
        ⟨rfl, rfl, rfl, rfl, rfl, .inr ⟨resets, rfl⟩, fun _ _ => rfl⟩
    · next failed =>
      exact ensures_pure ⟨rfl, rfl, rfl, rfl, rfl, .inl rfl,
        fun succeed => absurd (succeed _) failed⟩
  · next stays =>
    exact ensures_pure ⟨rfl, rfl, rfl, rfl, rfl, .inl rfl, fun _ resets => absurd resets stays⟩

/-- One object archived. -/
structure Archives (c : BackupConfig F) (id : F) (File : UnicodeString)
    (file_info : ByHandleFileInformation) (ShortName : UnicodeString) (s : BackupSession F)
    (object : Backed F) (s' : BackupSession F) : Prop where
  sameId : object.id = id
  sameFile : object.File = File
  sameInfo : object.FileInfo = file_info
  sameShortName : object.ShortName = ShortName
  link : object.LinkName = (StrArc.link c s.LinkTrackerItems file_info File).1
  items : s'.LinkTrackerItems = (StrArc.link c s.LinkTrackerItems file_info File).2
  archive : s'.archive = s.archive ++ object.bytes c.options.BackupMethod
  path : s'.FullPath = s.FullPath
  replaced : s'.PathReplaced = s.PathReplaced
  streams : object.LinkName = none → ∃ n,
    object.data = ((c.reads id object.asked).blocks.take n).flatten ∧
    (Uncancelled c (object.asked + 1) (c.reads id object.asked).blocks.length →
      (c.reads id object.asked).blocks.length ≤ n)
  complete : object.LinkName = none → (object.result = true ↔ ReadsThrough c id object.asked)
  linked : object.LinkName ≠ none → object.result = true ∧ s'.disk = s.disk
  disk : s'.disk = s.disk ∨
    resetsAfter c file_info object.result ∧ s'.disk = resetDisk s.disk id file_info
  resets : (∀ n, c.resets n = true) → object.LinkName = none →
    resetsAfter c file_info object.result → s'.disk = resetDisk s.disk id file_info

theorem archiveFile_archives (id : F) (File : UnicodeString) (file_info : ByHandleFileInformation)
    (ShortName : UnicodeString) :
    Ensures (archiveFile c id File file_info ShortName) s (fun t result s' =>
      ∃ object, t = [object] ∧ object.result = result ∧
        Archives c id File file_info ShortName s object s') fun _ _ _ => False := by
  unfold archiveFile
  apply ensures_bind_ok (writeArchive_run _ s)
  apply ensures_bind_ok (questionsAsked_run _)
  apply ensures_bind_ok (matchedLink_run c file_info File _)
  dsimp only
  split
  · next LinkName linked =>
    apply ensures_bind_ok (writeArchive_run _ _)
    apply ensures_bind_ok (writeArchive_run _ _)
    apply ensures_bind_ok (countBackup_run _)
    apply ensures_bind_ok (noteBacked_run _ _)
    refine ensures_pure ⟨_, rfl, rfl, rfl, rfl, rfl, rfl, linked.symm, rfl, ?_, rfl, rfl,
      fun absurd => (by cases absurd), fun absurd => (by cases absurd), fun _ => ⟨rfl, rfl⟩, .inl rfl,
      fun _ absurd => (by cases absurd)⟩
    simp [Backed.bytes]
  · next linked =>
    apply ensures_bind_ok (archiveLength_run _)
    unfold readFileStreamsToArchive
    apply ensures_bind
    apply ensures_bind_ok (question_run _ _)
    apply (readStreamsLoop_reads c _ _).mono
    · intro _ result s₁ facts
      rcases facts with ⟨rfl, n, reads, complete, all⟩
      apply ensures_bind_ok (archiveSince_run _ s₁)
      apply ensures_bind_ok (noteBacked_run _ s₁)
      apply ensures_bind
      apply (resetArchiveAttribute_resets id file_info result).mono
      · intro _ _ s₂ facts
        rcases facts with ⟨rfl, archive, path, replaced, items, disk, resets⟩
        have data : s₁.archive.drop (s.archive ++ encodeFileHeader File
            (storedInformation c.options.BackupMethod file_info) ShortName).length =
            ((c.reads id s.questions).blocks.take n).flatten := by
          rw [reads.archive]
          exact List.drop_left
        refine ensures_pure ⟨_, rfl, rfl, rfl, rfl, rfl, rfl, linked.symm, ?_, ?_, ?_, ?_, ?_, ?_,
          fun absurd => (absurd rfl).elim, ?_, ?_⟩
        · rw [items, reads.items]
        · dsimp only [Backed.bytes]
          rw [data, archive, reads.archive, List.append_assoc]
        · rw [path, reads.path]
        · rw [replaced, reads.replaced]
        · exact fun _ => ⟨n, data, all⟩
        · exact fun _ => complete.trans ⟨fun both => ⟨both.1, both.2⟩, fun both => ⟨both.1, both.2⟩⟩
        · rw [reads.disk] at disk
          exact disk
        · intro succeed _ after
          have reset := resets succeed after
          rw [reads.disk] at reset
          exact reset
      · exact fun _ _ _ h => h
    · exact fun _ _ _ h => h

/-- A relation between the states of a backup that all of its steps keep to. -/
structure Saving (c : BackupConfig F)
    (P : BackupSession F → List (Backed F) → BackupSession F → Prop) : Prop where
  composes : Composes P
  silent : ∀ {s s'}, s'.archive = s.archive → s'.LinkTrackerItems = s.LinkTrackerItems →
    s'.disk = s.disk → P s [] s'
  object : ∀ {id File file_info ShortName s object s'},
    Archives c id File file_info ShortName s object s' → P s [object] s'

section Saving

variable {P : BackupSession F → List (Backed F) → BackupSession F → Prop}

theorem Saving.pure {α : Type} (saving : Saving c P) {a : α}
    {Q : List (Backed F) → α → BackupSession F → Prop} (h : Q [] a s) :
    Backs P (pure a : Backup F α) s Q := along_pure saving.composes h

theorem Saving.question {α β : Type} (saving : Saving c P) (answer : Nat → α) {f : α → Backup F β}
    {Q : List (Backed F) → β → BackupSession F → Prop}
    (next : ∀ a s', Backs P (f a) s' Q) : Backs P (question answer >>= f) s Q :=
  along_bind_ok saving.composes (question_run answer s) (saving.silent rfl rfl rfl) (next _ _)

theorem Saving.bind {α β : Type} (saving : Saving c P) {x : Backup F α} {f : α → Backup F β}
    (first : Backs P x s fun _ _ _ => True) (next : ∀ a s', Backs P (f a) s' fun _ _ _ => True) :
    Backs P (x >>= f) s fun _ _ _ => True :=
  along_bind saving.composes first fun _ a s' _ _ => next a s'

theorem Saving.appendToPath (saving : Saving c P) (Length : Nat) (source : UnicodeString) :
    Backs P (appendToPath Length source) s fun _ _ _ => True := by
  by_cases fits : 2 * (Length + source.length) ≤ fullPathMaximum
  · apply along_of_ok (appendToPath_run fits s)
    exact fun _ => ⟨saving.silent rfl rfl rfl, trivial⟩
  · apply along_of_ok (appendToPath_run_long fits s)
    exact fun _ => ⟨saving.silent rfl rfl rfl, trivial⟩

theorem Saving.archiveFile (saving : Saving c P) (id : F) (File : UnicodeString)
    (file_info : ByHandleFileInformation) (ShortName : UnicodeString) :
    Backs P (archiveFile c id File file_info ShortName) s fun _ _ _ => True := by
  apply (archiveFile_archives id File file_info ShortName).mono
  · rintro _ result s' ⟨object, rfl, -, archives⟩ _
    exact ⟨saving.object archives, trivial⟩
  · exact fun _ _ _ absurd => absurd.elim

theorem Saving.openObject (saving : Saving c P) (id : F) (Length : Nat) :
    Backs P (openObject c id Length) s fun _ _ _ => True := by
  unfold StrArc.openObject
  apply along_bind_ok saving.composes (pathAt_run Length s) (saving.silent rfl rfl rfl)
  apply saving.question
  intro opened s₁
  split
  · apply saving.question
    intro informed s₂
    split
    · apply along_bind_ok saving.composes (informationOf_run id s₂) (saving.silent rfl rfl rfl)
      split
      · exact saving.pure trivial
      · exact saving.pure trivial
    · exact saving.pure trivial
  · exact saving.pure trivial

theorem Saving.finishObject (saving : Saving c P) (id : F) (file_info : ByHandleFileInformation)
    (bIncludeThis : Bool) (Length : Nat) (ShortName : Option UnicodeString) :
    Backs P (finishObject c id file_info bIncludeThis Length ShortName) s fun _ _ _ => True := by
  unfold StrArc.finishObject
  apply saving.question
  intro cancelled s₁
  split
  · exact saving.pure trivial
  split
  · exact saving.pure trivial
  apply along_bind_ok saving.composes (replacePath_run Length s₁) (saving.silent rfl rfl rfl)
  split
  · exact saving.pure trivial
  split
  · apply along_bind_ok saving.composes (countBackup_run _) (saving.silent rfl rfl rfl)
    exact saving.pure trivial
  · apply saving.bind
    · unfold headerName
      split
      · exact saving.pure trivial
      · exact along_of_ok (pathAt_run Length _) fun _ => ⟨saving.silent rfl rfl rfl, trivial⟩
    · intro File s₂
      apply saving.bind
      · unfold headerShortName
        split
        · exact saving.pure trivial
        · exact along_of_ok (question_run _ s₂) fun _ => ⟨saving.silent rfl rfl rfl, trivial⟩
      · intro ShortName s₃
        exact saving.archiveFile id File file_info ShortName

theorem Saving.basePath (saving : Saving c P) (Length : Nat) :
    Backs P (basePath Length) s fun _ _ _ => True := by
  unfold StrArc.basePath
  apply along_bind_ok saving.composes (pathAt_run Length s) (saving.silent rfl rfl rfl)
  split
  · exact saving.pure trivial
  · exact saving.appendToPath Length _

mutual

theorem Saving.backupFile (saving : Saving c P) : ∀ (node : Node F) (Length : Nat)
    (ShortName : Option UnicodeString) (bTraverseDirectories : Bool) (s : BackupSession F),
    Backs P (backupFile c node Length ShortName bTraverseDirectories) s fun _ _ _ => True
  | .mk id entries, Length, ShortName, bTraverseDirectories, s => by
    unfold StrArc.backupFile
    apply saving.bind (saving.openObject id Length)
    intro opened s₁
    cases opened with
    | left result => exact saving.pure trivial
    | found file_info bIncludeThis =>
      apply saving.bind
      · unfold traverseIf
        split
        · apply saving.bind (saving.basePath Length)
          intro base s₂
          cases base with
          | some base => exact saving.directoryLoop entries base s₂
          | none => exact saving.pure trivial
        · exact saving.pure trivial
      · intro _ s₂
        exact saving.finishObject id file_info bIncludeThis Length ShortName

theorem Saving.directoryLoop (saving : Saving c P) : ∀ (entries : Entries F) (base : Nat)
    (s : BackupSession F), Backs P (directoryLoop c entries base) s fun _ _ _ => True
  | .nil, base, s => by
    unfold StrArc.directoryLoop
    exact saving.pure trivial
  | .cons FileName ShortName node rest, base, s => by
    unfold StrArc.directoryLoop
    split
    · exact saving.directoryLoop rest base s
    · apply saving.question
      intro cancelled s₁
      split
      · exact saving.pure trivial
      · apply saving.bind
        · unfold entryPath
          split
          · exact saving.pure trivial
          · exact saving.appendToPath base FileName
        · intro Length s₂
          cases Length with
          | none => exact saving.directoryLoop rest base s₂
          | some Length =>
            apply saving.bind (saving.backupFile node Length _ true s₂)
            intro _ s₃
            exact saving.directoryLoop rest base s₃

end

theorem Saving.backupPath (saving : Saving c P) (Path : UnicodeString) (node : Node F)
    (bTraverseDirectories : Bool) :
    Backs P (backupPath c Path node bTraverseDirectories) s fun _ _ _ => True := by
  unfold StrArc.backupPath
  apply along_bind_ok saving.composes (pathReplaced_run s) (saving.silent rfl rfl rfl)
  split
  · exact saving.pure trivial
  · apply along_bind_ok saving.composes (copyToPath_run Path s) (saving.silent rfl rfl rfl)
    exact saving.backupFile node Path.length none bTraverseDirectories _

theorem Saving.backupFiles (saving : Saving c P) (roots : List (UnicodeString × Node F)) :
    Backs P (backupFiles c roots) s fun _ _ _ => True := by
  induction roots generalizing s with
  | nil => exact saving.pure trivial
  | cons root rest ih =>
    unfold StrArc.backupFiles
    apply saving.question
    intro cancelled s₁
    split
    · exact saving.pure trivial
    · apply saving.bind (saving.backupPath root.1 root.2 true)
      intro _ s₂
      exact ih

theorem Saving.backupFiles_run (saving : Saving c P) (roots : List (UnicodeString × Node F))
    (s : BackupSession F) : P s (StrArc.backupFiles c roots s).events
      (StrArc.backupFiles c roots s).state :=
  ((saving.backupFiles roots).outcome fun _ _ => trivial).1

/-- The archive grows by the objects of the history. -/
def Appends (c : BackupConfig F) (s : BackupSession F) (t : List (Backed F)) (s' : BackupSession F) :
    Prop := s'.archive = s.archive ++ t.flatMap (Backed.bytes c.options.BackupMethod)

theorem saving_appends (c : BackupConfig F) : Saving c (Appends c) where
  composes := by
    refine ⟨fun s => by simp [Appends], fun {s s' s'' t t'} first second => ?_⟩
    unfold Appends at first second ⊢
    rw [second, first, List.flatMap_append, List.append_assoc]
  silent := by
    intro s s' archive _ _
    simp [Appends, archive]
  object archives := by
    unfold Appends
    rw [archives.archive, List.flatMap_singleton]

def ReadAll (c : BackupConfig F) (_ : BackupSession F) (t : List (Backed F)) (_ : BackupSession F) :
    Prop := ∀ object ∈ t, object.LinkName = none → object.Read c

theorem saving_readAll (c : BackupConfig F) : Saving c (ReadAll c) where
  composes := by
    refine ⟨fun s object absurd => (by cases absurd), fun {s s' s'' t t'} first second => ?_⟩
    intro object mem
    rcases List.mem_append.mp mem with mem | mem
    · exact first object mem
    · exact second object mem
  silent := fun _ _ _ _ absurd => (by cases absurd)
  object archives := by
    intro object mem unlinked
    obtain rfl := List.mem_singleton.mp mem
    have streams := archives.streams unlinked
    have complete := archives.complete unlinked
    rw [← archives.sameId] at streams complete
    exact ⟨streams, complete⟩

theorem backupFiles_archive (c : BackupConfig F) (roots : List (UnicodeString × Node F))
    (disk : F → ByHandleFileInformation) :
    (StrArc.backupFiles c roots (.start disk)).state.archive =
      (StrArc.backupFiles c roots (.start disk)).events.flatMap
        (Backed.bytes c.options.BackupMethod) :=
  (saving_appends c).backupFiles_run roots (.start disk)

end Saving

end StrArc
