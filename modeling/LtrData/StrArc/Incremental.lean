import Mathlib.Data.List.TakeWhile
import LtrData.StrArc.Links
import LtrData.StrArc.PathNames

namespace StrArc

open Traced

variable {F : Type} {c : BackupConfig F} {disk : F → ByHandleFileInformation}

def changed (file_info : ByHandleFileInformation) : Bool :=
  hasAttribute file_info.dwFileAttributes fileAttributeArchive

/-- Two files that the tracker is asked for and takes for one. -/
def SameRecord (c : BackupConfig F) (info info' : ByHandleFileInformation) : Prop :=
  tracked c info = true ∧ tracked c info' = true ∧
    info.dwVolumeSerialNumber = info'.dwVolumeSerialNumber ∧
    trackedNumber (fileIndex info) = trackedNumber (fileIndex info')

def Met (visits : List (Visit F)) (id : F) : Prop := ∃ visit ∈ visits, visit.id = id

/-- A changed file has been visited that the tracker takes for this one. -/
def Known (c : BackupConfig F) (disk : F → ByHandleFileInformation) (visits : List (Visit F)) (id : F) :
    Prop := ∃ earlier ∈ visits, changed (disk earlier.id) = true ∧
      SameRecord c (disk earlier.id) (disk id)

/-- The visits that had ended when this one began. -/
def Visit.opened (visit : Visit F) (before : List (Visit F)) : List (Visit F) :=
  before.take (before.length - visit.inside)

theorem met_append {visits others : List (Visit F)} {id : F} :
    Met (visits ++ others) id ↔ Met visits id ∨ Met others id := by
  simp [Met, or_and_right, exists_or]

theorem Known.append {visits : List (Visit F)} {id : F} (known : Known c disk visits id)
    (others : List (Visit F)) : Known c disk (visits ++ others) id := by
  obtain ⟨earlier, mem, rest⟩ := known
  exact ⟨earlier, List.mem_append_left _ mem, rest⟩

variable [DecidableEq F]

/-- At the first visit of this file it was known, so that all of its names become links. -/
def Shadowed (c : BackupConfig F) (disk : F → ByHandleFileInformation) (visits : List (Visit F))
    (id : F) : Prop := Known c disk (visits.takeWhile fun visit => visit.id ≠ id) id

/-- The archive attribute of the file has not been reset at these visits. -/
def Unreset (c : BackupConfig F) (disk : F → ByHandleFileInformation) (visits : List (Visit F))
    (id : F) : Prop := Met visits id → Shadowed c disk visits id

/-- A visit of a changed file that begins with its archive attribute still set. -/
def Writes (c : BackupConfig F) (disk : F → ByHandleFileInformation) (before : List (Visit F))
    (visit : Visit F) : Prop :=
  changed (disk visit.id) = true ∧ Unreset c disk (visit.opened before) visit.id

/-- The name of the object is in the archive. -/
def Written (c : BackupConfig F) (disk : F → ByHandleFileInformation) (visits : List (Visit F))
    (id : F) (File : UnicodeString) : Prop :=
  ∃ before visit after, visits = before ++ visit :: after ∧ Writes c disk before visit ∧
    visit.id = id ∧ visit.File = File

theorem Shadowed.known {visits : List (Visit F)} {id : F} (shadowed : Shadowed c disk visits id) :
    Known c disk visits id := by
  obtain ⟨earlier, mem, rest⟩ := shadowed
  exact ⟨earlier, (List.takeWhile_prefix _).subset mem, rest⟩

theorem shadowed_append {visits : List (Visit F)} {id : F} (visited : Met visits id)
    (others : List (Visit F)) :
    Shadowed c disk (visits ++ others) id ↔ Shadowed c disk visits id := by
  have same : (visits ++ others).takeWhile (fun visit => visit.id ≠ id) =
      visits.takeWhile fun visit => visit.id ≠ id := by
    obtain ⟨visit, mem, is⟩ := visited
    obtain ⟨before, after, rfl⟩ := List.append_of_mem mem
    induction before with
    | nil => simp [is]
    | cons first before ih =>
      have rest := ih (List.mem_append_right _ List.mem_cons_self)
      simp only [List.cons_append, List.takeWhile_cons]
      rw [rest]
  unfold Shadowed
  rw [same]

theorem shadowed_first {visits : List (Visit F)} {id : F} (unvisited : ¬ Met visits id)
    {visit : Visit F} (is : visit.id = id) :
    Shadowed c disk (visits ++ [visit]) id ↔ Known c disk visits id := by
  have first : (visits ++ [visit]).takeWhile (fun visit => visit.id ≠ id) = visits := by
    have others : ∀ other ∈ visits, decide (other.id ≠ id) = true :=
      fun other mem => decide_eq_true fun same => unvisited ⟨other, mem, same⟩
    rw [List.takeWhile_append_of_pos others]
    simp [is]
  unfold Shadowed
  rw [first]

theorem unreset_append {visits : List (Visit F)} {visit : Visit F} {id : F}
    (before : visit.id = id → Met visits id) :
    Unreset c disk (visits ++ [visit]) id ↔ Unreset c disk visits id := by
  unfold Unreset
  by_cases visited : Met visits id
  · rw [shadowed_append visited, met_append]
    simp [visited]
  · have unvisited : ¬ Met (visits ++ [visit]) id := by
      rw [met_append]
      rintro (absurd | ⟨other, mem, is⟩)
      · exact visited absurd
      · rw [List.mem_singleton.mp mem] at is
        exact visited (before is)
    exact ⟨fun _ absurd => (visited absurd).elim, fun _ absurd => (unvisited absurd).elim⟩

theorem unreset_first {visits : List (Visit F)} {visit : Visit F} {id : F} (is : visit.id = id)
    (unvisited : ¬ Met visits id) :
    Unreset c disk (visits ++ [visit]) id ↔ Known c disk visits id := by
  have visited : Met (visits ++ [visit]) id := ⟨visit, by simp, is⟩
  rw [← shadowed_first unvisited is]
  exact ⟨fun unreset => unreset visited, fun shadowed _ => shadowed⟩

theorem Met.first {visits : List (Visit F)} {id : F} (visited : Met visits id) :
    ∃ before visit after, visits = before ++ visit :: after ∧ visit.id = id ∧ ¬ Met before id := by
  cases found : visits.find? (fun visit => visit.id = id) with
  | none =>
    obtain ⟨visit, mem, is⟩ := visited
    exact absurd (decide_eq_true is) (List.find?_eq_none.mp found visit mem)
  | some visit =>
    obtain ⟨is, before, after, cut, others⟩ := List.find?_eq_some_iff_append.mp found
    refine ⟨before, visit, after, cut, of_decide_eq_true is, ?_⟩
    intro facts
    rcases facts with ⟨other, mem, same⟩
    simpa [same] using others other mem

theorem exists_cut {α : Type} {P : List α → α → Prop} {list : List α} {last : α} :
    (∃ before x after, list ++ [last] = before ++ x :: after ∧ P before x) ↔
      (∃ before x after, list = before ++ x :: after ∧ P before x) ∨ P list last := by
  constructor
  · intro facts
    rcases facts with ⟨before, x, after, cut, holds⟩
    rcases List.eq_nil_or_concat' after with rfl | ⟨after, other, rfl⟩
    · obtain ⟨rfl, same⟩ := List.append_inj' cut rfl
      cases same
      exact .inr holds
    · rw [← List.cons_append, ← List.append_assoc] at cut
      obtain ⟨rfl, -⟩ := List.append_inj' cut rfl
      exact .inl ⟨before, x, after, rfl, holds⟩
  · rintro (⟨before, x, after, rfl, holds⟩ | holds)
    · exact ⟨before, x, after ++ [last], by simp, holds⟩
    · exact ⟨list, last, [], rfl, holds⟩

theorem written_append {visits : List (Visit F)} {visit : Visit F} {id : F} {File : UnicodeString} :
    Written c disk (visits ++ [visit]) id File ↔ Written c disk visits id File ∨
      Writes c disk visits visit ∧ visit.id = id ∧ visit.File = File :=
  exists_cut (P := fun before visit => Writes c disk before visit ∧ visit.id = id ∧ visit.File = File)

theorem Writes.changed {before : List (Visit F)} {visit : Visit F}
    (writes : Writes c disk before visit) : changed (disk visit.id) = true := writes.1

theorem Written.visited {visits : List (Visit F)} {id : F} {File : UnicodeString}
    (written : Written c disk visits id File) :
    Met visits id ∧ StrArc.changed (disk id) = true := by
  obtain ⟨before, visit, after, rfl, writes, rfl, -⟩ := written
  exact ⟨⟨visit, by simp, rfl⟩, writes.changed⟩

theorem Met.written {visits : List (Visit F)} {id : F} (visited : Met visits id)
    (changes : changed (disk id) = true) : ∃ File, Written c disk visits id File := by
  obtain ⟨before, visit, after, cut, rfl, unvisited⟩ := visited.first
  refine ⟨visit.File, before, visit, after, cut, ⟨changes, fun visited => ?_⟩, rfl, rfl⟩
  obtain ⟨other, mem, same⟩ := visited
  exact absurd ⟨other, List.mem_of_mem_take mem, same⟩ unvisited

/-- Files differ from what they were at the start in their attributes only. -/
def SameButAttributes (info info' : ByHandleFileInformation) : Prop :=
  ∃ attributes, info' = { info with dwFileAttributes := attributes }

/-- How far a backup has come with these visits behind it. -/
structure Progress (c : BackupConfig F) (disk : F → ByHandleFileInformation)
    (visits : List (Visit F)) (history : List (Backed F)) (s : BackupSession F) : Prop where
  info : ∀ id, SameButAttributes (disk id) (s.disk id)
  archiveBit : ∀ id, changed (s.disk id) = true ↔
    changed (disk id) = true ∧ Unreset c disk visits id
  tracks : Tracks c history s.LinkTrackerItems
  recorded : ∀ object ∈ history, SameButAttributes (disk object.id) object.FileInfo
  written : ∀ id File,
    (∃ object ∈ history, object.id = id ∧ object.File = File) ↔ Written c disk visits id File

omit [DecidableEq F] in
theorem SameButAttributes.sameRecord {info info' : ByHandleFileInformation}
    (same : SameButAttributes info info') {other other' : ByHandleFileInformation}
    (same' : SameButAttributes other other') :
    SameRecord c info' other' ↔ SameRecord c info other := by
  obtain ⟨attributes, rfl⟩ := same
  obtain ⟨attributes', rfl⟩ := same'
  rfl

theorem changed_reset (info : ByHandleFileInformation) (attributes : DWORD) :
    changed (setFileAttributes info (attributes &&& ~~~fileAttributeArchive)) = false := by
  have outside : ~~~settableAttributes &&& fileAttributeArchive = 0 := by decide
  have reset : ~~~fileAttributeArchive &&& (settableAttributes &&& fileAttributeArchive) = 0 := by decide
  unfold changed hasAttribute setFileAttributes
  dsimp only
  rw [BitVec.and_or_distrib_right, BitVec.and_assoc, outside, BitVec.and_assoc, BitVec.and_assoc, reset]
  simp

/-- Nothing fails and nobody cancels. -/
structure Errorless (c : BackupConfig F) : Prop extends Unfailing c where
  resets : ∀ n, c.resets n = true
  reads : ∀ id n, (c.reads id n).fails = false

omit [DecidableEq F] in
theorem Errorless.readsThrough (errorless : Errorless c) (id : F) (asked : Nat) :
    ReadsThrough c id asked :=
  ⟨errorless.reads id asked, fun _ _ => errorless.uncancelled _⟩

omit [DecidableEq F] in
theorem opened_inside (visits inside : List (Visit F)) (id : F) (name File : UnicodeString) :
    Visit.opened ⟨id, name, File, inside.length⟩ (visits ++ inside) = visits := by
  simp [Visit.opened]

variable {visits inside : List (Visit F)} {history history' : List (Backed F)}
  {s s' : BackupSession F} {id : F} {name File : UnicodeString}

theorem Progress.skip (start : Progress c disk visits history s) (skips : skips c (s.disk id))
    (here : Progress c disk (visits ++ inside) history' s') :
    Progress c disk (visits ++ inside ++ [⟨id, name, File, inside.length⟩]) history' s' := by
  have reset : ¬ (changed (disk id) = true ∧ Unreset c disk visits id) := by
    rw [← start.archiveBit]
    exact Bool.eq_false_iff.mp skips.2
  refine ⟨here.info, fun other => ?_, here.tracks, here.recorded, fun other File' => ?_⟩
  · rw [here.archiveBit]
    refine and_congr_right fun changes => (unreset_append fun is => ?_).symm
    subst is
    by_contra unvisited
    rw [met_append] at unvisited
    exact reset ⟨changes, fun visited => absurd (.inl visited) unvisited⟩
  · rw [here.written, written_append]
    refine ⟨.inl, fun written => written.resolve_right fun last => ?_⟩
    have writes := last.1
    rw [Writes, opened_inside] at writes
    exact reset writes

theorem Progress.linked {ShortName : UnicodeString} {file_info : ByHandleFileInformation}
    {object : Backed F} (same : SameButAttributes (disk id) file_info)
    (here : Progress c disk visits history s)
    (archives : Archives c id File file_info ShortName s object s') :
    object.LinkName ≠ none ↔ Known c disk visits id := by
  obtain ⟨⟨links, -⟩, -⟩ := archives.links history here.tracks
  rw [← archives.sameInfo] at same
  constructor
  · intro linked
    obtain ⟨LinkName, linked⟩ := Option.ne_none_iff_exists'.mp linked
    obtain ⟨isTracked, u, mem, tracked, -, -, key⟩ := links.later LinkName linked
    obtain ⟨⟨earlier, mem', is⟩, changes⟩ := ((here.written _ _).mp ⟨u, mem, rfl, rfl⟩).visited
    rw [← is] at changes
    refine ⟨earlier, mem', changes, ?_⟩
    rw [is, ← (here.recorded u mem).sameRecord same]
    exact ⟨tracked, isTracked, key⟩
  · rintro ⟨earlier, mem, changes, record⟩ unlinked
    have visited : Met visits earlier.id := ⟨earlier, mem, rfl⟩
    obtain ⟨File', written⟩ := visited.written (c := c) changes
    obtain ⟨u, mem', is, -⟩ := (here.written _ _).mpr written
    rw [← is, ← (here.recorded u mem').sameRecord same] at record
    obtain ⟨tracked, isTracked, key⟩ := record
    exact links.first isTracked unlinked u mem' tracked key

theorem Progress.unreset_object (name : UnicodeString) {ShortName : UnicodeString}
    {object : Backed F} {s₁ : BackupSession F} (inc : c.options.BackupMethod = .inc)
    (errorless : Errorless c) (start : Progress c disk visits history s) (open_ : ¬ skips c (s.disk id))
    (here : Progress c disk (visits ++ inside) history' s₁)
    (archives : Archives c id File (s.disk id) ShortName s₁ object s') :
    (∀ other, SameButAttributes (disk other) (s'.disk other)) ∧
      ∀ other, changed (s'.disk other) = true ↔ changed (disk other) = true ∧
        Unreset c disk (visits ++ inside ++ [⟨id, name, File, inside.length⟩]) other := by
  have changes : changed (s.disk id) = true := by
    rw [← Bool.not_eq_false]
    exact fun same => open_ ⟨by rw [inc]; rfl, same⟩
  have linked := here.linked (start.info id) archives
  by_cases unlinked : object.LinkName = none
  · have result : object.result = true := (archives.complete unlinked).mpr (errorless.readsThrough _ _)
    have reset := archives.resets errorless.resets unlinked ⟨result, by rw [inc]; rfl, changes⟩
    have unknown : ¬ Known c disk (visits ++ inside) id := fun known => linked.mpr known unlinked
    rw [reset]
    unfold resetDisk
    refine ⟨fun other => ?_, fun other => ?_⟩
    · split
      · next is =>
        rw [is]
        obtain ⟨attributes, same⟩ := here.info id
        rw [same]
        exact ⟨_, rfl⟩
      · exact here.info other
    · split
      · next is =>
        subst is
        rw [changed_reset]
        refine ⟨fun absurd => (by cases absurd), fun unreset => (unknown ?_).elim⟩
        by_cases visited : Met (visits ++ inside) other
        · exact ((unreset_append fun _ => visited).mp unreset.2 visited).known
        · exact (unreset_first rfl visited).mp unreset.2
      · next other_file =>
        rw [here.archiveBit, unreset_append fun is => absurd is.symm other_file]
  · rw [(archives.linked unlinked).2]
    refine ⟨here.info, fun other => ?_⟩
    rw [here.archiveBit]
    refine and_congr_right fun _ => ?_
    by_cases visited : id = other → Met (visits ++ inside) other
    · exact (unreset_append visited).symm
    · obtain ⟨is, unvisited⟩ := Classical.not_imp.mp visited
      subst is
      rw [unreset_first rfl unvisited]
      exact ⟨fun _ => linked.mp unlinked, fun _ visited => absurd visited unvisited⟩

theorem Progress.object {ShortName : UnicodeString} {object : Backed F} {s₁ : BackupSession F}
    (inc : c.options.BackupMethod = .inc) (errorless : Errorless c)
    (start : Progress c disk visits history s) (open_ : ¬ skips c (s.disk id))
    (here : Progress c disk (visits ++ inside) history' s₁)
    (archives : Archives c id File (s.disk id) ShortName s₁ object s') :
    Progress c disk (visits ++ inside ++ [⟨id, name, File, inside.length⟩]) (history' ++ [object])
      s' := by
  obtain ⟨info, archiveBit⟩ :=
    start.unreset_object name inc errorless open_ here archives
  obtain ⟨-, tracks⟩ := archives.links history' here.tracks
  have changes : changed (s.disk id) = true := by
    rw [← Bool.not_eq_false]
    exact fun same => open_ ⟨by rw [inc]; rfl, same⟩
  refine ⟨info, archiveBit, tracks, fun u mem => ?_, fun other File' => ?_⟩
  · rcases List.mem_append.mp mem with mem | mem
    · exact here.recorded u mem
    · rw [List.mem_singleton.mp mem, archives.sameId, archives.sameInfo]
      exact start.info id
  · have writes : Writes c disk (visits ++ inside) ⟨id, name, File, inside.length⟩ := by
      rw [Writes, opened_inside]
      exact (start.archiveBit id).mp changes
    rw [written_append, ← here.written]
    simp [or_and_right, exists_or, writes, archives.sameId, archives.sameFile]

theorem walking_progress (inc : c.options.BackupMethod = .inc) (errorless : Errorless c)
    (disk : F → ByHandleFileInformation) :
    Walking c fun s v t s' => ∀ visits history, Progress c disk visits history s →
      Progress c disk (visits ++ v) (history ++ t) s' where
  idle same items visits history progress := by
    rw [List.append_nil, List.append_nil]
    exact ⟨same ▸ progress.info, same ▸ progress.archiveBit, items ▸ progress.tracks,
      progress.recorded, progress.written⟩
  append first second visits history progress := by
    rw [← List.append_assoc, ← List.append_assoc]
    exact second _ _ (first visits history progress)
  skipped first skips visits history progress := by
    rw [← List.append_assoc]
    exact progress.skip skips (first visits history progress)
  object first open_ archives visits history progress := by
    rw [← List.append_assoc, ← List.append_assoc]
    exact progress.object inc errorless open_ (first visits history progress) archives

theorem Progress.start (c : BackupConfig F) (disk : F → ByHandleFileInformation) :
    Progress c disk [] [] (.start disk) where
  info id := ⟨(disk id).dwFileAttributes, rfl⟩
  archiveBit id := by simp [BackupSession.start, Unreset, Met]
  tracks := ⟨fun _ _ absurd => (by cases absurd), fun _ absurd => (by cases absurd)⟩
  recorded := fun _ absurd => (by cases absurd)
  written id File := by simp [Written]

/-- Every name a changed file is included under has a header in the archive, with all of its streams
    or as a link. -/
def MissesNone (c : BackupConfig F) (disk : F → ByHandleFileInformation)
    (roots : List (UnicodeString × Node F)) (history : List (Backed F)) : Prop :=
  ∀ visit ∈ walkOf c disk roots, changed (disk visit.id) = true →
    ∃ object ∈ history, object.id = visit.id ∧ object.File = visit.name ∧
      (object.LinkName = none → object.data = (c.reads object.id object.asked).blocks.flatten)

/-- An incremental backup archives every name of every changed file exactly if each of these names
    is written at a visit that began before any visit of its file had ended, or the file was known
    at its first visit. -/
theorem backupFiles_missesNone (inc : c.options.BackupMethod = .inc) (errorless : Errorless c)
    {roots : List (UnicodeString × Node F)} (fits : ∀ root ∈ roots, root.2.Fits root.1)
    (named : ∀ root ∈ roots.dropLast, root.1 ≠ []) (disk : F → ByHandleFileInformation) :
    let run := backupFiles c roots (.start disk)
    run.state.archive = run.events.flatMap (Backed.bytes .inc) ∧
      (MissesNone c disk roots run.events ↔
        ∀ visit ∈ walkOf c disk roots, changed (disk visit.id) = true →
          Written c disk (walkOf c disk roots) visit.id visit.name) := by
  intro run
  have appends := backupFiles_archive c roots disk
  rw [inc] at appends
  have reads : ∀ object ∈ run.events, object.LinkName = none → object.Read c :=
    (saving_readAll c).backupFiles_run roots (.start disk)
  have progress : Progress c disk (walkOf c disk roots) run.events run.state := by
    have agrees : Agrees c disk (BackupSession.start disk).disk := fun _ => rfl
    have walks := (walking_progress inc errorless disk).backupFiles errorless.toUnfailing fits named
      agrees (rfl : (BackupSession.start disk).PathReplaced = false)
    cases outcome : backupFiles c roots (.start disk) with
    | ok t result s' =>
      have progress := (ensures_of_ok outcome).mp walks [] [] (.start c disk)
      simpa [run, outcome, Outcome.events, Outcome.state] using progress
    | error t e s' => exact e.elim
  refine ⟨appends, forall₂_congr fun visit mem => forall_congr' fun changes => ?_⟩
  rw [← progress.written]
  constructor
  · intro facts
    rcases facts with ⟨object, mem, is, is_named, -⟩
    exact ⟨object, mem, is, is_named⟩
  · intro facts
    rcases facts with ⟨object, mem, is, is_named⟩
    exact ⟨object, mem, is, is_named,
      fun unlinked => (reads object mem unlinked).all (errorless.readsThrough _ _)⟩

def incremental : BackupConfig Bool := { plainBackup with options := { BackupMethod := .inc } }

theorem incremental_errorless : Errorless incremental :=
  ⟨⟨fun _ => rfl, fun _ => rfl, fun _ => rfl, rfl⟩, fun _ => rfl, fun _ _ => rfl⟩

/-- A directory, and a changed file with two names. -/
def changedDisk : Bool → ByHandleFileInformation
  | true => { noFileInformation with dwFileAttributes := fileAttributeDirectory }
  | false => twoNamesInformation ()

theorem backupFiles_missesNone_single :
    MissesNone incremental changedDisk [([0x64], oneEntry)]
      (backupFiles incremental [([0x64], oneEntry)] (.start changedDisk)).events := by
  have fits : ∀ root ∈ [(([0x64] : UnicodeString), oneEntry)], root.2.Fits root.1 := by
    intro root mem
    rw [List.mem_singleton.mp mem]
    exact oneEntry_fits [0x64] (by decide)
  have visits : walkOf incremental changedDisk [([0x64], oneEntry)] =
      [⟨false, [0x64, backslash, 0x61], [0x64, backslash, 0x61], 0⟩, ⟨true, [0x64], [0x64], 1⟩] := rfl
  apply (backupFiles_missesNone rfl incremental_errorless fits
    (fun root absurd => (by cases absurd)) changedDisk).2.mpr
  rw [visits]
  intro visit mem changes
  rcases List.mem_cons.mp mem with rfl | mem
  · exact ⟨[], _, _, rfl, ⟨changes, fun ⟨_, absurd, _⟩ => (by cases absurd)⟩, rfl, rfl⟩
  · rw [List.mem_singleton.mp mem] at changes
    exact absurd changes (by decide)

/-- A directory with the names "a" and "b" of one file in it. -/
def twoEntries : Node Bool :=
  .mk true (.cons [0x61] [] (.mk false .nil) (.cons [0x62] [] (.mk false .nil) .nil))

theorem twoEntries_fits : twoEntries.Fits [0x64] :=
  ⟨fun _ => ⟨List.cons_ne_nil _ _, by decide, trivial⟩,
    fun _ => ⟨List.cons_ne_nil _ _, by decide, trivial⟩, trivial⟩

/-- The archive attribute is reset behind "a", and "b" passes for unchanged. -/
theorem second_name_missed : Errorless incremental ∧ twoEntries.Fits [0x64] ∧
    ¬ MissesNone incremental changedDisk [([0x64], twoEntries)]
      (backupFiles incremental [([0x64], twoEntries)] (.start changedDisk)).events := by
  refine ⟨incremental_errorless, twoEntries_fits, ?_⟩
  unfold MissesNone
  decide +kernel

/-- Visits as those of a tree of files: none is visited inside itself, the tracker takes no two files
    for one, and each name is its own. -/
structure Plain (c : BackupConfig F) (disk : F → ByHandleFileInformation)
    (visits : List (Visit F)) : Prop where
  apart : ∀ before visit after, visits = before ++ visit :: after → Met before visit.id →
    Met (visit.opened before) visit.id
  distinct : ∀ visit ∈ visits, ∀ other ∈ visits, SameRecord c (disk visit.id) (disk other.id) →
    visit.id = other.id
  own : ∀ visit ∈ visits, visit.File = visit.name

theorem Plain.not_shadowed {visits : List (Visit F)} (plain : Plain c disk visits) {visit : Visit F}
    (mem : visit ∈ visits) : ¬ Shadowed c disk visits visit.id := by
  intro facts
  rcases facts with ⟨earlier, first, -, record⟩
  have within := (List.takeWhile_prefix _).subset first
  have other := List.mem_takeWhile_imp first
  rw [decide_eq_true_eq] at other
  exact other (plain.distinct earlier within visit mem record)

/-- In a tree of files it is the second name of a changed file that is missed. -/
theorem Plain.written_iff {visits : List (Visit F)} (plain : Plain c disk visits) :
    (∀ visit ∈ visits, changed (disk visit.id) = true → Written c disk visits visit.id visit.name) ↔
      ∀ visit ∈ visits, ∀ other ∈ visits, changed (disk visit.id) = true → other.id = visit.id →
        other.name = visit.name := by
  have firsts {id : F} {File : UnicodeString} (written : Written c disk visits id File) :
      ∃ before visit after, visits = before ++ visit :: after ∧ ¬ Met before id ∧
        visit.id = id ∧ visit.name = File := by
    obtain ⟨before, visit, after, cut, ⟨-, unreset⟩, rfl, rfl⟩ := written
    have mem : visit ∈ visits := by simp [cut]
    refine ⟨before, visit, after, cut, fun visited => ?_, rfl, (plain.own visit mem).symm⟩
    have opened := plain.apart before visit after cut visited
    apply plain.not_shadowed mem
    rw [cut, shadowed_append visited]
    have within : before = visit.opened before ++ before.drop (before.length - visit.inside) :=
      (List.take_append_drop _ _).symm
    rw [within, shadowed_append opened]
    exact unreset opened
  constructor
  · intro all visit mem other mem' changes same
    obtain ⟨before, first, after, cut, unvisited, is, name⟩ := firsts (all visit mem changes)
    obtain ⟨before', first', after', cut', unvisited', is', name'⟩ :=
      firsts (all other mem' (by rw [same]; exact changes))
    have one : first = first' := by
      rw [cut] at cut'
      rcases List.append_eq_append_iff.mp cut' with ⟨between, rfl, rest⟩ | ⟨between, rfl, rest⟩
      · cases between with
        | nil => exact (List.cons.inj rest).1
        | cons next between =>
          obtain ⟨rfl, -⟩ := List.cons.inj rest
          exact absurd ⟨first, by simp, is.trans same.symm⟩ unvisited'
      · cases between with
        | nil => exact (List.cons.inj rest).1.symm
        | cons next between =>
          obtain ⟨rfl, -⟩ := List.cons.inj rest
          exact absurd ⟨first', by simp, is'.trans same⟩ unvisited
    rw [← name, ← name', one]
  · intro one visit mem changes
    have visited : Met visits visit.id := ⟨visit, mem, rfl⟩
    obtain ⟨File, written⟩ := visited.written (c := c) changes
    obtain ⟨before, first, after, cut, -, is, name⟩ := firsts written
    rwa [← one visit mem first (by simp [cut]) changes is, name]

end StrArc
