import LtrData.Fdf.Search

namespace Fdf

open Traced

variable {E F : Type}

/-- The same file, but for the attributes. -/
structure FileData.Alike (file file' : FileData) : Prop where
  data : file.data = file'.data
  volume : file.dwVolumeSerialNumber = file'.dwVolumeSerialNumber
  index : file.nFileIndex = file'.nFileIndex

theorem FileData.Alike.trans {file file' file'' : FileData} (first : file.Alike file')
    (second : file'.Alike file'') : file.Alike file'' :=
  ⟨first.data.trans second.data, first.volume.trans second.volume, first.index.trans second.index⟩

/-- The attributes of files may change, and nothing else. -/
structure OnlyAttributes (s s' : State E F) : Prop where
  names : s'.fs.names = s.fs.names
  file : ∀ f, (s'.fs.file f).Alike (s.fs.file f)
  table : s'.table = s.table

theorem Quiet.onlyAttributes {s s' : State E F} (quiet : Quiet s s') : OnlyAttributes s s' where
  names := congrArg FileSystem.names quiet.fs
  file := fun f => by
    rw [quiet.fs]
    exact ⟨rfl, rfl, rfl⟩
  table := quiet.table

theorem OnlyAttributes.trans {s s' s'' : State E F} (first : OnlyAttributes s s')
    (second : OnlyAttributes s' s'') : OnlyAttributes s s'' where
  names := second.names.trans first.names
  file := fun f => (second.file f).trans (first.file f)
  table := second.table.trans first.table

section calls

variable [DecidableEq E] [DecidableEq F] {kept : Event → Prop} (c : Config E F) (szFilePath : Path)

omit [DecidableEq F] in
theorem runs_getFileAttributes (s : State E F) :
    Runs kept (getFileAttributes c szFilePath) s fun _ s' => OnlyAttributes s s' := by
  apply runs_bind (reads_onFile c szFilePath s).runs
  intro found s' ⟨quiet, _⟩
  cases found with
  | none => exact runs_pure quiet.onlyAttributes
  | some f =>
    apply runs_bind (reads_fileOf f s').runs
    intro file s'' ⟨quiet', _⟩
    exact runs_pure (quiet.trans quiet').onlyAttributes

theorem runs_setFileAttributes (dwFileAttributes : Option DWORD) (s : State E F) :
    Runs kept (setFileAttributes c szFilePath dwFileAttributes) s fun _ s' => OnlyAttributes s s' := by
  apply runs_bind (reads_onFile c szFilePath s).runs
  intro found s' ⟨quiet, _⟩
  cases dwFileAttributes with
  | none => exact runs_pure quiet.onlyAttributes
  | some dwFileAttributes =>
    cases found with
    | none => exact runs_pure quiet.onlyAttributes
    | some f =>
      refine runs_of_ok (x := updateFileSystem _) rfl fun _ => quiet.onlyAttributes.trans ?_
      refine ⟨rfl, fun g => ?_, rfl⟩
      by_cases same : g = f
      · simp only [FileSystem.setFile, same, if_pos]
        exact ⟨rfl, rfl, rfl⟩
      · simp only [FileSystem.setFile, same, if_neg, not_false_eq_true]
        exact ⟨rfl, rfl, rfl⟩

/-- The attributes of a file are read and then put aside. -/
theorem runs_makeWritable {α : Type} {szFilePath' : Path} {s : State E F} {dwFileAttributes : Option DWORD}
    {f : Option DWORD → Run E F α} {Q : α → State E F → Prop}
    (next : ∀ dwFileAttrs s', OnlyAttributes s s' → Runs kept (f dwFileAttrs) s' Q) :
    Runs kept (do
      let dwFileAttrs ← getFileAttributes c szFilePath
      setFileAttributes c szFilePath' dwFileAttributes
      f dwFileAttrs) s Q := by
  apply runs_bind (runs_getFileAttributes c szFilePath s)
  intro dwFileAttrs s₁ read
  apply runs_bind (runs_setFileAttributes c szFilePath' dwFileAttributes s₁)
  intro _ s₂ set
  exact next dwFileAttrs s₂ (read.trans set)

/-- What DeleteFile does. -/
structure Deletes (kept : Event → Prop) (c : Config E F) (szFilePath : Path) (s : State E F)
    (deleted : Bool) (s' : State E F) : Prop where
  table : s'.table = s.table
  removed : deleted = true → ∃ name f, c.leads szFilePath = some name ∧
    s.fs.names.lookup name = some f ∧ s'.fs = s.fs.remove name
  failed : deleted = false → s'.fs = s.fs ∧ kept (.called false)

omit [DecidableEq F] in
theorem runs_deleteFile (s : State E F) :
    Runs kept (deleteFile c szFilePath) s (Deletes kept c szFilePath s) := by
  refine runs_of_ok (x := deleteFile c szFilePath) rfl fun all => ?_
  have seen := all _ List.mem_cons_self
  refine ⟨rfl, fun deleted => ?_, fun failed => ?_⟩
  · rw [if_pos deleted]
    obtain ⟨-, any⟩ := Bool.and_eq_true_iff.mp deleted
    obtain ⟨f, found, -⟩ := (Option.any_eq_true _ _).mp any
    obtain ⟨name, leads, found⟩ := Option.bind_eq_some_iff.mp found
    exact ⟨name, f, leads, found, by rw [leads]; rfl⟩
  · rw [failed] at seen ⊢
    exact ⟨rfl, seen⟩

end calls

section deletion

variable [DecidableEq E] {c : Config E F}

/-- A name that may be removed without losing a content. -/
def Removable (c : Config E F) (fs : FileSystem E F) (szFilePath : Path) : Prop :=
  ∀ name f, c.leads szFilePath = some name → fs.names.lookup name = some f →
    ∃ g, (fs.remove name).Exists g ∧
      (fs.file g).data.drop c.dwSkipSize.toNat = (fs.file f).data.drop c.dwSkipSize.toNat

/-- No content gets lost, and no path comes to lead to another file. -/
structure Keeps (c : Config E F) (s s' : State E F) : Prop where
  data : ∀ f, (s'.fs.file f).data = (s.fs.file f).data
  contents : ∀ f, s.fs.Exists f → ∃ g, s'.fs.Exists g ∧
    (s.fs.file g).data.drop c.dwSkipSize.toNat = (s.fs.file f).data.drop c.dwSkipSize.toNat
  sound : s.TableSound c → s'.TableSound c

theorem Keeps.trans {s s' s'' : State E F} (first : Keeps c s s') (second : Keeps c s' s'') :
    Keeps c s s'' where
  data := fun f => (second.data f).trans (first.data f)
  contents := by
    intro f exists_
    obtain ⟨g, exists_, same⟩ := first.contents f exists_
    obtain ⟨g', exists_, same'⟩ := second.contents g exists_
    rw [first.data, first.data] at same'
    exact ⟨g', exists_, same'.trans same⟩
  sound := fun sound => second.sound (first.sound sound)

theorem FileRecord.Sound.fewer {fs fs' : FileSystem E F} {r : FileRecord} (sound : r.Sound c fs)
    (file : ∀ f, (fs'.file f).Alike (fs.file f))
    (fewer : ∀ f, c.lookup fs' r.szFilePath = some f → c.lookup fs r.szFilePath = some f) :
    r.Sound c fs' := by
  intro f leads
  have describes := sound f (fewer f leads)
  refine ⟨?_, ?_, ?_, ?_⟩
  · rw [(file f).data, describes.size]
  · rw [(file f).index, describes.index]
  · rw [(file f).volume, describes.volume]
  · rw [content, (file f).data]
    exact describes.checksum

theorem OnlyAttributes.lookup {s s' : State E F} (attributes : OnlyAttributes s s') (szFilePath : Path) :
    c.lookup s'.fs szFilePath = c.lookup s.fs szFilePath := by
  rw [Config.lookup, Config.lookup, attributes.names]

theorem OnlyAttributes.keeps {s s' : State E F} (attributes : OnlyAttributes s s') : Keeps c s s' where
  data := fun f => (attributes.file f).data
  contents := by
    intro f ⟨name, mem⟩
    exact ⟨f, ⟨name, attributes.names.symm ▸ mem⟩, rfl⟩
  sound := by
    intro sound i r mem
    rw [attributes.table] at mem
    exact (sound i r mem).fewer attributes.file fun f leads =>
      (attributes.lookup _).symm.trans leads

theorem OnlyAttributes.removable {s s' : State E F} (attributes : OnlyAttributes s s')
    {szFilePath : Path} (removable : Removable c s.fs szFilePath) : Removable c s'.fs szFilePath := by
  intro name f leads found
  rw [attributes.names] at found
  obtain ⟨g, exists_, same⟩ := removable name f leads found
  refine ⟨g, ?_, by rw [(attributes.file g).data, (attributes.file f).data, same]⟩
  obtain ⟨name', mem⟩ := exists_
  exact ⟨name', by rw [FileSystem.remove, attributes.names]; exact mem⟩

theorem Deletes.keeps {kept : Event → Prop} {szFilePath : Path} {s s' : State E F} {deleted : Bool}
    (deletes : Deletes kept c szFilePath s deleted s') (removable : Removable c s.fs szFilePath) :
    Keeps c s s' := by
  cases deleted with
  | false =>
    exact OnlyAttributes.keeps (Quiet.onlyAttributes ⟨(deletes.failed rfl).1, deletes.table⟩)
  | true =>
    obtain ⟨name, f, leads, found, same⟩ := deletes.removed rfl
    obtain ⟨g, exists_, content_g⟩ := removable name f leads found
    refine ⟨fun f => by rw [same]; rfl, ?_, ?_⟩
    · intro f' ⟨name', mem⟩
      by_cases here : name' = name
      · subst here
        cases found.symm.trans (AList.mem_lookup_iff.mpr mem)
        exact ⟨g, same ▸ exists_, content_g⟩
      · refine ⟨f', ?_, rfl⟩
        rw [same]
        have there := AList.mem_lookup_iff.mpr mem
        exact FileSystem.exists_of_lookup ((AList.lookup_erase_ne here).trans there)
    · intro sound i r mem
      rw [deletes.table] at mem
      refine (sound i r mem).fewer (fun f => by rw [same]; exact ⟨rfl, rfl, rfl⟩) fun f leads => ?_
      obtain ⟨name', leads', found'⟩ := Option.bind_eq_some_iff.mp leads
      refine Option.bind_eq_some_iff.mpr ⟨name', leads', ?_⟩
      rw [same] at found'
      by_cases here : name' = name
      · subst here
        rw [FileSystem.remove, AList.lookup_erase] at found'
        cases found'
      · exact (AList.lookup_erase_ne here).symm.trans found'

theorem removable_of_links [DecidableEq F] {fs : FileSystem E F} {szFilePath : Path} {f : F}
    (leads : c.lookup fs szFilePath = some f) (links : 1 < fs.nNumberOfLinks f) :
    Removable c fs szFilePath := by
  intro name f' leads' found
  cases leads.symm.trans (Option.bind_eq_some_iff.mpr ⟨name, leads', found⟩)
  exact ⟨f, FileSystem.exists_remove links, rfl⟩

theorem removable_of_equals {fs : FileSystem E F} {szFilePath : Path} {f : F} {fr : FileRecord}
    (leads : c.lookup fs szFilePath = some f) (equals : fr.Equals c fs f)
    (apart : c.leads szFilePath ≠ c.leads fr.szFilePath) : Removable c fs szFilePath := by
  intro name f' leads' found
  cases leads.symm.trans (Option.bind_eq_some_iff.mpr ⟨name, leads', found⟩)
  obtain ⟨g, leads_g, content_g⟩ := equals.same
  obtain ⟨name', leads_name', found'⟩ := Option.bind_eq_some_iff.mp leads_g
  have other : name' ≠ name := fun same => apart (by rw [leads', leads_name', same])
  refine ⟨g, FileSystem.exists_of_lookup ((AList.lookup_erase_ne other).trans found'), ?_⟩
  rw [content, content, setFilePointer, setFilePointer] at content_g
  by_cases small : c.dwSkipSize.toNat < 2 ^ 31
  · rwa [if_pos small, if_pos small] at content_g
  · rw [if_neg small, if_neg small] at content_g
    rw [content_g]

variable [DecidableEq F] {kept : Event → Prop}

/-- What follows a forced deletion only puts attributes back. -/
theorem keeps_deleteForced {szFilePath szFilePath' : Path} {s : State E F}
    {dwFileAttributes : Option DWORD} {f : Option DWORD → Bool → Run E F Unit}
    (removable : Removable c s.fs szFilePath)
    (next : ∀ dwFileAttrs deleted s', Runs kept (f dwFileAttrs deleted) s' fun _ s'' =>
      OnlyAttributes s' s'') :
    Runs kept (do
      let dwFileAttrs ← getFileAttributes c szFilePath'
      setFileAttributes c szFilePath dwFileAttributes
      let deleted ← deleteFile c szFilePath
      f dwFileAttrs deleted) s fun _ s' => Keeps c s s' := by
  apply runs_makeWritable
  intro dwFileAttrs s₂ attributes
  apply runs_bind (runs_deleteFile c szFilePath s₂)
  intro deleted s₃ deletes
  have keeps := attributes.keeps.trans (deletes.keeps (attributes.removable removable))
  exact (next dwFileAttrs deleted s₃).mono fun _ s₄ reset => keeps.trans reset.keeps

omit [DecidableEq F] in
theorem keeps_deleteUnforced {szFilePath : Path} {s : State E F}
    (removable : Removable c s.fs szFilePath) :
    Runs kept (do
      let _ ← deleteFile c szFilePath) s fun _ s' => Keeps c s s' := by
  apply runs_bind (runs_deleteFile c szFilePath s)
  intro deleted s' deletes
  exact runs_pure (deletes.keeps removable)

theorem keeps_deleteEqual {szFilePath : Path} {s : State E F}
    (removable : Removable c s.fs szFilePath) :
    Runs kept (deleteEqual c szFilePath) s fun _ s' => Keeps c s s' := by
  unfold deleteEqual
  by_cases force : c.bForceDelete = true
  · rw [if_pos force]
    apply keeps_deleteForced removable
    intro dwFileAttrs deleted s'
    cases deleted with
    | true => exact runs_pure (Quiet.onlyAttributes ⟨rfl, rfl⟩)
    | false => exact runs_setFileAttributes c szFilePath dwFileAttrs s'
  · rw [if_neg force]
    exact keeps_deleteUnforced removable

theorem keeps_deleteLink {szFilePath : Path} {fr : FileRecord} {s : State E F}
    (removable : Removable c s.fs szFilePath) :
    Runs kept (deleteLink c szFilePath fr) s fun _ s' => Keeps c s s' := by
  unfold deleteLink
  by_cases force : c.bForceDelete = true
  · rw [if_pos force]
    exact keeps_deleteForced removable fun dwFileAttrs _ =>
      runs_setFileAttributes c fr.szFilePath dwFileAttrs
  · rw [if_neg force]
    exact keeps_deleteUnforced removable

/-- The two paths of a duplicate lead to different directory entries. -/
def LeadsApart (c : Config E F) (e : Event) : Prop :=
  ∀ szFilePath recorded, e = .duplicate szFilePath recorded → c.leads szFilePath ≠ c.leads recorded

theorem keeps_chkfile (split : c.bSplitLinks = false) (delete : c.bDeleteEqual = true)
    (szFilePath : Path) (nFileSize : Nat) {s : State E F} (sound : s.TableSound c) :
    Runs (LeadsApart c) (chkfile c szFilePath nFileSize) s fun _ s' => Keeps c s s' := by
  unfold chkfile
  apply runs_bind (reads_find c szFilePath s).runs
  intro found s₁ ⟨quiet₁, seen⟩
  have keeps₁ : Keeps c s s₁ := quiet₁.onlyAttributes.keeps
  cases found with
  | some fr =>
    dsimp only
    rw [split, if_neg Bool.false_ne_true, delete, Bool.true_and]
    by_cases links : c.bLinkEqual = true
    swap
    · rw [if_neg links]
      exact runs_pure keeps₁
    rw [if_pos links]
    obtain ⟨f, leads, same⟩ := seen.resolve_right fun absurd => by cases absurd.1
    have several : 1 < s.fs.nNumberOfLinks f := by
      by_contra one
      rw [State.foundRecord, if_pos (Nat.le_of_not_lt one)] at same
      cases same
    have removable := removable_of_links leads several
    rw [← quiet₁.fs] at removable
    exact (keeps_deleteLink removable).mono fun _ s₂ keeps₂ => keeps₁.trans keeps₂
  | none =>
    show Runs _ (if 0 < c.dwSkipSize ∧ nFileSize ≤ c.dwSkipSize.toNat then _ else _) _ _
    by_cases short : 0 < c.dwSkipSize ∧ nFileSize ≤ c.dwSkipSize.toNat
    · rw [if_pos short]
      exact runs_pure keeps₁
    rw [if_neg short]
    apply runs_bind (runs_findEqualOrAdd c szFilePath (keeps₁.sound sound))
    intro found s₂ looked
    have keeps₂ : Keeps c s s₂ := by
      refine keeps₁.trans ⟨fun f => by rw [looked.fs], fun f ⟨name, mem⟩ => ?_, fun _ => looked.sound⟩
      exact ⟨f, ⟨name, looked.fs.symm ▸ mem⟩, rfl⟩
    cases found with
    | none => exact runs_pure keeps₂
    | some fr =>
      show Runs _ (if szFilePath = fr.szFilePath then _ else _) _ _
      by_cases same : szFilePath = fr.szFilePath
      · rw [if_pos same]
        exact runs_pure keeps₂
      rw [if_neg same]
      have told : Runs (LeadsApart c) (duplicate szFilePath fr.szFilePath) s₂ fun _ s₃ =>
          s₃ = s₂ ∧ c.leads szFilePath ≠ c.leads fr.szFilePath :=
        runs_of_ok (x := duplicate szFilePath fr.szFilePath) rfl fun all =>
          ⟨rfl, all _ List.mem_cons_self _ _ rfl⟩
      apply runs_bind told
      intro _ s₃ ⟨unchanged, apart⟩
      subst unchanged
      rw [delete, if_pos rfl]
      obtain ⟨f, leads, -, equals⟩ := looked.equal fr rfl
      rw [← looked.fs] at leads equals
      exact (keeps_deleteEqual (removable_of_equals leads equals apart)).mono fun _ s₄ keeps₄ =>
        keeps₂.trans keeps₄

/-- Deleting duplicates destroys no content as long as the two names of each duplicate are different
    directory entries. -/
theorem dosubdir_keeps_contents (split : c.bSplitLinks = false) (delete : c.bDeleteEqual = true)
    {s s' : State E F} (empty : ∀ i, s.table i = []) {directory : Directory} {t : List Event}
    {completed : Bool} (run : dosubdir c directory [] s = .ok t completed s')
    (apart : ∀ e ∈ t, LeadsApart c e) {f : F} (exists_ : s.fs.Exists f) :
    ∃ g, s'.fs.Exists g ∧
      (s'.fs.file g).data.drop c.dwSkipSize.toNat = (s.fs.file f).data.drop c.dwSkipSize.toNat := by
  have walks : Walks (LeadsApart c) c fun s s' => s.TableSound c → Keeps c s s' :=
    { quiet := fun quiet _ => quiet.onlyAttributes.keeps
      trans := fun first second sound => (first sound).trans (second ((first sound).sound sound))
      chkfile := fun szFilePath nFileSize s =>
        Runs.imp fun sound => keeps_chkfile split delete szFilePath nFileSize sound }
  have sound : s.TableSound c := fun i r mem => by
    rw [empty] at mem
    cases mem
  have keeps := ((ensures_of_ok run).mp (walks.dosubdir directory [] s) apart).2 sound
  obtain ⟨g, exists_g, same⟩ := keeps.contents f exists_
  exact ⟨g, exists_g, by rw [keeps.data, same]⟩

end deletion

/-- Two files with the same bytes behind the first two, and `fdf -d -n:2 *`. -/
def duplicateConfig : Config Bool Bool where
  leads := fun szFilePath =>
    if szFilePath = [0x66] then some false else if szFilePath = [0x67] then some true else none
  answers := fun _ => true
  creates := fun _ => none
  bBreak := fun _ => false
  argv := [[0x2a]]
  excluded := fun _ => false
  dwSkipSize := 2
  bDeleteEqual := true

def duplicateListing : Directory := .mk .nil [[⟨[0x66], 4⟩, ⟨[0x67], 4⟩]]

def duplicateState : State Bool Bool where
  fs :=
    { names := ⟨[⟨false, false⟩, ⟨true, true⟩], by simp⟩
      file := fun f => ⟨[if f then 0 else 9, 1, 2, 3], 7, if f then 2 else 1, fileAttributeNormal⟩ }
  table := fun _ => []
  calls := 0

theorem dosubdir_keeps_contents_duplicate :
    ((dosubdir duplicateConfig duplicateListing [] duplicateState).state.fs.names.entries.length = 1) ∧
    ∃ g, (dosubdir duplicateConfig duplicateListing [] duplicateState).state.fs.Exists g ∧
      ((dosubdir duplicateConfig duplicateListing [] duplicateState).state.fs.file g).data.drop 2 =
        [2, 3] := by
  have run := Outcome.ok_of_value (o := dosubdir duplicateConfig duplicateListing [] duplicateState)
    (a := true) (by decide +kernel)
  have duplicates : ∀ e ∈ (dosubdir duplicateConfig duplicateListing [] duplicateState).events,
      e = .called true ∨ e = .duplicate [0x67] [0x66] := by decide +kernel
  refine ⟨by decide +kernel, dosubdir_keeps_contents rfl rfl (fun _ => rfl) run ?_ (f := true)
    ⟨true, by decide⟩⟩
  intro e mem szFilePath recorded same
  rcases duplicates e mem with called | told
  · cases called.symm.trans same
  · cases told.symm.trans same
    decide

/-- A directory `d` with one file `f`, a junction `j` to the directory, and `fdf -r -d *`. -/
def junctionConfig : Config Unit Unit where
  leads := fun szFilePath =>
    if szFilePath = [0x64, 0x5c, 0x66] ∨ szFilePath = [0x6a, 0x5c, 0x66] then some () else none
  answers := fun _ => true
  creates := fun _ => none
  bBreak := fun _ => false
  argv := [[0x2a]]
  excluded := fun _ => false
  bDeleteEqual := true
  bRecurse := true

def junctionListing : Directory :=
  .mk (.cons [0x64] (.mk .nil [[⟨[0x66], 3⟩]]) (.cons [0x6a] (.mk .nil [[⟨[0x66], 3⟩]]) .nil)) [[]]

def junctionState : State Unit Unit where
  fs :=
    { names := ⟨[⟨(), ()⟩], by simp⟩
      file := fun _ => ⟨[1, 2, 3], 7, 1, fileAttributeNormal⟩ }
  table := fun _ => []
  calls := 0

/-- The junction leads to the only name of the file, which is deleted as a duplicate of itself. -/
theorem only_copy_deleted : junctionState.fs.Exists () ∧
    (dosubdir junctionConfig junctionListing [] junctionState).value = some true ∧
    ¬ ∃ g, (dosubdir junctionConfig junctionListing [] junctionState).state.fs.Exists g := by
  have none_left :
      (dosubdir junctionConfig junctionListing [] junctionState).state.fs.names.entries.length = 0 := by
    decide +kernel
  refine ⟨⟨(), List.mem_cons_self⟩, by decide +kernel, fun ⟨g, name, mem⟩ => ?_⟩
  rw [List.length_eq_zero_iff.mp none_left] at mem
  cases mem

end Fdf
