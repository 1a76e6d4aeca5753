import LtrData.Fdf.Deletion
import Mathlib.Data.Fintype.Sigma

namespace Fdf

open Traced

variable {E F : Type} [DecidableEq E]

/-- The table between two calls of chkfile: each record leads to the file it describes, and no two
    names with the same content are recorded. -/
structure Recorded (c : Config E F) (s : State E F) : Prop where
  identified : s.fs.Identified
  leads : ∀ i, ∀ r ∈ s.table i, ∃ f, c.lookup s.fs r.szFilePath = some f ∧ r.Describes c s.fs f
  chain : ∀ i, ∀ r ∈ s.table i, i = chainOf r.FileSize
  unique : ∀ i j, ∀ r ∈ s.table i, ∀ r' ∈ s.table j, ∀ f,
    c.lookup s.fs r'.szFilePath = some f → r.Equals c s.fs f → r.szFilePath = r'.szFilePath

section recorded

variable {c : Config E F} {s s' : State E F}

omit [DecidableEq E] in
theorem FileRecord.Describes.alike {fs fs' : FileSystem E F} {r : FileRecord} {f : F}
    (describes : r.Describes c fs f) (alike : (fs'.file f).Alike (fs.file f)) :
    r.Describes c fs' f := by
  refine ⟨?_, ?_, ?_, ?_⟩
  · rw [alike.data, describes.size]
  · rw [alike.index, describes.index]
  · rw [alike.volume, describes.volume]
  · rw [content, alike.data]
    exact describes.checksum

theorem exists_of_config_lookup {fs : FileSystem E F} {szFilePath : Path} {f : F}
    (leads : c.lookup fs szFilePath = some f) : fs.Exists f := by
  obtain ⟨name, -, found⟩ := Option.bind_eq_some_iff.mp leads
  exact FileSystem.exists_of_lookup found

theorem Recorded.transfer (recorded : Recorded c s) (table : s'.table = s.table)
    (lookup : ∀ i, ∀ r ∈ s.table i, c.lookup s'.fs r.szFilePath = c.lookup s.fs r.szFilePath)
    (file : ∀ f, s.fs.Exists f → (s'.fs.file f).Alike (s.fs.file f))
    (identified : s'.fs.Identified) : Recorded c s' where
  identified := identified
  leads := by
    intro i r mem
    rw [table] at mem
    obtain ⟨f, leads, describes⟩ := recorded.leads i r mem
    exact ⟨f, (lookup i r mem).trans leads,
      describes.alike (file f (exists_of_config_lookup leads))⟩
  chain := fun i r mem => recorded.chain i r (table ▸ mem)
  unique := by
    intro i j r mem r' mem' f leads' equals
    rw [table] at mem mem'
    rw [lookup j r' mem'] at leads'
    have alike := file f (exists_of_config_lookup leads')
    obtain ⟨g, leads_g, content_g⟩ := equals.same
    rw [lookup i r mem] at leads_g
    have alike_g := file g (exists_of_config_lookup leads_g)
    rw [content, content, alike.data, alike_g.data] at content_g
    exact recorded.unique i j r mem r' mem' f leads'
      ⟨equals.size.trans (congrArg List.length alike.data), equals.volume.trans alike.volume,
        g, leads_g, content_g⟩

omit [DecidableEq E] in
theorem FileSystem.Identified.fewer {fs fs' : FileSystem E F} (identified : fs.Identified)
    (fewer : ∀ f, fs'.Exists f → fs.Exists f)
    (file : ∀ f, fs.Exists f → (fs'.file f).Alike (fs.file f)) : fs'.Identified := by
  intro f g exists_f exists_g volume index
  have exists_f := fewer f exists_f
  have exists_g := fewer g exists_g
  refine identified f g exists_f exists_g ?_ ?_
  · rw [← (file f exists_f).volume, ← (file g exists_g).volume, volume]
  · rw [← (file f exists_f).index, ← (file g exists_g).index, index]

theorem OnlyAttributes.recorded (attributes : OnlyAttributes s s') (recorded : Recorded c s) :
    Recorded c s' :=
  recorded.transfer attributes.table (fun _ _ _ => attributes.lookup _) (fun f _ => attributes.file f)
    (recorded.identified.fewer (fun _ ⟨name, mem⟩ => ⟨name, attributes.names ▸ mem⟩)
      fun f _ => attributes.file f)

/-- Every path still leads to its content. -/
def KeepsPaths (c : Config E F) (s s' : State E F) : Prop :=
  ∀ szFilePath f, c.lookup s.fs szFilePath = some f →
    ∃ g, c.lookup s'.fs szFilePath = some g ∧ (s'.fs.file g).data = (s.fs.file f).data

theorem KeepsPaths.trans {s'' : State E F} (first : KeepsPaths c s s') (second : KeepsPaths c s' s'') :
    KeepsPaths c s s'' := by
  intro szFilePath f leads
  obtain ⟨g, leads, same⟩ := first szFilePath f leads
  obtain ⟨h, leads, same'⟩ := second szFilePath g leads
  exact ⟨h, leads, same'.trans same⟩

theorem OnlyAttributes.keepsPaths (attributes : OnlyAttributes s s') : KeepsPaths c s s' :=
  fun szFilePath f leads => ⟨f, (attributes.lookup szFilePath).trans leads, (attributes.file f).data⟩

/-- One name has come to stand for another file with the same content. -/
structure Replaces (s s' : State E F) (name : E) (f g : F) : Prop where
  table : s'.table = s.table
  before : s.fs.names.lookup name = some f
  after : s'.fs.names.lookup name = some g
  others : ∀ name', name' ≠ name → s'.fs.names.lookup name' = s.fs.names.lookup name'
  file : ∀ h, s.fs.Exists h → (s'.fs.file h).Alike (s.fs.file h)
  data : (s'.fs.file g).data = (s.fs.file f).data
  identified : s.fs.Identified → s'.fs.Identified

theorem Replaces.keepsPaths {name : E} {f g : F} (replaces : Replaces s s' name f g) :
    KeepsPaths c s s' := by
  intro szFilePath h leads
  obtain ⟨name', leads', found⟩ := Option.bind_eq_some_iff.mp leads
  by_cases here : name' = name
  · subst here
    cases replaces.before.symm.trans found
    exact ⟨g, Option.bind_eq_some_iff.mpr ⟨name', leads', replaces.after⟩, replaces.data⟩
  · refine ⟨h, Option.bind_eq_some_iff.mpr ⟨name', leads', ?_⟩, ?_⟩
    · exact (replaces.others name' here).trans found
    · exact (replaces.file h (FileSystem.exists_of_lookup found)).data

theorem Replaces.recorded {name : E} {f g : F} (replaces : Replaces s s' name f g)
    (recorded : Recorded c s)
    (untouched : ∀ i, ∀ r ∈ s.table i, c.leads r.szFilePath = some name → g = f) :
    Recorded c s' := by
  refine recorded.transfer replaces.table (fun i r mem => ?_) replaces.file
    (replaces.identified recorded.identified)
  obtain ⟨h, leads, -⟩ := recorded.leads i r mem
  obtain ⟨name', leads', found⟩ := Option.bind_eq_some_iff.mp leads
  rw [Config.lookup, Config.lookup, leads']
  show s'.fs.names.lookup name' = s.fs.names.lookup name'
  by_cases here : name' = name
  · subst here
    rw [replaces.after, untouched i r mem leads', replaces.before]
  · exact replaces.others name' here

end recorded

section calls

variable (c : Config E F)

/-- What CopyFile does when it works. -/
structure Copies [DecidableEq F] (c : Config E F) (szExisting szNew : Path) (s s' : State E F) : Prop where
  table : s'.table = s.table
  copied : ∃ f name, ∃ created : Created s.fs, c.lookup s.fs szExisting = some f ∧
    c.leads szNew = some name ∧
    s'.fs = (s.fs.setFile created.file
      { s.fs.file f with
        dwVolumeSerialNumber := created.dwVolumeSerialNumber
        nFileIndex := created.nFileIndex }).link name created.file

theorem runs_copyFile [DecidableEq F] (szExisting szNew : Path) (s : State E F) :
    Runs (· ≠ .called false) (copyFile c szExisting szNew) s fun _ s' =>
      Copies c szExisting szNew s s' := by
  refine runs_intro fun t copied s' run works => ?_
  unfold copyFile at run
  split at run
  · next f name created found leads creates =>
    split at run
    · cases run
      exact (works _ List.mem_cons_self rfl).elim
    · cases run
      refine ⟨rfl, f, name, created, ?_, leads, rfl⟩
      by_cases answers : c.answers s.calls = true
      · rwa [if_pos answers] at found
      · rw [if_neg answers] at found
        cases found
  · cases run
    exact (works _ List.mem_cons_self rfl).elim

/-- What CreateHardLinkToFile does when it works. -/
structure Links (c : Config E F) (lpExisting lpNew : Path) (s s' : State E F) : Prop where
  table : s'.table = s.table
  linked : ∃ f name, c.lookup s.fs lpExisting = some f ∧ c.leads lpNew = some name ∧
    s'.fs = s.fs.link name f

theorem runs_createHardLinkToFile (lpExisting lpNew : Path) (s : State E F) :
    Runs (· ≠ .called false) (createHardLinkToFile c lpExisting lpNew) s fun linked s' =>
      linked = true ∧ Links c lpExisting lpNew s s' := by
  refine runs_intro fun t linked s' run works => ?_
  unfold createHardLinkToFile at run
  split at run
  · next f name found leads =>
    cases run
    refine ⟨rfl, rfl, f, name, ?_, leads, rfl⟩
    by_cases answers : c.answers s.calls = true
    · rwa [if_pos answers] at found
    · rw [if_neg answers] at found
      cases found
  · cases run
    exact (works _ List.mem_cons_self rfl).elim

end calls

section chkfile

variable {c : Config E F}

/-- A path that leads somewhere without the name does not go through the name. -/
theorem lookup_of_removed {szFilePath : Path} {name : E} {f g : F} {fs fs' : FileSystem E F}
    (names : fs'.names = fs.names.erase name) (leads : c.lookup fs szFilePath = some f)
    (leads' : c.lookup fs' szFilePath = some g) : c.leads szFilePath ≠ some name ∧ g = f := by
  obtain ⟨here, leads_here, found⟩ := Option.bind_eq_some_iff.mp leads
  obtain ⟨here', leads_here', found'⟩ := Option.bind_eq_some_iff.mp leads'
  cases leads_here.symm.trans leads_here'
  rw [names] at found'
  by_cases same : here = name
  · rw [same, AList.lookup_erase] at found'
    cases found'
  · rw [AList.lookup_erase_ne same] at found'
    refine ⟨fun other => same ?_, Option.some.inj (found'.symm.trans found)⟩
    exact Option.some.inj (leads_here.symm.trans other)

theorem exists_of_removed {szFilePath : Path} {name : E} {f h : F} {fs fs' : FileSystem E F}
    (names : fs'.names = fs.names.erase name) (found : fs.names.lookup name = some f)
    (leads : c.lookup fs szFilePath = some f) (other : c.leads szFilePath ≠ some name)
    (exists_ : fs.Exists h) : fs'.Exists h := by
  obtain ⟨name', found'⟩ := FileSystem.exists_iff.mp exists_
  by_cases same : name' = name
  · subst same
    cases found.symm.trans found'
    obtain ⟨here, leads_here, found_here⟩ := Option.bind_eq_some_iff.mp leads
    have there : fs'.names.lookup here = some f := by
      rw [names, AList.lookup_erase_ne fun equal => other (by rw [leads_here, equal])]
      exact found_here
    exact FileSystem.exists_of_lookup there
  · have there : fs'.names.lookup name' = some h := by
      rw [names, AList.lookup_erase_ne same]
      exact found'
    exact FileSystem.exists_of_lookup there

theorem identified_of_created {name : E} {fs fs' fs'' : FileSystem E F} {created : Created fs'}
    (identified : fs.Identified) (left : ∀ h, fs.Exists h → fs'.Exists h)
    (alike : ∀ h, (fs'.file h).Alike (fs.file h))
    (lookup : ∀ name', name' ≠ name → fs''.names.lookup name' = fs.names.lookup name')
    (new : fs''.names.lookup name = some created.file)
    (file : ∀ h, fs.Exists h → fs''.file h = fs'.file h)
    (volume : (fs''.file created.file).dwVolumeSerialNumber = created.dwVolumeSerialNumber)
    (index : (fs''.file created.file).nFileIndex = created.nFileIndex) : fs''.Identified := by
  have old {h : F} (exists_ : fs''.Exists h) : h = created.file ∨ fs.Exists h := by
    obtain ⟨name', found⟩ := FileSystem.exists_iff.mp exists_
    by_cases here : name' = name
    · subst here
      exact .inl (Option.some.inj (found.symm.trans new))
    · exact .inr (FileSystem.exists_of_lookup ((lookup name' here).symm.trans found))
  have fresh {h : F} (exists_ : fs.Exists h)
      (volume : (fs''.file h).dwVolumeSerialNumber = created.dwVolumeSerialNumber)
      (index : (fs''.file h).nFileIndex = created.nFileIndex) : False := by
    rw [file h exists_] at volume index
    exact created.identified h (left h exists_) volume index
  intro g h exists_g exists_h same_volume same_index
  rcases old exists_g with rfl | exists_g
  · rcases old exists_h with rfl | exists_h
    · rfl
    · exact (fresh exists_h (same_volume.symm.trans volume) (same_index.symm.trans index)).elim
  · rcases old exists_h with rfl | exists_h
    · exact (fresh exists_g (same_volume.trans volume) (same_index.trans index)).elim
    · rw [file g exists_g, file h exists_h] at same_volume same_index
      rw [(alike g).volume, (alike h).volume] at same_volume
      rw [(alike g).index, (alike h).index] at same_index
      exact identified g h exists_g exists_h same_volume same_index

theorem replaces_of_copy [DecidableEq F] {szFilePath recorded : Path} {name : E} {f : F}
    {s s₁ s₂ s₃ : State E F} (leads : c.leads szFilePath = some name)
    (found : s.fs.names.lookup name = some f) (leads_recorded : c.lookup s.fs recorded = some f)
    (table : s₁.table = s.table) (removed : s₁.fs = s.fs.remove name)
    (attributes : OnlyAttributes s₁ s₂) (copies : Copies c recorded szFilePath s₂ s₃) :
    c.leads recorded ≠ some name ∧ ∃ g, Replaces s s₃ name f g := by
  obtain ⟨f', name', created, leads_f', leads', copied⟩ := copies.copied
  cases leads.symm.trans leads'
  have names : s₂.fs.names = s.fs.names.erase name := by rw [attributes.names, removed]; rfl
  obtain ⟨other, rfl⟩ := lookup_of_removed names leads_recorded leads_f'
  have left (h : F) (exists_ : s.fs.Exists h) : s₂.fs.Exists h :=
    exists_of_removed names found leads_recorded other exists_
  have alike (h : F) : (s₂.fs.file h).Alike (s.fs.file h) := by
    have alike := attributes.file h
    rwa [removed] at alike
  have file (h : F) (exists_ : s.fs.Exists h) : s₃.fs.file h = s₂.fs.file h := by
    have unlike : h ≠ created.file := fun same => created.fresh (same ▸ left h exists_)
    rw [copied]
    exact if_neg unlike
  have lookup (name' : E) (ne : name' ≠ name) :
      s₃.fs.names.lookup name' = s.fs.names.lookup name' := by
    rw [copied]
    show (s₂.fs.names.insert name created.file).lookup name' = _
    rw [AList.lookup_insert_ne ne, names, AList.lookup_erase_ne ne]
  have new : s₃.fs.names.lookup name = some created.file := by
    rw [copied]
    exact AList.lookup_insert _
  have copy : s₃.fs.file created.file = { s₂.fs.file f' with
      dwVolumeSerialNumber := created.dwVolumeSerialNumber
      nFileIndex := created.nFileIndex } := by
    rw [copied]
    exact if_pos rfl
  refine ⟨other, created.file, ?_, found, new, lookup, ?_, ?_, fun identified => ?_⟩
  · rw [copies.table, attributes.table, table]
  · intro h exists_
    rw [file h exists_]
    exact alike h
  · rw [copy]
    exact (alike f').data
  · exact identified_of_created identified left alike lookup new file (by rw [copy]) (by rw [copy])

theorem Looked.origin {szFilePath : Path} {s s' : State E F} {found : Option FileRecord}
    (looked : Looked (· ≠ .called false) c szFilePath s found s') :
    ∃ f, c.lookup s.fs szFilePath = some f ∧ ∀ i, ∀ r ∈ s'.table i,
      (∃ r₀ ∈ s.table i, r₀.identity = r.identity) ∨
        i = s.chain f ∧ r.identity = newRecord s.fs szFilePath f ∧
          ∀ r ∈ s.table (s.chain f), ¬ r.Equals c s.fs f := by
  obtain ⟨f, leads, kept, added⟩ := looked.records
  refine ⟨f, leads, fun i r mem => ?_⟩
  have mem : r.identity ∈ s'.records i := List.mem_map_of_mem mem
  by_cases none : found = none
  · obtain ⟨differs, records⟩ := added none
    rw [records] at mem
    split at mem
    · next here =>
      rcases List.mem_cons.mp mem with new | mem
      · exact .inr ⟨here, new, differs⟩
      · exact .inl (List.mem_map.mp mem)
    · exact .inl (List.mem_map.mp mem)
  · rw [kept none] at mem
    exact .inl (List.mem_map.mp mem)

theorem Looked.recorded {szFilePath : Path} {s s' : State E F} {found : Option FileRecord}
    (looked : Looked (· ≠ .called false) c szFilePath s found s') (recorded : Recorded c s) :
    Recorded c s' := by
  obtain ⟨f, leads, origin⟩ := looked.origin
  have fs := looked.fs
  refine ⟨fs ▸ recorded.identified, fun i r mem => ?_, fun i r mem => ?_, ?_⟩
  · rcases origin i r mem with ⟨r₀, mem₀, same⟩ | ⟨-, same, -⟩
    · obtain ⟨g, leads₀, -⟩ := recorded.leads i r₀ mem₀
      have path := FileRecord.path_eq same
      rw [path, ← fs] at leads₀
      exact ⟨g, leads₀, looked.sound i r mem g leads₀⟩
    · have path : r.szFilePath = szFilePath := congrArg FileRecord.szFilePath same
      rw [← path, ← fs] at leads
      exact ⟨f, leads, looked.sound i r mem f leads⟩
  · rcases origin i r mem with ⟨r₀, mem₀, same⟩ | ⟨here, same, -⟩
    · have size := FileRecord.size_eq same
      exact size ▸ recorded.chain i r₀ mem₀
    · have size : r.FileSize = (s.fs.file f).data.length := congrArg FileRecord.FileSize same
      exact size.symm ▸ here
  · intro i j r mem r' mem' f' leads' equals
    rw [fs] at leads' equals
    have equals : r.identity.Equals c s.fs f' := FileRecord.equals_identity.mpr equals
    rcases origin i r mem with ⟨r₀, mem₀, same⟩ | ⟨here, same, differs⟩
    · rw [← same] at equals
      have equals := FileRecord.equals_identity.mp equals
      have path := FileRecord.path_eq same
      rcases origin j r' mem' with ⟨r₀', mem₀', same'⟩ | ⟨here', same', differs'⟩
      · have path' := FileRecord.path_eq same'
        rw [← path'] at leads'
        rw [← path, ← path']
        exact recorded.unique i j r₀ mem₀ r₀' mem₀' f' leads' equals
      · have path' : r'.szFilePath = szFilePath := congrArg FileRecord.szFilePath same'
        rw [path'] at leads'
        cases leads.symm.trans leads'
        have chain := recorded.chain i r₀ mem₀
        rw [equals.size] at chain
        subst chain
        exact (differs' r₀ mem₀ equals).elim
    · have path : r.szFilePath = szFilePath := congrArg FileRecord.szFilePath same
      rcases origin j r' mem' with ⟨r₀', mem₀', same'⟩ | ⟨-, same', -⟩
      · have path' := FileRecord.path_eq same'
        rw [← path'] at leads'
        obtain ⟨g', leads₀', describes⟩ := recorded.leads j r₀' mem₀'
        cases leads'.symm.trans leads₀'
        obtain ⟨g, leads_g, content_g⟩ := equals.same
        rw [same] at equals
        cases leads.symm.trans ((congrArg (c.lookup s.fs) path).symm.trans leads_g)
        have chain := recorded.chain j r₀' mem₀'
        rw [describes.size, ← equals.size] at chain
        subst chain
        exact (differs r₀' mem₀' ⟨describes.size.trans equals.size.symm,
          describes.volume.trans equals.volume.symm, f', leads', content_g.symm⟩).elim
      · have path' : r'.szFilePath = szFilePath := congrArg FileRecord.szFilePath same'
        rw [path, path']

/-- Nothing goes wrong with the records or the paths. -/
def Keeping (c : Config E F) (s s' : State E F) : Prop :=
  Recorded c s → Recorded c s' ∧ KeepsPaths c s s'

theorem Keeping.trans {s s' s'' : State E F} (first : Keeping c s s') (second : Keeping c s' s'') :
    Keeping c s s'' := by
  intro recorded
  obtain ⟨recorded, keeps⟩ := first recorded
  obtain ⟨recorded, keeps'⟩ := second recorded
  exact ⟨recorded, keeps.trans keeps'⟩

theorem OnlyAttributes.keeping {s s' : State E F} (attributes : OnlyAttributes s s') : Keeping c s s' :=
  fun recorded => ⟨attributes.recorded recorded, attributes.keepsPaths⟩

theorem Recorded.only {s : State E F} (recorded : Recorded c s) {i : Nat} {fr : FileRecord}
    (mem : fr ∈ s.table i) {name : E} {f : F} (equals : fr.Equals c s.fs f)
    (found : s.fs.names.lookup name = some f) {j : Nat} {r : FileRecord} (mem' : r ∈ s.table j)
    (leads : c.leads r.szFilePath = some name) : fr.szFilePath = r.szFilePath :=
  recorded.unique i j fr mem r mem' f (Option.bind_eq_some_iff.mpr ⟨name, leads, found⟩) equals

theorem keeping_splitLink [DecidableEq F] {szFilePath : Path} {fr : FileRecord} {i : Nat} {f : F} {s : State E F}
    (mem : fr ∈ s.table i) (leads : c.lookup s.fs szFilePath = some f)
    (leads_fr : c.lookup s.fs fr.szFilePath = some f) (recorded : Recorded c s) :
    Runs (· ≠ .called false) (splitLink c szFilePath fr) s fun _ s' =>
      Recorded c s' ∧ KeepsPaths c s s' := by
  apply runs_makeWritable
  intro dwFileAttrs s₂ attributes
  apply runs_bind (runs_deleteFile c szFilePath s₂)
  intro deleted s₃ deletes
  cases deleted with
  | false => exact absurd rfl (deletes.failed rfl).2
  | true =>
    apply runs_bind (runs_setFileAttributes c fr.szFilePath dwFileAttrs s₃)
    intro _ s₄ reset
    apply runs_bind (runs_copyFile c fr.szFilePath szFilePath s₄)
    intro _ s₅ copies
    apply runs_pure
    obtain ⟨recorded, keeps⟩ := attributes.keeping recorded
    rw [← attributes.lookup] at leads leads_fr
    rw [← attributes.table] at mem
    obtain ⟨name, f', leads_name, found, removed⟩ := deletes.removed rfl
    cases leads.symm.trans (Option.bind_eq_some_iff.mpr ⟨name, leads_name, found⟩)
    obtain ⟨other, g, replaces⟩ :=
      replaces_of_copy leads_name found leads_fr deletes.table removed reset copies
    refine ⟨replaces.recorded recorded fun j r mem' leads_r => ?_, keeps.trans replaces.keepsPaths⟩
    -- a record of the name would be the record of the file, which names it otherwise
    obtain ⟨g', leads_g', describes⟩ := recorded.leads i fr mem
    cases leads_fr.symm.trans leads_g'
    have equals : fr.Equals c s₂.fs f := ⟨describes.size, describes.volume, f, leads_fr, rfl⟩
    exact absurd (recorded.only mem equals found mem' leads_r ▸ leads_r) other

theorem runs_linkFiles {szFilePath : Path} {fr : FileRecord} (s : State E F) :
    Runs (· ≠ .called false) (linkFiles c szFilePath fr) s fun linked s' =>
      linked = true ∧ Links c fr.szFilePath szFilePath s s' := by
  apply runs_bind (runs_createHardLinkToFile c fr.szFilePath szFilePath s)
  intro linked s' ⟨worked, links⟩
  subst worked
  exact runs_pure ⟨rfl, links⟩

theorem Links.keeping {szFilePath : Path} {fr : FileRecord} {i : Nat} {f : F} {s s' : State E F}
    (links : Links c fr.szFilePath szFilePath s s') (whole : c.dwSkipSize = 0)
    (mem : fr ∈ s.table i) (leads : c.lookup s.fs szFilePath = some f)
    (equals : fr.Equals c s.fs f) : Keeping c s s' := by
  intro recorded
  obtain ⟨g, name, leads_g, leads_name, linked⟩ := links.linked
  obtain ⟨name', leads_name', found⟩ := Option.bind_eq_some_iff.mp leads
  cases leads_name.symm.trans leads_name'
  have others (name' : E) (ne : name' ≠ name) :
      s'.fs.names.lookup name' = s.fs.names.lookup name' := by
    rw [linked]
    exact AList.lookup_insert_ne ne
  have after : s'.fs.names.lookup name = some g := by
    rw [linked]
    exact AList.lookup_insert _
  have file (h : F) : (s'.fs.file h).Alike (s.fs.file h) := by
    rw [linked]
    exact ⟨rfl, rfl, rfl⟩
  have same : content c s.fs g = content c s.fs f := by
    obtain ⟨g', leads_g', content_g⟩ := equals.same
    cases leads_g.symm.trans leads_g'
    exact content_g
  rw [content, content, whole] at same
  have fewer (h : F) (exists_ : s'.fs.Exists h) : s.fs.Exists h := by
    obtain ⟨name', found'⟩ := FileSystem.exists_iff.mp exists_
    by_cases here : name' = name
    · subst here
      cases found'.symm.trans after
      exact exists_of_config_lookup leads_g
    · exact FileSystem.exists_of_lookup ((others name' here).symm.trans found')
  have replaces : Replaces s s' name f g :=
    { table := links.table
      before := found
      after
      others
      file := fun h _ => file h
      data := (file g).data.trans same
      identified := fun identified => identified.fewer fewer fun h _ => file h }
  refine ⟨replaces.recorded recorded fun j r mem' leads_r => ?_, replaces.keepsPaths⟩
  rw [recorded.only mem equals found mem' leads_r] at leads_g
  exact Option.some.inj (leads_g.symm.trans (Option.bind_eq_some_iff.mpr ⟨name, leads_r, found⟩))

theorem keeping_linkEqual {szFilePath : Path} {fr : FileRecord} {i : Nat} {f : F} {s : State E F}
    (whole : c.dwSkipSize = 0) (mem : fr ∈ s.table i) (leads : c.lookup s.fs szFilePath = some f)
    (equals : fr.Equals c s.fs f) [DecidableEq F] :
    Runs (· ≠ .called false) (linkEqual c szFilePath fr) s fun _ s' => Keeping c s s' := by
  unfold linkEqual
  by_cases force : c.bForceDelete = true
  · rw [if_pos force]
    apply runs_makeWritable
    intro dwFileAttrs s₂ attributes
    apply runs_bind (runs_linkFiles s₂)
    intro linked s₃ ⟨worked, links⟩
    subst worked
    refine runs_pure (attributes.keeping.trans (links.keeping whole (attributes.table ▸ mem) (f := f) ?_ ?_))
    · exact (attributes.lookup szFilePath).trans leads
    · obtain ⟨g, leads_g, content_g⟩ := equals.same
      refine ⟨?_, ?_, g, (attributes.lookup _).trans leads_g, ?_⟩
      · rw [(attributes.file f).data, equals.size]
      · rw [(attributes.file f).volume, equals.volume]
      · rw [content, content, (attributes.file g).data, (attributes.file f).data]
        exact content_g
  · rw [if_neg force]
    apply runs_bind (runs_linkFiles s)
    intro linked s' ⟨worked, links⟩
    exact runs_pure (links.keeping whole mem leads equals)

theorem keeping_chkfile [DecidableEq F] (delete : c.bDeleteEqual = false)
    (whole : c.bLinkEqual = true → c.dwSkipSize = 0) (szFilePath : Path) (nFileSize : Nat)
    {s : State E F} (recorded : Recorded c s) :
    Runs (· ≠ .called false) (chkfile c szFilePath nFileSize) s fun _ s' =>
      Recorded c s' ∧ KeepsPaths c s s' := by
  unfold chkfile
  apply runs_bind (reads_find c szFilePath s).runs
  intro found s₁ facts
  obtain ⟨quiet₁, seen⟩ := facts
  have keeping₁ : Keeping c s s₁ := quiet₁.onlyAttributes.keeping
  obtain ⟨recorded₁, keeps₁⟩ := keeping₁ recorded
  cases found with
  | some fr =>
    dsimp only
    rw [delete, Bool.false_and, if_neg Bool.false_ne_true]
    by_cases split : c.bSplitLinks = true
    swap
    · rw [if_neg split]
      exact runs_pure ⟨recorded₁, keeps₁⟩
    rw [if_pos split]
    obtain ⟨f, leads, same⟩ := seen.resolve_right fun absurd => by cases absurd.1
    have links : ¬ s.fs.nNumberOfLinks f ≤ 1 := by
      intro one
      rw [State.foundRecord, if_pos one] at same
      cases same
    rw [State.foundRecord, if_neg links] at same
    have mem := List.mem_of_find?_eq_some same.symm
    have told := List.find?_some same.symm
    obtain ⟨index, volume⟩ := of_decide_eq_true told
    obtain ⟨g, leads_g, describes⟩ := recorded.leads _ fr mem
    have same_file : g = f := recorded.identified g f (exists_of_config_lookup leads_g)
      (exists_of_config_lookup leads) (describes.volume.symm.trans volume)
      (describes.index.symm.trans index)
    subst same_file
    rw [← quiet₁.fs] at leads leads_g
    rw [← quiet₁.table] at mem
    refine (keeping_splitLink mem leads leads_g recorded₁).mono fun _ s₂ facts => ?_
    obtain ⟨recorded₂, keeps₂⟩ := facts
    exact ⟨recorded₂, keeps₁.trans keeps₂⟩
  | none =>
    show Runs _ (if 0 < c.dwSkipSize ∧ nFileSize ≤ c.dwSkipSize.toNat then _ else _) _ _
    by_cases short : 0 < c.dwSkipSize ∧ nFileSize ≤ c.dwSkipSize.toNat
    · rw [if_pos short]
      exact runs_pure ⟨recorded₁, keeps₁⟩
    rw [if_neg short]
    have sound : s₁.TableSound c := by
      intro i r mem f leads
      obtain ⟨f', leads', describes⟩ := recorded₁.leads i r mem
      cases leads.symm.trans leads'
      exact describes
    apply runs_bind (runs_findEqualOrAdd c szFilePath sound)
    intro found s₂ looked
    have keeps₂ : KeepsPaths c s s₂ :=
      keeps₁.trans fun _ f leads => ⟨f, looked.fs.symm ▸ leads, by rw [looked.fs]⟩
    have recorded₂ := looked.recorded recorded₁
    cases found with
    | none => exact runs_pure ⟨recorded₂, keeps₂⟩
    | some fr =>
      show Runs _ (if szFilePath = fr.szFilePath then _ else _) _ _
      by_cases same : szFilePath = fr.szFilePath
      · rw [if_pos same]
        exact runs_pure ⟨recorded₂, keeps₂⟩
      rw [if_neg same]
      apply runs_bind_ok (x := duplicate szFilePath fr.szFilePath) rfl
      rw [delete, if_neg Bool.false_ne_true]
      by_cases link : c.bLinkEqual = true
      swap
      · rw [if_neg link]
        exact runs_pure ⟨recorded₂, keeps₂⟩
      rw [if_pos link]
      obtain ⟨f, leads, mem, equals⟩ := looked.equal fr rfl
      rw [← looked.fs] at leads equals
      refine (keeping_linkEqual (whole link) mem leads equals).mono fun _ s₃ keeping₃ => ?_
      obtain ⟨recorded₃, keeps₃⟩ := keeping₃ recorded₂
      exact ⟨recorded₃, keeps₂.trans keeps₃⟩

/-- Splitting links and linking duplicates keep every path and what it leads to. -/
theorem dosubdir_keeps_paths [DecidableEq F] (delete : c.bDeleteEqual = false)
    (whole : c.bLinkEqual = true → c.dwSkipSize = 0) {s s' : State E F}
    (identified : s.fs.Identified) (empty : ∀ i, s.table i = []) {directory : Directory}
    {t : List Event} {completed : Bool} (run : dosubdir c directory [] s = .ok t completed s')
    (works : Works t) {szFilePath : Path} {f : F} (leads : c.lookup s.fs szFilePath = some f) :
    ∃ g, c.lookup s'.fs szFilePath = some g ∧ (s'.fs.file g).data = (s.fs.file f).data := by
  have walks : Walks (· ≠ .called false) c (Keeping c) :=
    { quiet := fun quiet => quiet.onlyAttributes.keeping
      trans := Keeping.trans
      chkfile := fun szFilePath nFileSize s =>
        Runs.imp fun recorded => keeping_chkfile delete whole szFilePath nFileSize recorded }
  have recorded : Recorded c s := by
    have none (i : Nat) (r : FileRecord) (mem : r ∈ s.table i) : False := by
      rw [empty] at mem
      cases mem
    exact ⟨identified, fun i r mem => (none i r mem).elim, fun i r mem => (none i r mem).elim,
      fun i _ r mem => (none i r mem).elim⟩
  have keeping := ((ensures_of_ok run).mp (walks.dosubdir directory [] s) works).2
  exact (keeping recorded).2 szFilePath f leads

end chkfile

/-- One file with two links, and `fdf -c *` on a volume that has room for one more file. -/
def splitConfig : Config Bool Bool where
  leads := fun szFilePath =>
    if szFilePath = [0x66] then some false else if szFilePath = [0x67] then some true else none
  answers := fun _ => true
  creates := fun fs =>
    if new : ∀ entry ∈ fs.names.entries, entry.2 ≠ true ∧ (fs.file entry.2).nFileIndex ≠ 2 then
      some
        { file := true
          dwVolumeSerialNumber := 7
          nFileIndex := 2
          fresh := fun ⟨_, mem⟩ => (new _ mem).1 rfl
          identified := fun _ ⟨_, mem⟩ _ => (new _ mem).2 }
    else none
  bBreak := fun _ => false
  argv := [[0x2a]]
  excluded := fun _ => false
  bSplitLinks := true

def splitListing : Directory := .mk .nil [[⟨[0x66], 1⟩, ⟨[0x67], 1⟩]]

def splitState : State Bool Bool where
  fs :=
    { names := ⟨[⟨false, false⟩, ⟨true, false⟩], by simp⟩
      file := fun _ => ⟨[5], 7, 1, fileAttributeNormal⟩ }
  table := fun _ => []
  calls := 0

theorem dosubdir_keeps_paths_split :
    (dosubdir splitConfig splitListing [] splitState).state.fs.nNumberOfLinks false = 1 ∧
    ∃ g, splitConfig.lookup (dosubdir splitConfig splitListing [] splitState).state.fs [0x67] = some g ∧
      ((dosubdir splitConfig splitListing [] splitState).state.fs.file g).data = [5] := by
  have run := Outcome.ok_of_value (o := dosubdir splitConfig splitListing [] splitState)
    (a := true) (by decide +kernel)
  have identified : splitState.fs.Identified := by
    intro f g ⟨_, mem_f⟩ ⟨_, mem_g⟩ _ _
    have only (h : Bool) {name : Bool} (mem : ⟨name, h⟩ ∈ splitState.fs.names.entries) : h = false := by
      rcases List.mem_cons.mp mem with same | mem
      · cases same
        rfl
      · cases List.mem_singleton.mp mem
        rfl
    rw [only f mem_f, only g mem_g]
  refine ⟨by decide +kernel, dosubdir_keeps_paths rfl (fun absurd => by cases absurd) identified
    (fun _ => rfl) run ?_ (f := false) rfl⟩
  unfold Works
  decide +kernel

end Fdf
