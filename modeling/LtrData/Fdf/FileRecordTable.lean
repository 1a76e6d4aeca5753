import LtrData.Fdf.FileCompare

namespace Fdf

open Traced

variable {E F : Type}

def fileRecordTableSize : Nat := 256

def chainOf (FileSize : Nat) : Nat := FileSize % 2 ^ 32 / 2 ^ 10 % fileRecordTableSize

def getChain (FileSize : Nat) : Run E F (List FileRecord) := fun s =>
  .ok [] (s.table (chainOf FileSize)) s

def setChain (FileSize : Nat) (chain : List FileRecord) : Run E F Unit := fun s =>
  .ok [] () { s with table := Function.update s.table (chainOf FileSize) chain }

/-- How the walk along a chain in FindEqualOrAdd ends. -/
inductive Search
  | failed
  | equal (record : FileRecord)
  | noMatch (checksum : Option Checksum)

variable [DecidableEq E]

def FileRecord.calculateChecksum (c : Config E F) (record : FileRecord) : Run E F (Option Checksum) := do
  match ← createFile c record.szFilePath with
  | none => pure none
  | some h =>
    let file ← fileOf h
    getFileCheckSum c (setFilePointer c.dwSkipSize file.data)

/-- A checksum is calculated when it is needed for the first time. -/
def calculated (checksum : Option Checksum) (calculate : Run E F (Option Checksum)) :
    Run E F (Option Checksum) :=
  match checksum with
  | some sum => pure (some sum)
  | none => calculate

/-- The walk along the chain, with the chain that it leaves. -/
def searchChain (c : Config E F) (szFilePath : Path) (info : FileData) :
    List FileRecord → Option Checksum → Run E F (List FileRecord × Search)
  | [], checksum => pure ([], .noMatch checksum)
  | record :: chain, checksum => do
    if record.FileSize = info.data.length ∧ record.dwVolumeSerial = info.dwVolumeSerialNumber then
      match ← calculated checksum (getFileCheckSum c (setFilePointer c.dwSkipSize info.data)) with
      | none => pure (record :: chain, .failed)
      | some sum =>
        match ← calculated record.checksum (record.calculateChecksum c) with
        | none => searchChain c szFilePath info chain (some sum)
        | some recordSum =>
          let record := { record with checksum := some recordSum }
          if recordSum = sum then
            match ← compareFiles c record.szFilePath szFilePath with
            | .equal => pure (record :: chain, .equal record)
            | .file1Failed => searchChain c szFilePath info chain (some sum)
            | _ =>
              let rest ← searchChain c szFilePath info chain (some sum)
              pure (record :: rest.1, rest.2)
          else
            let rest ← searchChain c szFilePath info chain (some sum)
            pure (record :: rest.1, rest.2)
    else
      let rest ← searchChain c szFilePath info chain checksum
      pure (record :: rest.1, rest.2)

def findEqualOrAdd (c : Config E F) (szFilePath : Path) : Run E F (Option FileRecord) := do
  match ← createFile c szFilePath with
  | none => pure none
  | some hFile =>
    if ← call c then
      let info ← fileOf hFile
      let chain ← getChain info.data.length
      let search ← searchChain c szFilePath info chain none
      setChain info.data.length search.1
      match search.2 with
      | .failed => pure none
      | .equal record => pure (some record)
      | .noMatch checksum =>
        setChain info.data.length
          ({ FileSize := info.data.length
             FileIndex := info.nFileIndex
             checksum
             dwVolumeSerial := info.dwVolumeSerialNumber
             szFilePath } :: search.1)
        pure none
    else pure none

/-- Files with only one link are not found, since the link may be the same through a junction. -/
def find [DecidableEq F] (c : Config E F) (szFilePath : Path) : Run E F (Option FileRecord) := do
  match ← createFile c szFilePath with
  | none => pure none
  | some hFile =>
    if ← call c then
      let info ← fileOf hFile
      if (← linksOf hFile) ≤ 1 then pure none
      else
        let chain ← getChain info.data.length
        pure (chain.find? fun record =>
          record.FileIndex = info.nFileIndex ∧ record.dwVolumeSerial = info.dwVolumeSerialNumber)
    else pure none

/-- A record without the checksum, which comes later than the record. -/
def FileRecord.identity (record : FileRecord) : FileRecord := { record with checksum := none }

theorem FileRecord.path_eq {r r' : FileRecord} (same : r.identity = r'.identity) :
    r.szFilePath = r'.szFilePath := by
  show r.identity.szFilePath = r'.identity.szFilePath
  rw [same]

theorem FileRecord.size_eq {r r' : FileRecord} (same : r.identity = r'.identity) :
    r.FileSize = r'.FileSize := by
  show r.identity.FileSize = r'.identity.FileSize
  rw [same]

/-- What a record says of a file. -/
structure FileRecord.Describes (c : Config E F) (fs : FileSystem E F) (record : FileRecord) (f : F) :
    Prop where
  size : record.FileSize = (fs.file f).data.length
  index : record.FileIndex = (fs.file f).nFileIndex
  volume : record.dwVolumeSerial = (fs.file f).dwVolumeSerialNumber
  checksum : ∀ sum, record.checksum = some sum → sum = checksumOf (content c fs f)

/-- The path of a record leads to the file described, if it leads anywhere. -/
def FileRecord.Sound (c : Config E F) (fs : FileSystem E F) (record : FileRecord) : Prop :=
  ∀ f, c.lookup fs record.szFilePath = some f → record.Describes c fs f

/-- The same volume serial number, size and content. -/
structure FileRecord.Equals (c : Config E F) (fs : FileSystem E F) (f : F) (record : FileRecord) :
    Prop where
  size : record.FileSize = (fs.file f).data.length
  volume : record.dwVolumeSerial = (fs.file f).dwVolumeSerialNumber
  same : ∃ g, c.lookup fs record.szFilePath = some g ∧ content c fs g = content c fs f

/-- What a search finds in a chain, and what it does to the chain. -/
structure Searched (kept : Event → Prop) (c : Config E F) (fs : FileSystem E F) (f : F)
    (chain : List FileRecord) (result : List FileRecord × Search) : Prop where
  sound : ∀ r ∈ result.1, r.Sound c fs
  equal : ∀ r, result.2 = .equal r → r ∈ result.1 ∧ r.Equals c fs f
  checksum : ∀ sum, result.2 = .noMatch (some sum) → sum = checksumOf (content c fs f)
  works : kept (.called false) ∨
    result.1.map FileRecord.identity = chain.map FileRecord.identity ∧ result.2 ≠ .failed ∧
      ∀ checksum, result.2 = .noMatch checksum → ∀ r ∈ chain, ¬ r.Equals c fs f

section search

variable {kept : Event → Prop} {c : Config E F} {fs : FileSystem E F} {f : F}

theorem FileRecord.equals_identity {r : FileRecord} : r.identity.Equals c fs f ↔ r.Equals c fs f :=
  ⟨fun h => ⟨h.size, h.volume, h.same⟩, fun h => ⟨h.size, h.volume, h.same⟩⟩

theorem Searched.keep {r r' : FileRecord} {chain : List FileRecord}
    {result : List FileRecord × Search} (rest : Searched kept c fs f chain result)
    (same : r'.identity = r.identity) (sound : r'.Sound c fs)
    (differs : kept (.called false) ∨ ¬ r.Equals c fs f) :
    Searched kept c fs f (r :: chain) (r' :: result.1, result.2) where
  sound := by
    intro r₁ mem
    rcases List.mem_cons.mp mem with rfl | mem
    · exact sound
    · exact rest.sound r₁ mem
  equal := fun r₁ equal =>
    ⟨List.mem_cons_of_mem _ (rest.equal r₁ equal).1, (rest.equal r₁ equal).2⟩
  checksum := rest.checksum
  works := by
    rcases differs with failed | differs
    · exact .inl failed
    rcases rest.works with failed | ⟨records, works, unequal⟩
    · exact .inl failed
    refine .inr ⟨by rw [List.map_cons, List.map_cons, records, same], works, fun checksum none r₁ mem => ?_⟩
    rcases List.mem_cons.mp mem with rfl | mem
    · exact differs
    · exact unequal checksum none r₁ mem

/-- Records are deleted only when a call fails. -/
theorem Searched.delete {r : FileRecord} {chain : List FileRecord}
    {result : List FileRecord × Search} (rest : Searched kept c fs f chain result)
    (failed : kept (.called false)) : Searched kept c fs f (r :: chain) result where
  sound := rest.sound
  equal := rest.equal
  checksum := rest.checksum
  works := .inl failed

theorem searched_failed {chain : List FileRecord} (sound : ∀ r ∈ chain, r.Sound c fs)
    (failed : kept (.called false)) : Searched kept c fs f chain (chain, .failed) where
  sound := sound
  equal := fun _ absurd => by cases absurd
  checksum := fun _ absurd => by cases absurd
  works := .inl failed

theorem searched_end {checksum : Option Checksum}
    (exact_ : ∀ sum, checksum = some sum → sum = checksumOf (content c fs f)) :
    Searched kept c fs f [] ([], .noMatch checksum) where
  sound := fun _ absurd => by cases absurd
  equal := fun _ absurd => by cases absurd
  checksum := fun sum same => exact_ sum (by cases same; rfl)
  works := .inr ⟨rfl, fun absurd => (by cases absurd), fun _ _ _ absurd => by cases absurd⟩

theorem searched_found {r r' : FileRecord} {chain : List FileRecord}
    (sound : ∀ r ∈ chain, r.Sound c fs) (sound' : r'.Sound c fs) (same : r'.identity = r.identity)
    (equal : r'.Equals c fs f) :
    Searched kept c fs f (r :: chain) (r' :: chain, .equal r') where
  sound := by
    intro r₁ mem
    rcases List.mem_cons.mp mem with rfl | mem
    · exact sound'
    · exact sound r₁ mem
  equal := by
    intro r₁ found
    cases found
    exact ⟨List.mem_cons_self, equal⟩
  checksum := fun _ absurd => by cases absurd
  works := .inr ⟨by rw [List.map_cons, List.map_cons, same], fun absurd => (by cases absurd),
    fun _ absurd => by cases absurd⟩

end search

theorem reads_calculateChecksum {kept : Event → Prop} (c : Config E F) (record : FileRecord)
    (s : State E F) : Reads kept (record.calculateChecksum c) s fun checksum =>
      (∃ g, c.lookup s.fs record.szFilePath = some g ∧
        checksum = some (checksumOf (content c s.fs g))) ∨ checksum = none ∧ kept (.called false) := by
  apply reads_bind (reads_onFile c record.szFilePath s)
  intro found s' quiet opened
  rcases opened with ⟨g, leads, rfl⟩ | ⟨rfl, failed⟩
  · apply reads_bind (reads_fileOf g s')
    intro file s'' quiet' same
    rw [same, quiet.fs]
    apply (reads_getFileCheckSum c _ s'').mono
    intro checksum summed
    rcases summed with same | failed
    · exact .inl ⟨g, leads, same⟩
    · exact .inr failed
  · exact reads_pure (.inr ⟨rfl, failed⟩)

omit [DecidableEq E] in
theorem reads_calculated {kept : Event → Prop} {checksum : Option Checksum}
    {calculate : Run E F (Option Checksum)} {s : State E F} {Q : Option Checksum → Prop}
    (known : ∀ sum, checksum = some sum → Q (some sum)) (reads : Reads kept calculate s Q) :
    Reads kept (calculated checksum calculate) s Q := by
  cases checksum with
  | none => exact reads
  | some sum => exact reads_pure (known sum rfl)

theorem equals_of_compared {c : Config E F} {fs : FileSystem E F} {szFilePath : Path} {f : F}
    {record : FileRecord} (leads : c.lookup fs szFilePath = some f) (sound : record.Sound c fs)
    (key : record.FileSize = (fs.file f).data.length ∧
      record.dwVolumeSerial = (fs.file f).dwVolumeSerialNumber)
    (sum : record.checksum = some (checksumOf (content c fs f)))
    (same : SameFiles c fs record.szFilePath szFilePath) : record.Equals c fs f := by
  obtain ⟨g, f', leads_g, leads_f, blocks⟩ := same
  cases leads.symm.trans leads_f
  exact ⟨key.1, key.2, g, leads_g, content_exact blocks ((sound g leads_g).checksum _ sum).symm⟩

theorem not_equals_of_compared {kept : Event → Prop} {c : Config E F} {fs : FileSystem E F}
    {szFilePath : Path} {f : F} {record : FileRecord} {status : CompareStatus}
    (leads : c.lookup fs szFilePath = some f)
    (compared : Compared kept (SameFiles c fs record.szFilePath szFilePath) status)
    (unequal : status ≠ .equal) : kept (.called false) ∨ ¬ record.Equals c fs f := by
  by_cases failed : kept (.called false)
  · exact .inl failed
  refine .inr fun equals => ?_
  obtain ⟨g, leads_g, content_g⟩ := equals.same
  have same : SameFiles c fs record.szFilePath szFilePath :=
    ⟨g, f, leads_g, leads, content_g ▸ sameBlocks_refl _⟩
  rcases compared.complete same with equal | failed'
  · exact unequal equal
  · exact failed failed'

theorem reads_recordChecksum {kept : Event → Prop} (c : Config E F) {record : FileRecord}
    (s : State E F) (sound : record.Sound c s.fs) :
    Reads kept (calculated record.checksum (record.calculateChecksum c)) s fun checksum =>
      (∃ recordSum, checksum = some recordSum ∧
        { record with checksum := some recordSum }.Sound c s.fs) ∨
      checksum = none ∧ kept (.called false) := by
  have summed {recordSum : Checksum}
      (right : ∀ g, c.lookup s.fs record.szFilePath = some g →
        recordSum = checksumOf (content c s.fs g)) :
      { record with checksum := some recordSum }.Sound c s.fs := by
    intro g leads
    have described := sound g leads
    exact ⟨described.size, described.index, described.volume,
      fun sum same => Option.some.inj same ▸ right g leads⟩
  apply reads_calculated
  · intro recordSum stored
    exact .inl ⟨recordSum, rfl, summed fun g leads => (sound g leads).checksum recordSum stored⟩
  · apply (reads_calculateChecksum c record s).mono
    intro checksum calculated
    rcases calculated with ⟨g, leads, rfl⟩ | failed
    · refine .inl ⟨_, rfl, summed fun g' leads' => ?_⟩
      cases leads.symm.trans leads'
      rfl
    · exact .inr failed

theorem reads_searchChain {kept : Event → Prop} (c : Config E F) {fs : FileSystem E F}
    {szFilePath : Path} {f : F} (leads : c.lookup fs szFilePath = some f) (chain : List FileRecord)
    (sound : ∀ r ∈ chain, r.Sound c fs) (checksum : Option Checksum)
    (known : ∀ sum, checksum = some sum → sum = checksumOf (content c fs f)) (s : State E F)
    (same : s.fs = fs) :
    Reads kept (searchChain c szFilePath (fs.file f) chain checksum) s (Searched kept c fs f chain) := by
  induction chain generalizing checksum s with
  | nil => exact reads_pure (searched_end known)
  | cons record chain ih =>
    have sound_rest : ∀ r ∈ chain, r.Sound c fs := fun r mem => sound r (List.mem_cons_of_mem _ mem)
    have sound_record := sound record List.mem_cons_self
    -- the record stays, with its checksum if it has been calculated
    have keeps (r : FileRecord) (identity : r.identity = record.identity) (sound : r.Sound c fs)
        (differs : kept (.called false) ∨ ¬ record.Equals c fs f) (checksum : Option Checksum)
        (known : ∀ sum, checksum = some sum → sum = checksumOf (content c fs f)) (s : State E F)
        (same : s.fs = fs) :
        Reads kept (do
          let rest ← searchChain c szFilePath (fs.file f) chain checksum
          pure (r :: rest.1, rest.2)) s (Searched kept c fs f (record :: chain)) := by
      apply reads_bind (ih sound_rest checksum known s same)
      intro result s' _ searched
      exact reads_pure (searched.keep identity sound differs)
    unfold searchChain
    by_cases key : record.FileSize = (fs.file f).data.length ∧
      record.dwVolumeSerial = (fs.file f).dwVolumeSerialNumber
    swap
    · rw [if_neg key]
      exact keeps record rfl sound_record (.inr fun equals => key ⟨equals.size, equals.volume⟩)
        checksum known s same
    rw [if_pos key]
    apply reads_bind (Q := fun sum => sum = some (checksumOf (content c fs f)) ∨
      sum = none ∧ kept (.called false))
      (reads_calculated (fun sum same => .inl (congrArg some (known sum same)))
        (reads_getFileCheckSum c (content c fs f) s))
    intro sum s' quiet summed
    rcases summed with rfl | ⟨rfl, failed⟩
    swap
    · exact reads_pure (searched_failed sound failed)
    have known : ∀ sum, some (checksumOf (content c fs f)) = some sum →
        sum = checksumOf (content c fs f) := fun sum same => (Option.some.inj same).symm
    have same' : s'.fs = fs := quiet.fs.trans same
    apply reads_bind (reads_recordChecksum c s' (same' ▸ sound_record))
    intro recordSum s'' quiet' summed
    have same'' : s''.fs = fs := quiet'.fs.trans same'
    rcases summed with ⟨recordSum, rfl, summed⟩ | ⟨rfl, failed⟩
    swap
    · exact (ih sound_rest _ known s'' same'').mono fun result searched => searched.delete failed
    rw [same'] at summed
    have keeps := keeps { record with checksum := some recordSum } rfl summed
    show Reads _ (if recordSum = checksumOf (content c fs f) then _ else _) _ _
    by_cases sums : recordSum = checksumOf (content c fs f)
    swap
    · rw [if_neg sums]
      refine keeps (.inr fun equals => sums ?_) _ known s'' same''
      obtain ⟨g, leads_g, content_g⟩ := equals.same
      rw [(summed g leads_g).checksum recordSum rfl, content_g]
    rw [if_pos sums]
    apply reads_bind (reads_compareFiles c record.szFilePath szFilePath s'')
    intro status s₁ quiet₁ compared
    rw [same''] at compared
    have same₁ : s₁.fs = fs := quiet₁.fs.trans same''
    have differs := not_equals_of_compared leads compared
    cases status with
    | equal =>
      exact reads_pure (searched_found sound_rest summed rfl
        (equals_of_compared leads summed key (congrArg some sums) (compared.sound rfl)))
    | file1Failed =>
      exact (ih sound_rest _ known s₁ same₁).mono fun result searched =>
        searched.delete (compared.works rfl)
    | file2Failed => exact keeps (differs (by decide)) _ known s₁ same₁
    | file1Longer => exact keeps (differs (by decide)) _ known s₁ same₁
    | file2Longer => exact keeps (differs (by decide)) _ known s₁ same₁
    | notEqual => exact keeps (differs (by decide)) _ known s₁ same₁

/-- The record that FindEqualOrAdd adds, but for the checksum. -/
def newRecord (fs : FileSystem E F) (szFilePath : Path) (f : F) : FileRecord where
  FileSize := (fs.file f).data.length
  FileIndex := (fs.file f).nFileIndex
  checksum := none
  dwVolumeSerial := (fs.file f).dwVolumeSerialNumber
  szFilePath

def State.TableSound (c : Config E F) (s : State E F) : Prop := ∀ i, ∀ r ∈ s.table i, r.Sound c s.fs

def State.records (s : State E F) (i : Nat) : List FileRecord := (s.table i).map FileRecord.identity

def State.chain (s : State E F) (f : F) : Nat := chainOf (s.fs.file f).data.length

/-- What FindEqualOrAdd does to the table. -/
structure Looked (kept : Event → Prop) (c : Config E F) (szFilePath : Path) (s : State E F)
    (found : Option FileRecord) (s' : State E F) : Prop where
  fs : s'.fs = s.fs
  sound : s'.TableSound c
  equal : ∀ r, found = some r → ∃ f, c.lookup s.fs szFilePath = some f ∧ r ∈ s'.table (s.chain f) ∧
    r.Equals c s.fs f
  works : kept (.called false) ∨ ∃ f, c.lookup s.fs szFilePath = some f ∧
    (found ≠ none → ∀ i, s'.records i = s.records i) ∧
    (found = none → (∀ r ∈ s.table (s.chain f), ¬ r.Equals c s.fs f) ∧
      ∀ i, s'.records i =
        if i = s.chain f then newRecord s.fs szFilePath f :: s.records i else s.records i)

section looked

variable {kept : Event → Prop} {c : Config E F} {szFilePath : Path} {s : State E F} {f : F}

theorem looked_failed {s' : State E F} (quiet : Quiet s s') (sound : s.TableSound c)
    (failed : kept (.called false)) : Looked kept c szFilePath s none s' where
  fs := quiet.fs
  sound := fun i r mem => by
    rw [quiet.table] at mem
    rw [quiet.fs]
    exact sound i r mem
  equal := fun _ absurd => by cases absurd
  works := .inl failed

omit [DecidableEq E] in
theorem records_update (s : State E F) (fs : FileSystem E F) (i j : Nat) (chain : List FileRecord)
    (calls : Nat) : State.records ⟨fs, Function.update s.table i chain, calls⟩ j =
      if j = i then chain.map FileRecord.identity else s.records j := by
  show (Function.update s.table i chain j).map _ = _
  rw [Function.update_apply]
  split <;> rfl

theorem sound_update {chain : List FileRecord} (sound : s.TableSound c)
    (sound' : ∀ r ∈ chain, r.Sound c s.fs) (i calls : Nat) :
    State.TableSound c ⟨s.fs, Function.update s.table i chain, calls⟩ := by
  intro j r mem
  change r ∈ Function.update s.table i chain j at mem
  rw [Function.update_apply] at mem
  split at mem
  · exact sound' r mem
  · exact sound j r mem

theorem looked_found {chain : List FileRecord} {r : FileRecord} {calls : Nat}
    (leads : c.lookup s.fs szFilePath = some f) (sound : s.TableSound c)
    (searched : Searched kept c s.fs f (s.table (s.chain f)) (chain, .equal r)) :
    Looked kept c szFilePath s (some r)
      ⟨s.fs, Function.update s.table (s.chain f) chain, calls⟩ where
  fs := rfl
  sound := sound_update sound searched.sound _ _
  equal := by
    intro r' same
    cases same
    refine ⟨f, leads, ?_, (searched.equal r rfl).2⟩
    show r ∈ Function.update s.table (s.chain f) chain (s.chain f)
    rw [Function.update_self]
    exact (searched.equal r rfl).1
  works := by
    rcases searched.works with failed | ⟨records, -, -⟩
    · exact .inl failed
    refine .inr ⟨f, leads, fun _ i => ?_, fun absurd => by cases absurd⟩
    rw [records_update]
    split
    · subst i
      exact records
    · rfl

theorem looked_failed_search {chain : List FileRecord} {calls : Nat} (sound : s.TableSound c)
    (searched : Searched kept c s.fs f (s.table (s.chain f)) (chain, .failed)) :
    Looked kept c szFilePath s none ⟨s.fs, Function.update s.table (s.chain f) chain, calls⟩ where
  fs := rfl
  sound := sound_update sound searched.sound _ _
  equal := fun _ absurd => by cases absurd
  works := searched.works.imp id fun works => absurd rfl works.2.1

theorem looked_added {chain : List FileRecord} {checksum : Option Checksum} {calls : Nat}
    (leads : c.lookup s.fs szFilePath = some f) (sound : s.TableSound c)
    (searched : Searched kept c s.fs f (s.table (s.chain f)) (chain, .noMatch checksum)) :
    Looked kept c szFilePath s none ⟨s.fs, Function.update s.table (s.chain f)
      ({ newRecord s.fs szFilePath f with checksum } :: chain), calls⟩ where
  fs := rfl
  sound := by
    refine sound_update sound (fun r mem => ?_) _ _
    rcases List.mem_cons.mp mem with rfl | mem
    · intro g leads_g
      cases leads.symm.trans leads_g
      exact ⟨rfl, rfl, rfl, fun sum same => searched.checksum sum (congrArg Search.noMatch same)⟩
    · exact searched.sound r mem
  equal := fun _ absurd => by cases absurd
  works := by
    rcases searched.works with failed | ⟨records, -, unequal⟩
    · exact .inl failed
    refine .inr ⟨f, leads, fun found => absurd rfl found, fun _ => ⟨unequal checksum rfl, fun i => ?_⟩⟩
    rw [records_update]
    split
    · subst i
      rw [List.map_cons, records]
      rfl
    · rfl

end looked

theorem runs_findEqualOrAdd {kept : Event → Prop} (c : Config E F) (szFilePath : Path)
    {s : State E F} (sound : s.TableSound c) :
    Runs kept (findEqualOrAdd c szFilePath) s (Looked kept c szFilePath s) := by
  apply runs_bind (reads_onFile c szFilePath s).runs
  intro found s₁ ⟨quiet₁, opened⟩
  rcases opened with ⟨f, leads, rfl⟩ | ⟨rfl, failed⟩
  swap
  · exact runs_pure (looked_failed quiet₁ sound failed)
  apply runs_bind (reads_call c s₁).runs
  intro succeeded s₂ ⟨quiet₂, informed⟩
  have quiet : Quiet s s₂ := quiet₁.trans quiet₂
  cases succeeded with
  | false => exact runs_pure (looked_failed quiet sound informed)
  | true =>
    apply runs_bind (reads_fileOf f s₂).runs
    intro info s₃ ⟨quiet₃, same⟩
    rw [quiet.fs] at same
    subst same
    have quiet := quiet.trans quiet₃
    apply runs_bind_ok (x := getChain _) rfl
    rw [quiet.table]
    apply runs_bind (reads_searchChain c leads (s.table (s.chain f)) (sound _) none
      (fun _ absurd => by cases absurd) s₃ quiet.fs).runs
    intro ⟨chain, search⟩ s₄ ⟨quiet₄, searched⟩
    have quiet := quiet.trans quiet₄
    apply runs_bind_ok (x := setChain _ _) rfl
    rw [quiet.fs, quiet.table]
    cases search with
    | failed => exact runs_pure (looked_failed_search sound searched)
    | equal record => exact runs_pure (looked_found leads sound searched)
    | noMatch checksum =>
      apply runs_bind_ok (x := setChain _ _) rfl
      apply runs_pure
      dsimp only
      rw [Function.update_idem]
      exact looked_added leads sound searched

theorem Looked.records {c : Config E F} {szFilePath : Path} {s s' : State E F}
    {found : Option FileRecord} (looked : Looked (· ≠ .called false) c szFilePath s found s') :
    ∃ f, c.lookup s.fs szFilePath = some f ∧
      (found ≠ none → ∀ i, s'.records i = s.records i) ∧
      (found = none → (∀ r ∈ s.table (s.chain f), ¬ r.Equals c s.fs f) ∧
        ∀ i, s'.records i =
          if i = s.chain f then newRecord s.fs szFilePath f :: s.records i else s.records i) :=
  looked.works.resolve_left fun failed => failed rfl

def State.foundRecord [DecidableEq F] (s : State E F) (f : F) : Option FileRecord :=
  if s.fs.nNumberOfLinks f ≤ 1 then none
  else (s.table (s.chain f)).find? fun record =>
    record.FileIndex = (s.fs.file f).nFileIndex ∧
      record.dwVolumeSerial = (s.fs.file f).dwVolumeSerialNumber

theorem reads_find [DecidableEq F] {kept : Event → Prop} (c : Config E F) (szFilePath : Path)
    (s : State E F) : Reads kept (find c szFilePath) s fun found =>
      (∃ f, c.lookup s.fs szFilePath = some f ∧ found = s.foundRecord f) ∨
        found = none ∧ kept (.called false) := by
  apply reads_bind (reads_onFile c szFilePath s)
  intro found s₁ quiet₁ opened
  rcases opened with ⟨f, leads, rfl⟩ | ⟨rfl, failed⟩
  swap
  · exact reads_pure (.inr ⟨rfl, failed⟩)
  apply reads_bind (reads_call c s₁)
  intro succeeded s₂ quiet₂ informed
  have quiet : Quiet s s₂ := quiet₁.trans quiet₂
  cases succeeded with
  | false => exact reads_pure (.inr ⟨rfl, informed⟩)
  | true =>
    apply reads_bind (reads_fileOf f s₂)
    intro info s₃ quiet₃ same
    have quiet₃ := quiet.trans quiet₃
    apply reads_bind (Q := (· = s.fs.nNumberOfLinks f))
      (reads_of_ok (x := linksOf f) rfl ⟨rfl, rfl⟩ fun _ => by rw [quiet₃.fs])
    intro links s₄ quiet₄ counted
    have quiet₄ := quiet₃.trans quiet₄
    subst same counted
    rw [quiet.fs]
    by_cases one : s.fs.nNumberOfLinks f ≤ 1
    · rw [if_pos one]
      exact reads_pure (.inl ⟨f, leads, (if_pos one).symm⟩)
    · rw [if_neg one]
      apply reads_bind (Q := (· = s.table (s.chain f)))
        (reads_of_ok (x := getChain _) rfl ⟨rfl, rfl⟩ fun _ => by rw [quiet₄.table]; rfl)
      intro chain s₅ _ same
      subst same
      exact reads_pure (.inl ⟨f, leads, (if_neg one).symm⟩)

end Fdf
