import LtrData.Fdf.FileRecordTable

namespace Fdf

open Traced

variable {E F : Type} [DecidableEq E]

/-- Calls to FindEqualOrAdd, one after the other, on a volume that does not fail. -/
inductive Searches (c : Config E F) (s : State E F) : State E F → Prop
  | start : Searches c s s
  | call {s' s'' : State E F} {szFilePath : Path} {t : List Event} {found : Option FileRecord}
      (earlier : Searches c s s') (run : findEqualOrAdd c szFilePath s' = .ok t found s'')
      (works : Works t) : Searches c s s''

/-- The same volume serial number and size, and the same bytes from the skip size on. -/
structure FileRecord.SameContent (c : Config E F) (fs : FileSystem E F) (f : F) (record : FileRecord) :
    Prop where
  size : record.FileSize = (fs.file f).data.length
  volume : record.dwVolumeSerial = (fs.file f).dwVolumeSerialNumber
  same : ∃ g, c.lookup fs record.szFilePath = some g ∧
    (fs.file g).data.drop c.dwSkipSize.toNat = (fs.file f).data.drop c.dwSkipSize.toNat

theorem equals_iff_sameContent {c : Config E F} {fs : FileSystem E F} {f : F} {record : FileRecord}
    (small : c.dwSkipSize.toNat < 2 ^ 31) : record.Equals c fs f ↔ record.SameContent c fs f := by
  have content_drop (f : F) : content c fs f = (fs.file f).data.drop c.dwSkipSize.toNat := if_pos small
  constructor
  · intro equals
    obtain ⟨g, leads, same⟩ := equals.same
    rw [content_drop, content_drop] at same
    exact ⟨equals.size, equals.volume, g, leads, same⟩
  · intro sameContent
    obtain ⟨g, leads, same⟩ := sameContent.same
    rw [← content_drop, ← content_drop] at same
    exact ⟨sameContent.size, sameContent.volume, g, leads, same⟩

/-- The records are in the chains of their sizes, and say what the files are like. -/
structure State.WellFormed (c : Config E F) (s : State E F) : Prop where
  sound : s.TableSound c
  chain : ∀ i, ∀ r ∈ s.records i, i = chainOf r.FileSize

theorem wellFormed_empty (c : Config E F) {s : State E F} (empty : ∀ i, s.table i = []) :
    s.WellFormed c where
  sound := fun i r mem => by
    rw [empty] at mem
    cases mem
  chain := fun i r mem => by
    rw [State.records, empty] at mem
    cases mem

theorem looked_of_run {c : Config E F} {szFilePath : Path} {s s' : State E F} {t : List Event}
    {found : Option FileRecord} (run : findEqualOrAdd c szFilePath s = .ok t found s')
    (works : Works t) (sound : s.TableSound c) :
    Looked (· ≠ .called false) c szFilePath s found s' :=
  ((ensures_of_ok run).mp (runs_findEqualOrAdd c szFilePath sound) works).2

theorem Looked.wellFormed {c : Config E F} {szFilePath : Path} {s s' : State E F}
    {found : Option FileRecord} (looked : Looked (· ≠ .called false) c szFilePath s found s')
    (wellFormed : s.WellFormed c) : s'.WellFormed c where
  sound := looked.sound
  chain := by
    intro i r mem
    obtain ⟨f, -, kept, added⟩ := looked.records
    by_cases none : found = none
    · rw [(added none).2] at mem
      by_cases here : i = s.chain f
      · rw [if_pos here] at mem
        rcases List.mem_cons.mp mem with rfl | mem
        · exact here
        · exact wellFormed.chain i r mem
      · rw [if_neg here] at mem
        exact wellFormed.chain i r mem
    · rw [kept none] at mem
      exact wellFormed.chain i r mem

theorem Searches.wellFormed {c : Config E F} {s s' : State E F} (searches : Searches c s s')
    (empty : ∀ i, s.table i = []) : s'.WellFormed c ∧ s'.fs = s.fs := by
  induction searches with
  | start => exact ⟨wellFormed_empty c empty, rfl⟩
  | call earlier run works ih =>
    have looked := looked_of_run run works ih.1.sound
    exact ⟨looked.wellFormed ih.1, looked.fs.trans ih.2⟩

/-- A search of the whole table finds what the search of one chain finds. -/
theorem exists_record_iff {c : Config E F} {s : State E F} {f : F} (wellFormed : s.WellFormed c) :
    (∃ i, ∃ r ∈ s.records i, r.Equals c s.fs f) ↔ ∃ r ∈ s.table (s.chain f), r.Equals c s.fs f := by
  constructor
  · intro facts
    rcases facts with ⟨i, r, mem, equals⟩
    have chain := wellFormed.chain i r mem
    rw [equals.size] at chain
    obtain ⟨r', mem', rfl⟩ := List.mem_map.mp mem
    subst chain
    exact ⟨r', mem', FileRecord.equals_identity.mp equals⟩
  · intro facts
    rcases facts with ⟨r, mem, equals⟩
    exact ⟨s.chain f, r.identity, List.mem_map_of_mem mem, FileRecord.equals_identity.mpr equals⟩

theorem findEqualOrAdd_equals {c : Config E F} {s s' : State E F} {szFilePath : Path} {t : List Event}
    {found : Option FileRecord} (wellFormed : s.WellFormed c)
    (run : findEqualOrAdd c szFilePath s = .ok t found s') (works : Works t) :
    ∃ f, c.lookup s.fs szFilePath = some f ∧
      (found ≠ none ↔ ∃ i, ∃ r ∈ s.records i, r.Equals c s.fs f) ∧
      (∀ r, found = some r → r.Equals c s.fs f ∧ ∃ i, r.identity ∈ s.records i) ∧
      (found ≠ none → ∀ i, s'.records i = s.records i) ∧
      (found = none → ∀ i, s'.records i =
        if i = s.chain f then newRecord s.fs szFilePath f :: s.records i else s.records i) := by
  have looked := looked_of_run run works wellFormed.sound
  obtain ⟨f, leads, kept, added⟩ := looked.records
  have returned (r : FileRecord) (same : found = some r) :
      r.Equals c s.fs f ∧ ∃ i, r.identity ∈ s.records i := by
    obtain ⟨f', leads', mem, equals⟩ := looked.equal r same
    cases leads.symm.trans leads'
    refine ⟨equals, s.chain f, ?_⟩
    rw [← kept (same ▸ Option.some_ne_none r)]
    exact List.mem_map_of_mem mem
  refine ⟨f, leads, ⟨fun some => ?_, fun exists_ none => ?_⟩, returned, kept, fun none => (added none).2⟩
  · obtain ⟨r, same⟩ := Option.ne_none_iff_exists'.mp some
    obtain ⟨equals, i, mem⟩ := returned r same
    exact ⟨i, r.identity, mem, FileRecord.equals_identity.mpr equals⟩
  · obtain ⟨r, mem, equals⟩ := (exists_record_iff wellFormed).mp exists_
    exact (added none).1 r mem equals

section answered

variable {c : Config E F} (answers : ∀ n, c.answers n = true)

/-- A run that only looks, and whose calls all succeed. -/
def Answered {α : Type} (x : Run E F α) (s : State E F) (Q : α → Prop) : Prop :=
  Provided (fun _ => True) (· ≠ .called false) x s fun _ a s' => Quiet s s' ∧ Q a

omit [DecidableEq E] in
theorem answered_pure {α : Type} {a : α} {s : State E F} {Q : α → Prop} (h : Q a) :
    Answered (pure a : Run E F α) s Q := provided_pure ⟨⟨rfl, rfl⟩, h⟩

omit [DecidableEq E] in
theorem answered_bind {α β : Type} {x : Run E F α} {f : α → Run E F β} {s : State E F} {Q : α → Prop}
    {Q' : β → Prop} (first : Answered x s Q)
    (next : ∀ a s', Quiet s s' → Q a → Answered (f a) s' Q') : Answered (x >>= f) s Q' := by
  refine provided_bind first fun _ a s' h => ?_
  exact (next a s' h.1 h.2).mono fun _ _ _ h' => ⟨h.1.trans h'.1, h'.2⟩

include answers

omit [DecidableEq E] in
theorem answered_call (s : State E F) : Answered (call c) s (· = true) := by
  refine provided_of_ok (x := call c) rfl (fun e mem => ?_) fun _ => ⟨⟨rfl, rfl⟩, answers _⟩
  rw [List.mem_singleton.mp mem, answers]
  decide

theorem answered_onFile {szFilePath : Path} {f : F} {s : State E F}
    (leads : c.lookup s.fs szFilePath = some f) : Answered (onFile c szFilePath) s (· = some f) := by
  refine provided_of_ok (x := onFile c szFilePath) rfl (fun e mem => ?_) fun _ => ⟨⟨rfl, rfl⟩, ?_⟩
  · rw [List.mem_singleton.mp mem, answers, if_pos rfl, leads]
    exact fun absurd => by cases absurd
  · rw [answers, if_pos rfl, leads]

omit [DecidableEq E] answers in
theorem answered_fileOf (f : F) (s : State E F) : Answered (fileOf f) s (· = s.fs.file f) :=
  provided_of_ok (x := fileOf f) rfl (fun _ absurd => by cases absurd) fun _ => ⟨⟨rfl, rfl⟩, rfl⟩

omit [DecidableEq E] in
theorem answered_checkSumLoop (blocks : List (List BYTE)) (sum : Checksum) (s : State E F) :
    Answered (checkSumLoop c blocks sum) s (· ≠ none) := by
  induction blocks generalizing sum s with
  | nil =>
    apply answered_bind (answered_call answers s)
    intro succeeded s' _ same
    subst same
    exact answered_pure (Option.some_ne_none sum)
  | cons block blocks ih =>
    apply answered_bind (answered_call answers s)
    intro succeeded s' _ same
    subst same
    exact ih (sumBlock sum block) s'

theorem answered_calculateChecksum {record : FileRecord} {f : F} {s : State E F}
    (leads : c.lookup s.fs record.szFilePath = some f) :
    Answered (record.calculateChecksum c) s (· ≠ none) := by
  apply answered_bind (answered_onFile answers leads)
  intro found s' _ same
  subst same
  apply answered_bind (answered_fileOf f s')
  intro file s'' _ _
  exact answered_checkSumLoop answers _ _ s''

omit [DecidableEq E] answers in
theorem answered_calculated {checksum : Option Checksum} {calculate : Run E F (Option Checksum)}
    {s : State E F} (answered : Answered calculate s (· ≠ none)) :
    Answered (calculated checksum calculate) s (· ≠ none) := by
  cases checksum with
  | none => exact answered
  | some sum => exact answered_pure (Option.some_ne_none sum)

omit [DecidableEq E] in
theorem answered_compareLoop (blocks1 : List (List BYTE)) : ∀ (blocks2 : List (List BYTE))
    (s : State E F), Answered (compareLoop c blocks1 blocks2) s (fun _ => True) := by
  induction blocks1 with
  | nil =>
    intro blocks2 s
    unfold compareLoop
    apply answered_bind (answered_call answers s)
    intro succeeded s' _ same
    subst same
    apply answered_bind (answered_call answers s')
    intro succeeded s'' _ same
    subst same
    cases blocks2 <;> exact answered_pure trivial
  | cons block1 blocks1 ih =>
    intro blocks2 s
    unfold compareLoop
    apply answered_bind (answered_call answers s)
    intro succeeded s' _ same
    subst same
    apply answered_bind (answered_call answers s')
    intro succeeded s'' _ same
    subst same
    cases blocks2 with
    | nil => exact answered_pure trivial
    | cons block2 blocks2 =>
      show Answered (if block1.length > block2.length then _ else _) _ _
      split
      · exact answered_pure trivial
      · split
        · exact answered_pure trivial
        · split
          · exact ih blocks2 s''
          · exact answered_pure trivial

theorem answered_compareFiles {szFile1 szFile2 : Path} {f1 f2 : F} {s : State E F}
    (leads1 : c.lookup s.fs szFile1 = some f1) (leads2 : c.lookup s.fs szFile2 = some f2) :
    Answered (compareFiles c szFile1 szFile2) s (fun _ => True) := by
  apply answered_bind (answered_onFile answers leads1)
  intro found s₁ quiet same
  subst same
  apply answered_bind (answered_onFile answers (quiet.fs ▸ leads2))
  intro found s₂ _ same
  subst same
  apply answered_bind (answered_fileOf f1 s₂)
  intro file1 s₃ _ _
  apply answered_bind (answered_fileOf f2 s₃)
  intro file2 s₄ _ _
  exact answered_compareLoop answers _ _ s₄

theorem answered_searchChain {szFilePath : Path} {info : FileData} {f : F} {fs : FileSystem E F}
    (leads : c.lookup fs szFilePath = some f) (chain : List FileRecord)
    (lead : ∀ r ∈ chain, ∃ g, c.lookup fs r.szFilePath = some g) (checksum : Option Checksum)
    (s : State E F) (same : s.fs = fs) :
    Answered (searchChain c szFilePath info chain checksum) s (fun _ => True) := by
  induction chain generalizing checksum s with
  | nil => exact answered_pure trivial
  | cons record chain ih =>
    have rest := ih fun r mem => lead r (List.mem_cons_of_mem _ mem)
    obtain ⟨g, leads_g⟩ := lead record List.mem_cons_self
    have keeps (r : FileRecord) (checksum : Option Checksum) (s : State E F) (same : s.fs = fs) :
        Answered (do
          let rest ← searchChain c szFilePath info chain checksum
          pure (r :: rest.1, rest.2)) s (fun _ => True) :=
      answered_bind (rest checksum s same) fun _ _ _ _ => answered_pure trivial
    unfold searchChain
    by_cases key : record.FileSize = info.data.length ∧
      record.dwVolumeSerial = info.dwVolumeSerialNumber
    swap
    · rw [if_neg key]
      exact keeps record checksum s same
    rw [if_pos key]
    apply answered_bind (answered_calculated (answered_checkSumLoop answers _ _ s))
    intro sum s₁ quiet₁ summed
    obtain ⟨sum, rfl⟩ := Option.ne_none_iff_exists'.mp summed
    apply answered_bind (answered_calculated
      (answered_calculateChecksum answers (by rw [quiet₁.fs, same]; exact leads_g)))
    intro recordSum s₂ quiet₂ summed
    obtain ⟨recordSum, rfl⟩ := Option.ne_none_iff_exists'.mp summed
    have same₂ : s₂.fs = fs := quiet₂.fs.trans (quiet₁.fs.trans same)
    show Answered (if recordSum = sum then _ else _) _ _
    split
    · apply answered_bind (answered_compareFiles answers (same₂ ▸ leads_g) (same₂ ▸ leads))
      intro status s₃ quiet₃ _
      have same₃ : s₃.fs = fs := quiet₃.fs.trans same₂
      cases status with
      | equal => exact answered_pure trivial
      | file1Failed => exact rest _ s₃ same₃
      | file2Failed => exact keeps _ _ s₃ same₃
      | file1Longer => exact keeps _ _ s₃ same₃
      | file2Longer => exact keeps _ _ s₃ same₃
      | notEqual => exact keeps _ _ s₃ same₃
    · exact keeps _ _ s₂ same₂

theorem findEqualOrAdd_works {szFilePath : Path} {f : F} {s : State E F}
    (leads : c.lookup s.fs szFilePath = some f)
    (lead : ∀ i, ∀ r ∈ s.table i, ∃ g, c.lookup s.fs r.szFilePath = some g) :
    ∃ t found s', findEqualOrAdd c szFilePath s = .ok t found s' ∧ Works t := by
  have answered : Provided (fun _ => True) (· ≠ .called false) (findEqualOrAdd c szFilePath) s
      fun _ _ _ => True := by
    apply provided_bind (answered_onFile answers leads)
    intro _ opened s₁ ⟨quiet₁, same⟩
    subst same
    apply provided_bind (answered_call answers s₁)
    intro _ succeeded s₂ ⟨quiet₂, same⟩
    subst same
    apply provided_bind (answered_fileOf f s₂)
    intro _ info s₃ ⟨quiet₃, _⟩
    have quiet := (quiet₁.trans quiet₂).trans quiet₃
    apply provided_bind_ok (x := getChain _) rfl
    intro _
    rw [quiet.table]
    apply provided_bind (answered_searchChain answers leads _ (lead _) none s₃ quiet.fs)
    intro _ search s₄ _
    apply provided_bind_ok (x := setChain _ _) rfl
    intro _
    cases search.2 with
    | failed => exact provided_pure trivial
    | equal record => exact provided_pure trivial
    | noMatch checksum =>
      apply provided_bind_ok (x := setChain _ _) rfl
      intro _
      exact provided_pure trivial
  obtain ⟨t, found, s', run, -, works⟩ := answered.events.outcome fun _ _ => trivial
  exact ⟨t, found, s', run, works⟩

end answered

/-- Duplicate detection is exact byte equality. -/
theorem findEqualOrAdd_exact {c : Config E F} (small : c.dwSkipSize.toNat < 2 ^ 31) {s s' s'' : State E F}
    (empty : ∀ i, s.table i = []) (earlier : Searches c s s') {szFilePath : Path} {t : List Event}
    {found : Option FileRecord} (run : findEqualOrAdd c szFilePath s' = .ok t found s'')
    (works : Works t) :
    ∃ f, c.lookup s.fs szFilePath = some f ∧
      (found ≠ none ↔ ∃ i, ∃ r ∈ s'.records i, r.SameContent c s.fs f) ∧
      (∀ r, found = some r → r.SameContent c s.fs f ∧ ∃ i, r.identity ∈ s'.records i) ∧
      (found ≠ none → ∀ i, s''.records i = s'.records i) ∧
      (found = none → ∀ i, s''.records i =
        if i = s'.chain f then newRecord s.fs szFilePath f :: s'.records i else s'.records i) := by
  obtain ⟨wellFormed, same⟩ := earlier.wellFormed empty
  have exact_ := findEqualOrAdd_equals wellFormed run works
  rw [same] at exact_
  simp only [equals_iff_sameContent small] at exact_
  exact exact_

/-- Two files on one volume, at the paths `[1]` and `[2]`. -/
def twoFiles (data : Bool → List BYTE) : State Path Bool where
  fs :=
    { names := ⟨[⟨[1], false⟩, ⟨[2], true⟩], by simp⟩
      file := fun f =>
        { data := data f
          dwVolumeSerialNumber := 7
          nFileIndex := if f then 2 else 1
          dwFileAttributes := fileAttributeNormal } }
  table := fun _ => []
  calls := 0

def answeringConfig (dwSkipSize : DWORD) : Config Path Bool where
  leads := some
  answers := fun _ => true
  creates := fun _ => none
  bBreak := fun _ => false
  argv := []
  excluded := fun _ => false
  dwSkipSize

theorem answered_first (dwSkipSize : DWORD) (data : Bool → List BYTE) :
    ∃ t s', findEqualOrAdd (answeringConfig dwSkipSize) [1] (twoFiles data) = .ok t none s' ∧ Works t ∧
      s'.fs = (twoFiles data).fs ∧
      ∀ i, s'.records i =
        if i = chainOf (data false).length then [newRecord (twoFiles data).fs [1] false] else [] := by
  have leads : (answeringConfig dwSkipSize).lookup (twoFiles data).fs [1] = some false := rfl
  obtain ⟨t, found, s', run, works⟩ := findEqualOrAdd_works (fun _ => rfl) leads
    fun i r absurd => by cases absurd
  obtain ⟨f, leads', exists_, -, -, added⟩ :=
    findEqualOrAdd_equals (wellFormed_empty _ fun _ => rfl) run works
  cases leads.symm.trans leads'
  have none : found = none := by
    by_contra some
    obtain ⟨i, r, absurd, -⟩ := exists_.mp some
    cases absurd
  subst none
  refine ⟨t, s', run, works, ?_, added rfl⟩
  exact (looked_of_run run works (wellFormed_empty _ fun _ => rfl).sound).fs

/-- With two files of one size, the second is a duplicate if all that is read of it is the same. -/
theorem answered_second (dwSkipSize : DWORD) (data : Bool → List BYTE)
    (size : (data false).length = (data true).length) :
    ∃ s' t found s'', Searches (answeringConfig dwSkipSize) (twoFiles data) s' ∧
      (s'.records (chainOf (data true).length) = [newRecord (twoFiles data).fs [1] false]) ∧
      findEqualOrAdd (answeringConfig dwSkipSize) [2] s' = .ok t found s'' ∧ Works t ∧
      (found ≠ none ↔ setFilePointer dwSkipSize (data false) = setFilePointer dwSkipSize (data true)) := by
  obtain ⟨t, s', first, works, same, records⟩ := answered_first dwSkipSize data
  have empty (i : Nat) : (twoFiles data).table i = [] := rfl
  have searches := Searches.start.call first works
  have wellFormed := (searches.wellFormed empty).1
  have leads1 : (answeringConfig dwSkipSize).lookup s'.fs [1] = some false := by rw [same]; rfl
  have leads2 : (answeringConfig dwSkipSize).lookup s'.fs [2] = some true := by rw [same]; rfl
  have record (i : Nat) (r : FileRecord) (mem : r ∈ s'.records i) :
      r = newRecord (twoFiles data).fs [1] false := by
    rw [records] at mem
    split at mem
    · exact List.mem_singleton.mp mem
    · cases mem
  have lead (i : Nat) (r : FileRecord) (mem : r ∈ s'.table i) :
      ∃ g, (answeringConfig dwSkipSize).lookup s'.fs r.szFilePath = some g := by
    have path := congrArg FileRecord.szFilePath (record i r.identity (List.mem_map_of_mem mem))
    exact ⟨false, (congrArg _ path).trans leads1⟩
  obtain ⟨t', found, s'', second, works'⟩ := findEqualOrAdd_works (fun _ => rfl) leads2 lead
  obtain ⟨f, leads', exists_, -⟩ := findEqualOrAdd_equals wellFormed second works'
  cases leads2.symm.trans leads'
  refine ⟨s', t', found, s'', searches, ?_, second, works', exists_.trans ⟨?_, ?_⟩⟩
  · rw [records, if_pos (congrArg chainOf size.symm)]
  · intro facts
    rcases facts with ⟨i, r, mem, equals⟩
    cases record i r mem
    obtain ⟨g, leads_g, content_g⟩ := equals.same
    cases leads1.symm.trans leads_g
    rw [same] at content_g
    exact content_g
  · intro content_same
    refine ⟨chainOf (data false).length, newRecord (twoFiles data).fs [1] false, ?_, ?_⟩
    · rw [records, if_pos rfl]
      exact List.mem_cons_self
    · rw [same]
      exact ⟨size, rfl, false, rfl, content_same⟩

theorem findEqualOrAdd_exact_twins : ∃ s' t r s'',
    Searches (answeringConfig 2) (twoFiles fun f => if f then [0, 1, 2, 3] else [9, 9, 2, 3]) s' ∧
    findEqualOrAdd (answeringConfig 2) [2] s' = .ok t (some r) s'' ∧
    r.szFilePath = [1] ∧ ∃ i, r.identity ∈ s'.records i := by
  obtain ⟨s', t, found, s'', searches, records, run, works, found_iff⟩ :=
    answered_second 2 (fun f => if f then [0, 1, 2, 3] else [9, 9, 2, 3]) rfl
  obtain ⟨r, rfl⟩ := Option.ne_none_iff_exists'.mp (found_iff.mpr rfl)
  obtain ⟨f, leads, -, returned, -⟩ := findEqualOrAdd_exact (by decide) (fun _ => rfl) searches run works
  cases (rfl : _ = some true).symm.trans leads
  obtain ⟨equals, i, mem⟩ := returned r rfl
  have chain := (searches.wellFormed fun _ => rfl).1.chain i _ mem
  rw [show r.identity.FileSize = 4 from equals.size] at chain
  subst chain
  rw [show chainOf 4 = chainOf [0, 1, 2, 3].length from rfl] at mem
  refine ⟨s', t, r, s'', searches, run, ?_, _, mem⟩
  exact congrArg FileRecord.szFilePath (List.mem_singleton.mp (records ▸ mem))

/-- From 2 GB on the skip size is not skipped, and a file that differs in front of it is no
    duplicate. -/
theorem skip_size_ignored : ∃ (data : Bool → List BYTE) (s' : State Path Bool) (t : List Event)
    (s'' : State Path Bool), (∀ f, (0x80000000 : DWORD).toNat < (data f).length) ∧
      Searches (answeringConfig 0x80000000) (twoFiles data) s' ∧
      findEqualOrAdd (answeringConfig 0x80000000) [2] s' = .ok t none s'' ∧ Works t ∧
      ∃ i, ∃ r ∈ s'.records i,
        r.SameContent (answeringConfig 0x80000000) (twoFiles data).fs true := by
  obtain ⟨size, size_eq⟩ : ∃ size, size = (0x80000000 : DWORD).toNat := ⟨_, rfl⟩
  have positive : 0 < size := size_eq ▸ by decide
  obtain ⟨data, data_eq⟩ : ∃ data : Bool → List BYTE, ∀ f, data f =
    (if f then 1 else 0) :: List.replicate size 0 := ⟨_, fun _ => rfl⟩
  have length (f : Bool) : (data f).length = size + 1 := by
    rw [data_eq, List.length_cons, List.length_replicate]
  obtain ⟨s', t, found, s'', searches, records, run, works, found_iff⟩ :=
    answered_second 0x80000000 data (by rw [length, length])
  have unequal : data false ≠ data true := by
    rw [data_eq, data_eq]
    simp
  have whole (f : Bool) : setFilePointer 0x80000000 (data f) = data f := if_neg (by decide)
  have none : found = none := by
    by_contra some
    have same := found_iff.mp some
    rw [whole, whole] at same
    exact unequal same
  subst none
  refine ⟨data, s', t, s'', fun f => by rw [length, size_eq]; omega, searches, run, works,
    chainOf (data true).length, newRecord (twoFiles data).fs [1] false, ?_, ?_⟩
  · rw [records]
    exact List.mem_cons_self
  · refine ⟨(length false).trans (length true).symm, rfl, false, rfl, ?_⟩
    show (data false).drop (0x80000000 : DWORD).toNat = (data true).drop (0x80000000 : DWORD).toNat
    rw [data_eq, data_eq, ← size_eq]
    obtain ⟨n, rfl⟩ := Nat.exists_eq_add_of_lt positive
    rw [show 0 + n + 1 = n + 1 by omega, List.drop_succ_cons, List.drop_succ_cons]

end Fdf
