import LtrData.StrArc.BackupRuns

namespace StrArc

open Traced

variable {F : Type}

/-- The path that the names in a directory are appended to. -/
def pathBase (Path : UnicodeString) : UnicodeString :=
  if Path = [dot] ∨ Path = [] then [] else Path ++ [backslash]

/-- The first character of the last name in a listing. -/
def Entries.lastInitial : Entries F → Option WCHAR
  | .nil => none
  | .cons FileName _ _ rest =>
    match rest.lastInitial with
    | some unit => some unit
    | none => if isSelfOrParent FileName then none else FileName.head?

/-- The name an object gets in its header. That of "." is read from the path buffer when the names
    of its entries have been there. -/
def writtenName (Path : UnicodeString) (traversed : Bool) (entries : Entries F) : UnicodeString :=
  if Path = [] then [dot]
  else if Path = [dot] ∧ traversed then [entries.lastInitial.getD dot]
  else Path

mutual

/-- What is archived below a path, a directory after its contents, under the names of `naming`. -/
def Node.visits (c : BackupConfig F) (disk : F → ByHandleFileInformation)
    (naming : UnicodeString → Bool → Entries F → UnicodeString) :
    Node F → UnicodeString → List (F × UnicodeString)
  | .mk id entries, Path =>
    if (excludedString c Path).1 then []
    else
      (if traverses c (disk id) then entries.visits c disk naming (pathBase Path) else []) ++
        if (excludedString c Path).2 then [(id, naming Path (traverses c (disk id)) entries)] else []

def Entries.visits (c : BackupConfig F) (disk : F → ByHandleFileInformation)
    (naming : UnicodeString → Bool → Entries F → UnicodeString) :
    Entries F → UnicodeString → List (F × UnicodeString)
  | .nil, _ => []
  | .cons FileName _ node rest, base =>
    (if isSelfOrParent FileName then [] else node.visits c disk naming (base ++ FileName)) ++
      rest.visits c disk naming base

end

/-- The name an object is to have: its path, or "." for the current directory. -/
def ownName (Path : UnicodeString) (_ : Bool) (_ : Entries F) : UnicodeString :=
  if Path = [] then [dot] else Path

structure Visit (F : Type) where
  id : F
  name : UnicodeString
  File : UnicodeString
  inside : Nat

mutual

/-- The visits below a path, that of a directory behind those of its contents. -/
def Node.walk (c : BackupConfig F) (disk : F → ByHandleFileInformation) :
    Node F → UnicodeString → List (Visit F)
  | .mk id entries, Path =>
    if (excludedString c Path).1 then []
    else
      let contents := if traverses c (disk id) then entries.walk c disk (pathBase Path) else []
      contents ++
        if (excludedString c Path).2 then
          [{ id := id
             name := ownName Path (traverses c (disk id)) entries
             File := writtenName Path (traverses c (disk id)) entries
             inside := contents.length }]
        else []

def Entries.walk (c : BackupConfig F) (disk : F → ByHandleFileInformation) :
    Entries F → UnicodeString → List (Visit F)
  | .nil, _ => []
  | .cons FileName _ node rest, base =>
    (if isSelfOrParent FileName then [] else node.walk c disk (base ++ FileName)) ++
      rest.walk c disk base

end

/-- What a visit is of, and the name in the header. -/
def Visit.written (visit : Visit F) : F × UnicodeString := (visit.id, visit.File)

mutual

theorem Node.map_walk (c : BackupConfig F) (disk : F → ByHandleFileInformation) :
    ∀ (node : Node F) (Path : UnicodeString),
      (node.walk c disk Path).map Visit.written = node.visits c disk writtenName Path
  | .mk id entries, Path => by
    unfold Node.walk Node.visits
    rw [← Entries.map_walk c disk entries (pathBase Path)]
    cases excludedString c Path with
    | mk excluded included =>
      cases excluded <;> cases included <;> cases traverses c (disk id) <;> simp [Visit.written]

theorem Entries.map_walk (c : BackupConfig F) (disk : F → ByHandleFileInformation) :
    ∀ (entries : Entries F) (base : UnicodeString),
      (entries.walk c disk base).map Visit.written = entries.visits c disk writtenName base
  | .nil, _ => rfl
  | .cons FileName ShortName node rest, base => by
    unfold Entries.walk Entries.visits
    rw [List.map_append, Entries.map_walk c disk rest base]
    cases isSelfOrParent FileName with
    | true => rfl
    | false =>
      rw [if_neg Bool.false_ne_true, if_neg Bool.false_ne_true,
        Node.map_walk c disk node (base ++ FileName)]

end

mutual

/-- Every path below this one fits the path buffer. -/
def Node.Fits : Node F → UnicodeString → Prop
  | .mk _ entries, Path => entries.Fits (pathBase Path)

def Entries.Fits : Entries F → UnicodeString → Prop
  | .nil, _ => True
  | .cons FileName _ node rest, base =>
    (isSelfOrParent FileName = false → FileName ≠ [] ∧
      2 * (base ++ FileName).length ≤ fullPathMaximum ∧ node.Fits (base ++ FileName)) ∧
    rest.Fits base

end

/-- A backup in which nothing fails before the archive is written to. -/
structure Unfailing (c : BackupConfig F) : Prop where
  opens : ∀ n, c.opens n = true
  informs : ∀ n, c.informs n = true
  uncancelled : ∀ n, c.bCancel n = false
  writes : c.options.bListOnly = false

/-- Files that are not to be archived, by their archive attribute. -/
def skips (c : BackupConfig F) (file_info : ByHandleFileInformation) : Prop :=
  skipsUnchanged c.options.BackupMethod ∧
    hasAttribute file_info.dwFileAttributes fileAttributeArchive = false

instance (c : BackupConfig F) (file_info : ByHandleFileInformation) : Decidable (skips c file_info) :=
  inferInstanceAs (Decidable (_ ∧ _))

theorem Entries.Fits.empty {c : BackupConfig F} {disk : F → ByHandleFileInformation}
    {naming : UnicodeString → Bool → Entries F → UnicodeString} {base : UnicodeString}
    (long : ¬ 2 * base.length ≤ fullPathMaximum) : ∀ {entries : Entries F}, entries.Fits base →
      entries.visits c disk naming base = [] ∧ entries.lastInitial = none
  | .nil, _ => ⟨rfl, rfl⟩
  | .cons FileName ShortName node rest, fits => by
    have behind : rest.visits c disk naming base = [] ∧ rest.lastInitial = none :=
      Entries.Fits.empty long fits.2
    obtain ⟨visits, last⟩ := behind
    cases self : isSelfOrParent FileName with
    | true => simp [Entries.visits, Entries.lastInitial, self, visits, last]
    | false =>
      have fit := (fits.1 self).2.1
      rw [List.length_append] at fit
      omega

theorem Entries.Fits.empty_walk {c : BackupConfig F} {disk : F → ByHandleFileInformation}
    {base : UnicodeString} (long : ¬ 2 * base.length ≤ fullPathMaximum) {entries : Entries F}
    (fits : entries.Fits base) : entries.walk c disk base = [] ∧ entries.lastInitial = none := by
  have empty : entries.visits c disk writtenName base = [] ∧ entries.lastInitial = none :=
    fits.empty long
  rw [← Entries.map_walk, List.map_eq_nil_iff] at empty
  exact empty

/-- A step that changes nothing but the path buffer, and that only from this length on. -/
structure Idle (length : Nat) (s s' : BackupSession F) : Prop where
  disk : s'.disk = s.disk
  items : s'.LinkTrackerItems = s.LinkTrackerItems
  replaced : s'.PathReplaced = s.PathReplaced
  path : ∀ n ≤ length, s'.FullPath.read 0 n = s.FullPath.read 0 n

theorem Idle.append (s : BackupSession F) (Length : Nat) (source : UnicodeString) :
    Idle Length s { s with FullPath := s.FullPath.write Length (source ++ [0]) } :=
  ⟨rfl, rfl, rfl, fun _ le => Cells.read_write_before _ _ (by omega)⟩

theorem path_appended {s : BackupSession F} {base : UnicodeString}
    (at_ : s.FullPath.read 0 base.length = base) (source : UnicodeString) :
    (s.FullPath.write base.length (source ++ [0])).read 0 (base.length + source.length) =
      base ++ source := by
  rw [Cells.read_add, Cells.read_write_before _ _ (Nat.le_of_eq (Nat.zero_add _)),
    at_, Nat.zero_add, Cells.read_write_front _ _ _ (by simp), List.take_left]

theorem basePath_reads (Path : UnicodeString) {s : BackupSession F}
    (at_ : s.FullPath.read 0 Path.length = Path) :
    Ensures (basePath Path.length) s (fun t base s' => t = [] ∧ Idle Path.length s s' ∧
      match base with
      | some base => base = (pathBase Path).length ∧ s'.FullPath.read 0 base = pathBase Path
      | none => ¬ 2 * (pathBase Path).length ≤ fullPathMaximum) fun _ _ _ => False := by
  unfold basePath pathBase
  apply ensures_bind_ok (pathAt_run _ s)
  rw [at_]
  by_cases root : Path = [dot] ∨ Path = []
  · rw [if_pos (root.imp_right fun empty => by rw [empty]; rfl), if_pos root]
    exact ensures_pure ⟨rfl, ⟨rfl, rfl, rfl, fun _ _ => rfl⟩, rfl, rfl⟩
  · have nonempty : ¬ Path.length = 0 := fun none => root (.inr (List.length_eq_zero_iff.mp none))
    rw [if_neg (fun h => h.elim (fun is => root (.inl is)) nonempty), if_neg root]
    by_cases fits : 2 * (Path.length + [backslash].length) ≤ fullPathMaximum
    · refine (ensures_of_ok (appendToPath_run fits s)).mpr ⟨rfl, .append s _ _, ?_, ?_⟩
      · simp
      · exact path_appended at_ [backslash]
    · refine (ensures_of_ok (appendToPath_run_long fits s)).mpr
        ⟨rfl, ⟨rfl, rfl, rfl, fun _ _ => rfl⟩, ?_⟩
      rw [List.length_append]
      exact fits

variable [DecidableEq F]

/-- A relation that holds between the states before and behind what a traversal archives, with the
    visits and the objects archived. -/
structure Walking (c : BackupConfig F) (P : BackupSession F → List (Visit F) →
    List (Backed F) → BackupSession F → Prop) : Prop where
  idle : ∀ {s s' : BackupSession F}, s'.disk = s.disk → s'.LinkTrackerItems = s.LinkTrackerItems →
    P s [] [] s'
  append : ∀ {s s' s'' v v' t t'}, P s v t s' → P s' v' t' s'' → P s (v ++ v') (t ++ t') s''
  skipped : ∀ {id name File s v t s'}, P s v t s' → skips c (s.disk id) →
    P s (v ++ [⟨id, name, File, v.length⟩]) t s'
  object : ∀ {id name File ShortName object s v t s₁ s'}, P s v t s₁ → ¬ skips c (s.disk id) →
    Archives c id File (s.disk id) ShortName s₁ object s' →
    P s (v ++ [⟨id, name, File, v.length⟩]) (t ++ [object]) s'

/-- The same for a relation that does not depend on where a visit begins. -/
structure Visiting (c : BackupConfig F) (P : BackupSession F → List (F × UnicodeString) →
    List (Backed F) → BackupSession F → Prop) : Prop where
  idle : ∀ {s s' : BackupSession F}, s'.disk = s.disk → s'.LinkTrackerItems = s.LinkTrackerItems →
    P s [] [] s'
  append : ∀ {s s' s'' v v' t t'}, P s v t s' → P s' v' t' s'' → P s (v ++ v') (t ++ t') s''
  skipped : ∀ {id File s v t s'}, P s v t s' → skips c (s.disk id) → P s (v ++ [(id, File)]) t s'
  object : ∀ {id File ShortName object s v t s₁ s'}, P s v t s₁ → ¬ skips c (s.disk id) →
    Archives c id File (s.disk id) ShortName s₁ object s' →
    P s (v ++ [(id, File)]) (t ++ [object]) s'

theorem Visiting.walking {c : BackupConfig F} {P : BackupSession F → List (F × UnicodeString) →
    List (Backed F) → BackupSession F → Prop} (visiting : Visiting c P) :
    Walking c fun s v t s' => P s (v.map Visit.written) t s' where
  idle := visiting.idle
  append first second := by
    rw [List.map_append]
    exact visiting.append first second
  skipped first skips := by
    rw [List.map_append]
    exact visiting.skipped first skips
  object first changed archives := by
    rw [List.map_append]
    exact visiting.object first changed archives

section Walking

variable {c : BackupConfig F} {disk : F → ByHandleFileInformation}
  {P : BackupSession F → List (Visit F) → List (Backed F) → BackupSession F → Prop}

/-- What is listed stays the same, whatever archive attributes are reset. -/
def Agrees (c : BackupConfig F) (disk disk' : F → ByHandleFileInformation) : Prop :=
  ∀ id, traverses c (disk' id) = traverses c (disk id)

omit [DecidableEq F] in
theorem traverses_setFileAttributes (c : BackupConfig F) (info : ByHandleFileInformation)
    (FileAttributes : DWORD) :
    traverses c (setFileAttributes info FileAttributes) = traverses c info := by
  have kept (mask : DWORD) (outside : ∀ i, (settableAttributes.getLsbD i && mask.getLsbD i) = false) :
      hasAttribute (setFileAttributes info FileAttributes).dwFileAttributes mask =
        hasAttribute info.dwFileAttributes mask := by
    unfold hasAttribute setFileAttributes
    congr 1
    apply BitVec.eq_of_getLsbD_eq
    intro i _
    have apart := outside i
    simp only [BitVec.getLsbD_and, BitVec.getLsbD_or, BitVec.getLsbD_not]
    cases settable : settableAttributes.getLsbD i <;> cases masked : mask.getLsbD i <;>
      simp_all
  have apart (mask : DWORD) (none : settableAttributes &&& mask = 0) (i : Nat) :
      (settableAttributes.getLsbD i && mask.getLsbD i) = false := by
    rw [← BitVec.getLsbD_and, none]
    exact BitVec.getLsbD_zero
  unfold traverses
  rw [kept _ (apart _ (by decide)), kept _ (apart _ (by decide))]

theorem Archives.agrees {id : F} {File ShortName : UnicodeString} {s s' : BackupSession F}
    {file_info : ByHandleFileInformation} {object : Backed F}
    (archives : Archives c id File file_info ShortName s object s') (agrees : Agrees c disk s.disk) :
    Agrees c disk s'.disk := by
  intro id'
  rcases archives.disk with same | ⟨-, reset⟩
  · rw [same]
    exact agrees id'
  · rw [reset, resetDisk]
    split
    · next is =>
      rw [traverses_setFileAttributes, is]
      exact agrees id
    · exact agrees id'

omit [DecidableEq F] in
theorem openObject_opens (unfailing : Unfailing c) (id : F) {Path : UnicodeString}
    {s : BackupSession F} (at_ : s.FullPath.read 0 Path.length = Path) :
    Ensures (openObject c id Path.length) s (fun t opened s' => t = [] ∧ s'.disk = s.disk ∧
      s'.LinkTrackerItems = s.LinkTrackerItems ∧ s'.FullPath = s.FullPath ∧
      s'.PathReplaced = s.PathReplaced ∧ opened =
        if (excludedString c Path).1 then .left true
        else .found (s.disk id) (excludedString c Path).2) fun _ _ _ => False := by
  unfold openObject
  apply ensures_bind_ok (pathAt_run _ s)
  rw [at_]
  apply ensures_bind_ok (question_run c.opens s)
  rw [if_pos (unfailing.opens _)]
  apply ensures_bind_ok (question_run c.informs _)
  rw [if_pos (unfailing.informs _)]
  apply ensures_bind_ok (informationOf_run id _)
  split <;> exact ensures_pure ⟨rfl, rfl, rfl, rfl, rfl, rfl⟩

/-- What becomes of an object behind its contents: it is left out, or archived under this name. -/
inductive Finished (c : BackupConfig F) (id : F) (file_info : ByHandleFileInformation)
    (bIncludeThis : Bool) (File : UnicodeString) (s : BackupSession F) :
    List (Backed F) → BackupSession F → Prop
  | left {s' : BackupSession F} (disk : s'.disk = s.disk)
      (items : s'.LinkTrackerItems = s.LinkTrackerItems) (path : s'.FullPath = s.FullPath)
      (skipped : bIncludeThis = true → skips c file_info) :
      Finished c id file_info bIncludeThis File s [] s'
  | archived {object : Backed F} {ShortName : UnicodeString} {s₁ s' : BackupSession F}
      (disk : s₁.disk = s.disk) (items : s₁.LinkTrackerItems = s.LinkTrackerItems)
      (path : s₁.FullPath = s.FullPath) (included : bIncludeThis = true)
      (changed : ¬ skips c file_info)
      (archives : Archives c id File file_info ShortName s₁ object s') :
      Finished c id file_info bIncludeThis File s [object] s'

theorem finishObject_finishes (unfailing : Unfailing c) (id : F) (file_info : ByHandleFileInformation)
    (bIncludeThis : Bool) (Length : Nat) (ShortName : Option UnicodeString) (s : BackupSession F) :
    Ensures (finishObject c id file_info bIncludeThis Length ShortName) s (fun t _ s' =>
      Finished c id file_info bIncludeThis (if Length = 0 then [dot] else s.FullPath.read 0 Length)
        s t s' ∧ (Length ≠ 0 → s'.PathReplaced = s.PathReplaced)) fun _ _ _ => False := by
  unfold finishObject
  apply ensures_bind_ok (question_run c.bCancel s)
  rw [if_neg (by simp [unfailing.uncancelled])]
  split
  · next excluded =>
    exact ensures_pure ⟨.left rfl rfl rfl fun absurd => by simp [excluded] at absurd, fun _ => rfl⟩
  · next included =>
    have stays (nonempty : Length ≠ 0) : (s.PathReplaced || decide (Length = 0)) = s.PathReplaced := by
      rw [decide_eq_false nonempty, Bool.or_false]
    apply ensures_bind_ok (replacePath_run Length _)
    split
    · next skipped => exact ensures_pure ⟨.left rfl rfl rfl fun _ => skipped, stays⟩
    · next changed =>
      rw [unfailing.writes, if_neg Bool.false_ne_true]
      rw [Bool.not_eq_false] at included
      have name (s₁ : BackupSession F) : headerName Length s₁ =
          .ok [] (if Length = 0 then [dot] else s₁.FullPath.read 0 Length) s₁ := by
        unfold headerName
        split <;> rfl
      apply ensures_bind_ok (name _)
      have archived (short : UnicodeString) {s₁ : BackupSession F} (disk : s₁.disk = s.disk)
          (items : s₁.LinkTrackerItems = s.LinkTrackerItems) (path : s₁.FullPath = s.FullPath)
          (replaced : Length ≠ 0 → s₁.PathReplaced = s.PathReplaced) :
          Ensures (archiveFile c id (if Length = 0 then [dot] else s.FullPath.read 0 Length)
            file_info short) s₁ (fun t _ s' => Finished c id file_info bIncludeThis
              (if Length = 0 then [dot] else s.FullPath.read 0 Length) s t s' ∧
              (Length ≠ 0 → s'.PathReplaced = s.PathReplaced)) fun _ _ _ => False := by
        apply (archiveFile_archives id _ file_info short).mono
        · intro t result s' facts
          rcases facts with ⟨object, rfl, -, archives⟩
          exact ⟨.archived disk items path included changed archives,
            fun nonempty => archives.replaced.trans (replaced nonempty)⟩
        · exact fun _ _ _ h => h
      cases ShortName with
      | some short => exact ensures_bind_ok rfl (archived short rfl rfl rfl stays)
      | none => exact ensures_bind_ok (question_run _ _) (archived _ rfl rfl rfl stays)

/-- What the traversal of a node comes to. -/
def NodeSpec (c : BackupConfig F) (disk : F → ByHandleFileInformation)
    (P : BackupSession F → List (Visit F) → List (Backed F) → BackupSession F → Prop)
    (node : Node F) : Prop :=
  ∀ (Path : UnicodeString) (ShortName : Option UnicodeString) (s : BackupSession F),
    node.Fits Path → Agrees c disk s.disk → s.FullPath.read 0 Path.length = Path →
    Ensures (backupFile c node Path.length ShortName true) s (fun t _ s' =>
      P s (node.walk c disk Path) t s' ∧ Agrees c disk s'.disk ∧
        (Path ≠ [] → s'.PathReplaced = s.PathReplaced) ∧
        ∀ n ≤ Path.length, n ≤ (pathBase Path).length →
          s'.FullPath.read 0 n = s.FullPath.read 0 n) fun _ _ _ => False

def EntriesSpec (c : BackupConfig F) (disk : F → ByHandleFileInformation)
    (P : BackupSession F → List (Visit F) → List (Backed F) → BackupSession F → Prop)
    (entries : Entries F) : Prop :=
  ∀ (base : UnicodeString) (s : BackupSession F),
    entries.Fits base → Agrees c disk s.disk → s.FullPath.read 0 base.length = base →
    Ensures (directoryLoop c entries base.length) s (fun t _ s' =>
      P s (entries.walk c disk base) t s' ∧ Agrees c disk s'.disk ∧
        s'.PathReplaced = s.PathReplaced ∧
        (∀ n ≤ base.length, s'.FullPath.read 0 n = s.FullPath.read 0 n) ∧
        s'.FullPath.read 0 (base.length + 1) =
          match entries.lastInitial with
          | some unit => base ++ [unit]
          | none => s.FullPath.read 0 (base.length + 1)) fun _ _ _ => False

omit [DecidableEq F] in
theorem writtenName_own {Path : UnicodeString} {traversed : Bool} {entries : Entries F}
    (own : Path = [dot] → traversed = true → entries.lastInitial = none) :
    writtenName Path traversed entries = if Path.length = 0 then [dot] else Path := by
  unfold writtenName
  by_cases empty : Path = []
  · simp [empty]
  · rw [if_neg empty, if_neg (fun none => empty (List.length_eq_zero_iff.mp none))]
    split
    · next root =>
      rw [own root.1 root.2, root.1]
      rfl
    · rfl

theorem Walking.nil (walking : Walking c P) : EntriesSpec c disk P .nil := by
  intro base s _ agrees _
  unfold directoryLoop
  exact ensures_pure ⟨walking.idle rfl rfl, agrees, rfl, fun _ _ => rfl, rfl⟩

/-- What the traversal below a path comes to, and what it leaves in the path buffer. -/
theorem Walking.traverse (walking : Walking c P) {id : F} {entries : Entries F}
    (spec : EntriesSpec c disk P entries) {Path : UnicodeString} {s : BackupSession F}
    (fits : entries.Fits (pathBase Path)) (agrees : Agrees c disk s.disk)
    (at_ : s.FullPath.read 0 Path.length = Path) :
    Ensures (traverseIf (true && traverses c (s.disk id)) Path.length
      fun base => directoryLoop c entries base) s (fun t _ s' =>
        P s (if traverses c (disk id) then entries.walk c disk (pathBase Path) else [])
          t s' ∧ Agrees c disk s'.disk ∧ s'.PathReplaced = s.PathReplaced ∧
          (∀ n ≤ Path.length, n ≤ (pathBase Path).length →
            s'.FullPath.read 0 n = s.FullPath.read 0 n) ∧
          (if Path.length = 0 then [dot] else s'.FullPath.read 0 Path.length) =
            writtenName Path (traverses c (disk id)) entries) fun _ _ _ => False := by
  unfold traverseIf
  rw [Bool.true_and, agrees id]
  cases traversed : traverses c (disk id) with
  | false =>
    rw [if_neg Bool.false_ne_true, if_neg Bool.false_ne_true]
    refine ensures_pure ⟨walking.idle rfl rfl, agrees, rfl, fun _ _ _ => rfl, ?_⟩
    rw [writtenName_own fun _ absurd => (by cases absurd), at_]
  | true =>
    rw [if_pos rfl, if_pos rfl]
    apply ensures_bind
    apply (basePath_reads Path at_).mono
    · intro _ base s₁ facts
      rcases facts with ⟨rfl, idle, found⟩
      have path₁ : s₁.FullPath.read 0 Path.length = Path := (idle.path _ (Nat.le_refl _)).trans at_
      have none_before := walking.idle idle.disk idle.items
      cases base with
      | none =>
        have behind : entries.walk c disk (pathBase Path) = [] ∧
            entries.lastInitial = none := fits.empty_walk found
        obtain ⟨nothing, last⟩ := behind
        refine ensures_pure ⟨?_, idle.disk ▸ agrees, idle.replaced, fun n le _ => idle.path n le, ?_⟩
        · rw [nothing]
          exact none_before
        · rw [writtenName_own fun _ _ => last, path₁]
      | some base =>
        obtain ⟨rfl, at₁⟩ := found
        apply (spec (pathBase Path) s₁ fits (idle.disk ▸ agrees) at₁).mono
        · intro t _ s' facts
          rcases facts with ⟨visits, agrees', replaced, path, last⟩
          refine ⟨walking.append none_before visits, agrees', replaced.trans idle.replaced,
            fun n le below => ?_, ?_⟩
          · rw [path n below, idle.path n le]
          · by_cases root : Path = [dot]
            · subst root
              have last : s'.FullPath.read 0 1 = match entries.lastInitial with
                  | some unit => [unit]
                  | none => s₁.FullPath.read 0 1 := last
              change s'.FullPath.read 0 1 = [entries.lastInitial.getD dot]
              rw [last]
              cases entries.lastInitial with
              | some unit => rfl
              | none => exact path₁
            · rw [writtenName_own fun is => absurd is root]
              by_cases empty : Path.length = 0
              · rw [if_pos empty, if_pos empty]
              · have longer : Path.length ≤ (pathBase Path).length := by
                  have apart : ¬ (Path = [dot] ∨ Path = []) :=
                    fun is => is.elim root fun none => empty (List.length_eq_zero_iff.mpr none)
                  rw [pathBase, if_neg apart, List.length_append]
                  exact Nat.le_add_right _ _
                rw [if_neg empty, if_neg empty, path _ longer, path₁]
        · exact fun _ _ _ h => h
    · exact fun _ _ _ h => h

theorem Walking.node (walking : Walking c P) (unfailing : Unfailing c) (id : F)
    {entries : Entries F} (spec : EntriesSpec c disk P entries) :
    NodeSpec c disk P (.mk id entries) := by
  intro Path ShortName s fits agrees at_
  unfold backupFile Node.walk
  apply ensures_bind
  apply (openObject_opens unfailing id at_).mono
  · intro _ opened s₁ facts
    rcases facts with ⟨rfl, disk₁, items₁, path₁, replaced₁, rfl⟩
    have before := walking.idle disk₁ items₁
    cases (excludedString c Path).1 with
    | true =>
      exact ensures_pure ⟨before, disk₁ ▸ agrees, fun _ => replaced₁, fun _ _ _ => by rw [path₁]⟩
    | false =>
      rw [if_neg Bool.false_ne_true]
      rw [← disk₁] at agrees
      rw [← path₁] at at_
      apply ensures_bind
      rw [← disk₁]
      apply (walking.traverse spec fits agrees at_).mono
      · intro t _ s₂ facts
        rcases facts with ⟨visits, agrees₂, replaced₂, path₂, name⟩
        have visits := walking.append before visits
        apply (finishObject_finishes unfailing id (s₁.disk id) (excludedString c Path).2 Path.length
          ShortName s₂).mono
        · intro t' _ s₃ facts
          rcases facts with ⟨finished, replaced₃⟩
          have replaced (named : Path ≠ []) : s₃.PathReplaced = s.PathReplaced := by
            rw [replaced₃ fun none => named (List.length_eq_zero_iff.mp none), replaced₂, replaced₁]
          rw [name] at finished
          rw [disk₁] at finished
          cases finished with
          | left disk₃ items₃ path₃ skipped =>
            have after := walking.append visits (walking.idle disk₃ items₃)
            refine ⟨?_, disk₃ ▸ agrees₂, replaced, fun n le below => ?_⟩
            · cases included : (excludedString c Path).2 with
              | false => simpa [included] using after
              | true =>
                simpa [included] using walking.skipped after (skipped included)
            · rw [path₃, path₂ n le below, path₁]
          | archived disk₃ items₃ path₃ included changed archives =>
            have after := walking.append visits (walking.idle disk₃ items₃)
            refine ⟨?_, archives.agrees (disk₃ ▸ agrees₂), replaced, fun n le below => ?_⟩
            · simpa [included] using walking.object after changed archives
            · rw [archives.path, path₃, path₂ n le below, path₁]
        · exact fun _ _ _ h => h
      · exact fun _ _ _ h => h
  · exact fun _ _ _ h => h

omit [DecidableEq F] in
theorem not_root (base : UnicodeString) {FileName : UnicodeString} (named : FileName ≠ [])
    (entry : isSelfOrParent FileName = false) :
    ¬ (base ++ FileName = [dot] ∨ base ++ FileName = []) := by
  rintro (root | none)
  · rcases List.append_eq_singleton_iff.mp root with ⟨-, self⟩ | ⟨-, none⟩
    · simp [isSelfOrParent, self] at entry
    · exact named none
  · exact named (List.append_eq_nil_iff.mp none).2

theorem Walking.cons (walking : Walking c P) (unfailing : Unfailing c)
    {FileName ShortName : UnicodeString} {node : Node F} {rest : Entries F}
    (first : NodeSpec c disk P node) (others : EntriesSpec c disk P rest) :
    EntriesSpec c disk P (.cons FileName ShortName node rest) := by
  intro base s fits agrees at_
  unfold directoryLoop Entries.walk Entries.lastInitial
  cases self : isSelfOrParent FileName with
  | true =>
    rw [if_pos rfl]
    apply (others base s fits.2 agrees at_).mono
    · intro t _ s' facts
      rcases facts with ⟨visits, agrees', replaced, path, last⟩
      refine ⟨by simpa using visits, agrees', replaced, path, ?_⟩
      rw [last]
      cases rest.lastInitial <;> simp
    · exact fun _ _ _ h => h
  | false =>
    obtain ⟨named, short, below⟩ := fits.1 self
    rw [List.length_append] at short
    have units : FileName.length ≤ 32767 := by
      have bound : fullPathMaximum = 65535 := rfl
      omega
    rw [if_neg Bool.false_ne_true]
    apply ensures_bind_ok (question_run c.bCancel s)
    rw [if_neg (by simp [unfailing.uncancelled])]
    have appended : entryPath base.length FileName { s with questions := s.questions + 1 } =
        .ok [] (some (base.length + FileName.length))
          { s with
            questions := s.questions + 1
            FullPath := s.FullPath.write base.length (FileName ++ [0]) } := by
      unfold entryPath
      rw [if_neg (by omega)]
      exact appendToPath_run short _
    apply ensures_bind_ok appended
    have idle := Idle.append { s with questions := s.questions + 1 } base.length FileName
    have at₁ := path_appended at_ FileName
    rw [← List.length_append] at at₁ ⊢
    apply ensures_bind
    apply (first (base ++ FileName) _ _ below (idle.disk ▸ agrees) at₁).mono
    · intro t _ s₂ facts
      rcases facts with ⟨visits, agrees₂, replaced₂, path₂⟩
      have start : P s [] [] { s with
          questions := s.questions + 1
          FullPath := s.FullPath.write base.length (FileName ++ [0]) } := walking.idle rfl rfl
      have visits := walking.append start visits
      have own := not_root base named self
      have longer : (pathBase (base ++ FileName)).length = (base ++ FileName).length + 1 := by
        rw [pathBase, if_neg own, List.length_append]
        rfl
      have kept (n : Nat) (le : n ≤ (base ++ FileName).length) :=
        path₂ n le (by omega)
      have at₂ : s₂.FullPath.read 0 base.length = base := by
        rw [kept _ (by simp), idle.path _ (Nat.le_refl _)]
        exact at_
      apply (others base s₂ fits.2 agrees₂ at₂).mono
      · intro t' _ s' facts
        rcases facts with ⟨visits', agrees', replaced', path', last⟩
        refine ⟨?_, agrees', ?_, fun n le => ?_, ?_⟩
        · simpa using walking.append visits visits'
        · rw [replaced', replaced₂ fun none => own (.inr none), idle.replaced]
        · rw [path' n le, kept n (by simp; omega), idle.path n le]
        · rw [last]
          cases rest.lastInitial with
          | some unit => rfl
          | none =>
            obtain ⟨unit, tail, rfl⟩ := List.exists_cons_of_ne_nil named
            have within : base.length + 1 ≤ (base ++ unit :: tail).length := by
              rw [List.length_append, List.length_cons]
              omega
            have initial : (base ++ unit :: tail).take (base.length + 1) = base ++ [unit] := by
              rw [List.take_append, List.take_of_length_le (Nat.le_add_right _ _),
                Nat.add_sub_cancel_left]
              rfl
            rw [kept _ within, ← Cells.take_read _ _ within, at₁, initial]
            rfl
      · exact fun _ _ _ h => h
    · exact fun _ _ _ h => h

mutual

theorem Walking.nodeSpec (walking : Walking c P) (unfailing : Unfailing c) :
    ∀ node, NodeSpec c disk P node
  | .mk id entries => walking.node unfailing id (walking.entriesSpec unfailing entries)

theorem Walking.entriesSpec (walking : Walking c P) (unfailing : Unfailing c) :
    ∀ entries, EntriesSpec c disk P entries
  | .nil => walking.nil
  | .cons _ _ node rest =>
    walking.cons unfailing (walking.nodeSpec unfailing node) (walking.entriesSpec unfailing rest)

end

theorem Walking.backupPath (walking : Walking c P) (unfailing : Unfailing c) (Path : UnicodeString)
    {node : Node F} (fits : node.Fits Path) {s : BackupSession F} (agrees : Agrees c disk s.disk)
    (kept : s.PathReplaced = false) :
    Ensures (backupPath c Path node true) s (fun t _ s' =>
      P s (node.walk c disk Path) t s' ∧ Agrees c disk s'.disk ∧
        (Path ≠ [] → s'.PathReplaced = false)) fun _ _ _ => False := by
  unfold StrArc.backupPath
  apply ensures_bind_ok (pathReplaced_run s)
  rw [kept, if_neg Bool.false_ne_true]
  apply ensures_bind_ok (copyToPath_run Path s)
  have at_ : (s.FullPath.write 0 (Path ++ [0])).read 0 Path.length = Path := by
    rw [Cells.read_write_front _ _ _ (by simp), List.take_left]
  have start : P s [] [] { s with FullPath := s.FullPath.write 0 (Path ++ [0]) } :=
    walking.idle rfl rfl
  have spec := walking.nodeSpec unfailing node Path none
    { s with FullPath := s.FullPath.write 0 (Path ++ [0]) } fits agrees at_
  apply spec.mono
  · intro t _ s' facts
    rcases facts with ⟨visits, agrees', replaced, -⟩
    exact ⟨by simpa using walking.append start visits, agrees', fun named => (replaced named).trans kept⟩
  · exact fun _ _ _ h => h

def walkOf (c : BackupConfig F) (disk : F → ByHandleFileInformation)
    (roots : List (UnicodeString × Node F)) : List (Visit F) :=
  roots.flatMap fun root => root.2.walk c disk root.1

theorem Walking.backupFiles (walking : Walking c P) (unfailing : Unfailing c)
    {roots : List (UnicodeString × Node F)} (fits : ∀ root ∈ roots, root.2.Fits root.1)
    (named : ∀ root ∈ roots.dropLast, root.1 ≠ []) {s : BackupSession F}
    (agrees : Agrees c disk s.disk) (kept : s.PathReplaced = false) :
    Ensures (backupFiles c roots) s (fun t _ s' => P s (walkOf c disk roots) t s')
      fun _ _ _ => False := by
  induction roots generalizing s with
  | nil => exact ensures_pure (walking.idle rfl rfl)
  | cons root rest ih =>
    unfold StrArc.backupFiles
    apply ensures_bind_ok (question_run c.bCancel s)
    rw [if_neg (by simp [unfailing.uncancelled])]
    have start : P s [] [] { s with questions := s.questions + 1 } := walking.idle rfl rfl
    have agrees_start : Agrees c disk { s with questions := s.questions + 1 }.disk := agrees
    apply ensures_bind
    apply (walking.backupPath unfailing root.1 (fits root List.mem_cons_self) agrees_start kept).mono
    · intro t _ s₁ facts
      rcases facts with ⟨visits, agrees₁, kept₁⟩
      have fits' : ∀ other ∈ rest, other.2.Fits other.1 :=
        fun other mem => fits other (List.mem_cons_of_mem _ mem)
      cases rest with
      | nil =>
        have none_left : P s₁ [] [] s₁ := walking.idle rfl rfl
        exact ensures_pure (by simpa [walkOf] using walking.append start (walking.append visits none_left))
      | cons next others =>
        rw [List.dropLast_cons_cons] at named
        have kept₁ := kept₁ (named root List.mem_cons_self)
        apply (ih fits' (fun other mem => named other (List.mem_cons_of_mem _ mem)) agrees₁
          kept₁).mono
        · intro t' _ s' visits'
          simpa [walkOf] using walking.append start (walking.append visits visits')
        · exact fun _ _ _ h => h
    · exact fun _ _ _ h => h

theorem Visiting.backupPath {P : BackupSession F → List (F × UnicodeString) → List (Backed F) →
    BackupSession F → Prop} (visiting : Visiting c P) (unfailing : Unfailing c) (Path : UnicodeString)
    {node : Node F} (fits : node.Fits Path) {s : BackupSession F} (agrees : Agrees c disk s.disk)
    (kept : s.PathReplaced = false) :
    Ensures (backupPath c Path node true) s (fun t _ s' =>
      P s (node.visits c disk writtenName Path) t s') fun _ _ _ => False := by
  apply (visiting.walking.backupPath unfailing Path fits agrees kept).mono
  · intro t _ s' facts
    rcases facts with ⟨walks, -⟩
    rwa [Node.map_walk] at walks
  · exact fun _ _ _ h => h

end Walking

end StrArc
