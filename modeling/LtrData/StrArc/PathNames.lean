import LtrData.StrArc.Traversal

namespace StrArc

open Traced

variable {F : Type} {c : BackupConfig F} {disk : F → ByHandleFileInformation}

/-- The names below a path, each directory behind its contents. -/
def Node.names (c : BackupConfig F) (disk : F → ByHandleFileInformation) (node : Node F)
    (Path : UnicodeString) : List UnicodeString := (node.visits c disk ownName Path).map Prod.snd

/-- "." is archived behind entries the last of which begins with another character. -/
def Garbled (c : BackupConfig F) (disk : F → ByHandleFileInformation) :
    Node F → UnicodeString → Prop
  | .mk id entries, Path => Path = [dot] ∧ excludedString c Path = (false, true) ∧
    traverses c (disk id) = true ∧ ∃ unit, entries.lastInitial = some unit ∧ unit ≠ dot

theorem writtenName_ownName {Path : UnicodeString} (own : Path ≠ [dot]) (traversed : Bool)
    (entries : Entries F) : writtenName Path traversed entries = ownName Path traversed entries := by
  unfold writtenName ownName
  rw [if_neg (fun root : Path = [dot] ∧ traversed = true => own root.1)]

mutual

theorem Node.visits_own : ∀ {node : Node F} {Path : UnicodeString}, node.Fits Path → Path ≠ [dot] →
    node.visits c disk writtenName Path = node.visits c disk ownName Path
  | .mk id entries, Path, fits, own => by
    unfold Node.visits
    rw [Entries.visits_own fits, writtenName_ownName own]

theorem Entries.visits_own : ∀ {entries : Entries F} {base : UnicodeString}, entries.Fits base →
    entries.visits c disk writtenName base = entries.visits c disk ownName base
  | .nil, _, _ => by rfl
  | .cons FileName ShortName node rest, base, fits => by
    unfold Entries.visits
    cases self : isSelfOrParent FileName with
    | true => rw [if_pos rfl, if_pos rfl, Entries.visits_own fits.2]
    | false =>
      obtain ⟨named, -, below⟩ := fits.1 self
      have own : base ++ FileName ≠ [dot] := fun root => not_root base named self (.inl root)
      rw [Node.visits_own below own, Entries.visits_own fits.2]

end

theorem writtenName_dot (traversed : Bool) (entries : Entries F) :
    writtenName [dot] traversed entries = [dot] ↔
      ¬ (traversed = true ∧ ∃ unit, entries.lastInitial = some unit ∧ unit ≠ dot) := by
  unfold writtenName
  rw [if_neg (List.cons_ne_nil _ _)]
  cases traversed with
  | false => simp
  | true =>
    rw [if_pos ⟨rfl, rfl⟩]
    cases last : entries.lastInitial with
    | none => simp
    | some unit => simp

theorem Node.visits_names (node : Node F) {Path : UnicodeString} (fits : node.Fits Path) :
    (node.visits c disk writtenName Path).map Prod.snd = node.names c disk Path ↔
      ¬ Garbled c disk node Path := by
  obtain ⟨id, entries⟩ := node
  unfold Node.names
  by_cases root : Path = [dot]
  · subst root
    unfold Node.visits
    rw [Entries.visits_own fits]
    have own : ownName [dot] (traverses c (disk id)) entries = [dot] := if_neg (List.cons_ne_nil _ _)
    have kept := writtenName_dot (traverses c (disk id)) entries
    cases filter : excludedString c [dot] with
    | mk excluded included =>
      cases excluded <;> cases included <;> simp [Garbled, filter, own, kept]
  · have apart : ¬ Garbled c disk (.mk id entries) Path := fun garbled => root garbled.1
    rw [Node.visits_own fits root]
    exact ⟨fun _ => apart, fun _ => rfl⟩

variable [DecidableEq F]

theorem visiting_all (every : skipsUnchanged c.options.BackupMethod = false) :
    Visiting c fun _ v t _ => t.map (fun object => (object.id, object.File)) = v where
  idle _ _ := rfl
  append first second := by rw [List.map_append, first, second]
  skipped _ skips := by
    rw [StrArc.skips, every] at skips
    exact absurd skips.1 Bool.false_ne_true
  object first _ archives := by
    rw [List.map_append, first, List.map_singleton, archives.sameId, archives.sameFile]

/-- BackupFile writes the headers of a tree in post-order under their paths, unless the start is "."
    and its own name has been overwritten. -/
theorem backupPath_names (unfailing : Unfailing c)
    (every : skipsUnchanged c.options.BackupMethod = false) (Path : UnicodeString) {node : Node F}
    (fits : node.Fits Path) {s : BackupSession F} (kept : s.PathReplaced = false) :
    (backupPath c Path node true s).events.map Backed.File = node.names c s.disk Path ↔
      ¬ Garbled c s.disk node Path := by
  have run := (visiting_all every).backupPath unfailing Path fits (s := s) (fun _ => rfl) kept
  rw [← node.visits_names fits]
  cases outcome : backupPath c Path node true s with
  | ok t result s' =>
    have visits := (ensures_of_ok outcome).mp run
    rw [← visits, List.map_map]
    rfl
  | error t e s' => exact e.elim

def oneEntry : Node Bool := .mk true (.cons [0x61] [] (.mk false .nil) .nil)

def oneEntryDisk : Bool → ByHandleFileInformation
  | true => { noFileInformation with dwFileAttributes := fileAttributeDirectory }
  | false => noFileInformation

def plainBackup : BackupConfig Bool where
  options := {}
  opens _ := true
  informs _ := true
  resets _ := true
  reads _ _ := ⟨[], noBlocks_nonempty, false⟩
  findShortName _ _ := []
  lower unit := unit
  bCancel _ := false

theorem plainBackup_unfailing : Unfailing plainBackup :=
  ⟨fun _ => rfl, fun _ => rfl, fun _ => rfl, rfl⟩

theorem oneEntry_fits (Path : UnicodeString) (short : 2 * Path.length ≤ 65530) :
    oneEntry.Fits Path := by
  have maximum : fullPathMaximum = 65535 := rfl
  refine ⟨fun _ => ⟨List.cons_ne_nil _ _, ?_, trivial⟩, trivial⟩
  unfold pathBase
  split
  · decide
  · simp only [List.length_append, List.length_singleton]
    omega

theorem backupPath_names_directory :
    (backupPath plainBackup [0x64] oneEntry true (.start oneEntryDisk)).events.map Backed.File =
      [[0x64, backslash, 0x61], [0x64]] := by
  have ungarbled : ¬ Garbled plainBackup oneEntryDisk oneEntry [0x64] := fun garbled =>
    absurd garbled.1 (by decide)
  have names := (backupPath_names plainBackup_unfailing rfl [0x64] (oneEntry_fits _ (by decide))
    (rfl : (BackupSession.start oneEntryDisk).PathReplaced = false)).mpr ungarbled
  rw [names]
  decide +kernel

/-- "." is archived under the name of the file in it. -/
theorem dot_overwritten : Unfailing plainBackup ∧ oneEntry.Fits [dot] ∧
    (backupPath plainBackup [dot] oneEntry true (.start oneEntryDisk)).events.map Backed.File ≠
      oneEntry.names plainBackup oneEntryDisk [dot] :=
  ⟨plainBackup_unfailing, oneEntry_fits _ (by decide), by decide +kernel⟩

end StrArc
