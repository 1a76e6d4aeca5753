import LtrData.StrArc.RoundTrip
import LtrData.StrArc.Traversal
import LtrData.StrArc.Versions
import Mathlib.Data.List.Chain
import Mathlib.Data.List.Nodup

namespace StrArc

open Traced

variable {F : Type} [DecidableEq F]

/-! ### What a backup selects -/

/-- Where no file is visited twice, the visits archived are those of the files that are not skipped by
    their attributes at the start. -/
def Selects (c : BackupConfig F) (s : BackupSession F) (v : List (Visit F)) (t : List (Backed F))
    (s' : BackupSession F) : Prop :=
  (v.map Visit.id).Nodup →
    t.map (fun object => (object.id, object.File)) =
      (v.filter fun visit => ¬skips c (s.disk visit.id)).map Visit.written ∧
    ∀ id, id ∉ v.map Visit.id → s'.disk id = s.disk id

theorem walking_selects (c : BackupConfig F) : Walking c (Selects c) where
  idle same _ _ := ⟨rfl, fun id _ => by rw [same]⟩
  append := by
    intro s s' s'' v v' t t' first second nodup
    rw [List.map_append] at nodup
    obtain ⟨nodup₁, nodup₂, apart⟩ := List.nodup_append.mp nodup
    obtain ⟨objects₁, disk₁⟩ := first nodup₁
    obtain ⟨objects₂, disk₂⟩ := second nodup₂
    refine ⟨?_, fun id absent => ?_⟩
    · rw [List.map_append, List.filter_append, List.map_append, objects₁, objects₂]
      congr 2
      apply List.filter_congr
      intro visit mem
      have mem' : visit.id ∈ v'.map Visit.id := List.mem_map_of_mem mem
      rw [disk₁ visit.id fun mem => apart _ mem _ mem' rfl]
    · rw [List.map_append, List.mem_append, not_or] at absent
      rw [disk₂ id absent.2, disk₁ id absent.1]
  skipped := by
    intro id name File s v t s' first skips nodup
    rw [List.map_append] at nodup
    obtain ⟨objects, disk⟩ := first (List.nodup_append.mp nodup).1
    refine ⟨?_, fun other absent => disk other fun mem => absent (by simp [mem])⟩
    rw [objects, List.filter_append]
    simp [skips]
  object := by
    intro id name File ShortName object s v t s₁ s' first open_ archives nodup
    rw [List.map_append] at nodup
    obtain ⟨nodup₁, -, apart⟩ := List.nodup_append.mp nodup
    obtain ⟨objects, disk⟩ := first nodup₁
    refine ⟨?_, fun other absent => ?_⟩
    · rw [List.map_append, objects, List.filter_append, List.map_append]
      simp [open_, archives.sameId, archives.sameFile, Visit.written]
    · rw [List.map_append, List.mem_append, not_or] at absent
      rw [← disk other absent.1]
      have other_file : other ≠ id := fun same => absent.2 (by simp [same])
      rcases archives.disk with same | ⟨-, reset⟩
      · rw [same]
      · rw [reset]
        exact if_neg other_file

namespace CompleteBackup

variable (b : CompleteBackup F)

def visits : List (Visit F) := walkOf b.c b.disk b.roots

/-- A backup without errors of files with one name each, which stay as they are meanwhile. -/
structure Sound : Prop where
  unfailing : Unfailing b.c
  fits : ∀ root ∈ b.roots, root.2.Fits root.1
  named : ∀ root ∈ b.roots.dropLast, root.1 ≠ []
  files : (b.visits.map Visit.id).Nodup
  names : (b.visits.map Visit.File).Nodup
  steady : ∀ id n, b.streams id n = b.streams id 0

/-- Files that the backup leaves out because they have not changed. -/
def Skips (visit : Visit F) : Prop := skips b.c (b.disk visit.id)

instance (visit : Visit F) : Decidable (b.Skips visit) :=
  inferInstanceAs (Decidable (skips _ _))

variable {b}

theorem Sound.selects (sound : b.Sound) :
    b.run.events.map (fun object => (object.id, object.File)) =
      (b.visits.filter fun visit => ¬b.Skips visit).map Visit.written := by
  have walks := (walking_selects b.c).backupFiles sound.unfailing sound.fits sound.named
    (fun _ => rfl : Agrees b.c b.disk (BackupSession.start b.disk).disk)
    (rfl : (BackupSession.start b.disk).PathReplaced = false)
  unfold run
  cases outcome : backupFiles b.c b.roots (.start b.disk) with
  | ok t result s' => exact ((ensures_of_ok outcome).mp walks sound.files).1
  | error t e s' => exact e.elim

end CompleteBackup

theorem filter_of_nodup {α β : Type} [DecidableEq β] {f : α → β} {list : List α}
    (nodup : (list.map f).Nodup) {a : α} (mem : a ∈ list) : list.filter (fun b => f b = f a) = [a] := by
  induction list with
  | nil => cases mem
  | cons first rest ih =>
    rw [List.map_cons, List.nodup_cons] at nodup
    rcases List.mem_cons.mp mem with rfl | mem
    · rw [List.filter_cons_of_pos (by simp), List.filter_eq_nil_iff.mpr]
      intro other mem same
      exact nodup.1 (of_decide_eq_true same ▸ List.mem_map_of_mem mem)
    · have apart : ¬f first = f a := fun same => nodup.1 (same ▸ List.mem_map_of_mem mem)
      rw [List.filter_cons_of_neg (by simpa using apart), ih nodup.2 mem]

/-! ### The versions a backup adds -/

/-- The version of a name is one of what this file held when it was backed up. -/
def Archived.Of (object : Archived) (b : CompleteBackup F) (visit : Visit F) : Prop :=
  object.contents = .streams (b.streams visit.id 0)

section adds

variable {b : CompleteBackup F} {c : Config Volume VolumeHandle}

theorem CompleteBackup.Sound.events_of (sound : b.Sound) {visit : Visit F} (mem : visit ∈ b.visits) :
    (b.run.events.filter fun object => object.File = visit.File).map
      (fun object => (object.id, object.File)) = if b.Skips visit then [] else [visit.written] := by
  have here := congrArg (List.filter fun pair : F × UnicodeString => pair.2 = visit.File) sound.selects
  have one : b.visits.filter ((fun pair : F × UnicodeString => decide (pair.2 = visit.File)) ∘
      Visit.written) = [visit] := filter_of_nodup sound.names mem
  rw [List.filter_map, List.filter_map, List.filter_comm, one] at here
  refine Eq.trans here ?_
  by_cases skips : b.Skips visit
  · simp [skips]
  · simp [skips]

/-- A backup adds a version to the name of a file it does not skip, and none to any other. -/
theorem CompleteBackup.Sound.adds (sound : b.Sound)
    (includes : ∀ File FileInfo, c.included File FileInfo = true)
    (streams : ∀ object ∈ b.objects, ∃ list, object.contents = .streams list) {visit : Visit F}
    (mem : visit ∈ b.visits) :
    if b.Skips visit then versions c visit.File b.objects = []
    else ∃ object : Archived, versions c visit.File b.objects = [object] ∧ object.Of b visit := by
  have under : versions c visit.File b.objects =
      (b.run.events.filter fun object => object.File = visit.File).map
        (Backed.archived b.c.options.BackupMethod b.streams) := by
    unfold versions CompleteBackup.objects
    rw [List.filter_eq_self.mpr fun object _ => includes _ _, List.filter_map]
    rfl
  have events := sound.events_of mem
  rw [under]
  by_cases skips : b.Skips visit
  · rw [if_pos skips] at events ⊢
    rw [List.map_eq_nil_iff.mp events]
    rfl
  · rw [if_neg skips] at events ⊢
    obtain ⟨object, only, is⟩ := List.map_eq_singleton_iff.mp events
    rw [only]
    refine ⟨_, rfl, ?_⟩
    have member : object ∈ b.run.events := List.mem_of_mem_filter (only ▸ List.mem_singleton_self object)
    obtain ⟨list, contents⟩ := streams _ (List.mem_map_of_mem member)
    unfold Archived.Of
    unfold Backed.archived at contents ⊢
    dsimp only at contents ⊢
    cases link : object.LinkName with
    | some LinkName =>
      rw [link] at contents
      cases contents
    | none =>
      dsimp only
      rw [sound.steady, (Prod.mk.inj is).1]

end adds

/-! ### A chain of backups -/

/-- What the later backup skips was there when the earlier one was made, with the same streams: files
    that change get the archive attribute. -/
def Precedes (earlier later : CompleteBackup F) : Prop :=
  ∀ visit ∈ later.visits, later.Skips visit → ∃ before ∈ earlier.visits, before.File = visit.File ∧
    earlier.streams before.id 0 = later.streams visit.id 0

/-- The last version of every name is what its file held at this backup. -/
def Covers (c : Config Volume VolumeHandle) (objects : List Archived) (b : CompleteBackup F) : Prop :=
  ∀ visit ∈ b.visits, ∃ before object, versions c visit.File objects = before ++ [object] ∧
    object.Of b visit

section chain

variable {c : Config Volume VolumeHandle} (includes : ∀ File FileInfo, c.included File FileInfo = true)
include includes

theorem covers_full {b : CompleteBackup F} (sound : b.Sound)
    (streams : ∀ object ∈ b.objects, ∃ list, object.contents = .streams list)
    (full : skipsUnchanged b.c.options.BackupMethod = false) : Covers c b.objects b := by
  intro visit mem
  have open_ : ¬b.Skips visit := by
    intro skips
    rw [CompleteBackup.Skips, StrArc.skips, full] at skips
    exact Bool.false_ne_true skips.1
  have added := sound.adds includes streams mem
  rw [if_neg open_] at added
  obtain ⟨object, only, is⟩ := added
  exact ⟨[], object, only, is⟩

theorem Covers.next {objects : List Archived} {earlier later : CompleteBackup F}
    (covers : Covers c objects earlier) (precedes : Precedes earlier later) (sound : later.Sound)
    (streams : ∀ object ∈ later.objects, ∃ list, object.contents = .streams list) :
    Covers c (objects ++ later.objects) later := by
  intro visit mem
  have added := sound.adds includes streams mem
  rw [versions_append]
  by_cases skips : later.Skips visit
  · rw [if_pos skips] at added
    obtain ⟨before, mem', name, same⟩ := precedes visit mem skips
    obtain ⟨others, object, last, is⟩ := covers before mem'
    rw [name] at last
    refine ⟨others, object, by rw [added, last, List.append_nil], ?_⟩
    unfold Archived.Of at is ⊢
    rw [is, same]
  · rw [if_neg skips] at added
    obtain ⟨object, only, is⟩ := added
    exact ⟨_, object, by rw [only], is⟩

theorem Covers.chain {objects : List Archived} {b : CompleteBackup F} {rest : List (CompleteBackup F)}
    (covers : Covers c objects b) (chain : List.IsChain Precedes (b :: rest))
    (sound : ∀ other ∈ rest, other.Sound)
    (streams : ∀ object ∈ rest.flatMap CompleteBackup.objects, ∃ list, object.contents = .streams list) :
    Covers c (objects ++ rest.flatMap CompleteBackup.objects)
      ((b :: rest).getLast (List.cons_ne_nil b rest)) := by
  induction rest generalizing objects b with
  | nil =>
    rw [List.flatMap_nil, List.append_nil]
    exact covers
  | cons next rest ih =>
    obtain ⟨precedes, chain⟩ := List.isChain_cons_cons.mp chain
    have next_covers := covers.next includes precedes (sound next List.mem_cons_self)
      fun object mem => streams object (by
        rw [List.flatMap_cons]
        exact List.mem_append_left _ mem)
    rw [List.flatMap_cons, ← List.append_assoc, List.getLast_cons_cons]
    exact ih next_covers chain (fun other mem => sound other (List.mem_cons_of_mem _ mem))
      fun object mem => streams object (by
        rw [List.flatMap_cons]
        exact List.mem_append_right _ mem)

end chain

/-- An incremental backup that finds the file as it was at the full one. -/
def unchangedBackup : CompleteBackup Unit :=
  { backupOf [0x61] [dataStream] with
    c := { (backupOf [0x61] [dataStream]).c with options := { BackupMethod := .inc } } }

theorem backupOf_visits : (backupOf [0x61] [dataStream]).visits = [⟨(), [0x61], [0x61], 0⟩] := rfl

theorem backupOf_sound : (backupOf [0x61] [dataStream]).Sound where
  unfailing := ⟨fun _ => rfl, fun _ => rfl, fun _ => rfl, rfl⟩
  fits root mem := by
    obtain rfl := List.mem_singleton.mp mem
    exact trivial
  named _ absurd := by cases absurd
  files := by
    rw [backupOf_visits]
    exact List.nodup_singleton _
  names := by
    rw [backupOf_visits]
    exact List.nodup_singleton _
  steady _ _ := rfl

theorem unchangedBackup_sound : unchangedBackup.Sound :=
  { backupOf_sound with unfailing := ⟨fun _ => rfl, fun _ => rfl, fun _ => rfl, rfl⟩ }

end StrArc
