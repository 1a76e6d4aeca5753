import LtrData.StrArc.Links
import LtrData.StrArc.RoundTrip
import LtrData.StrArc.Versions
import Mathlib.Data.List.Nodup

namespace StrArc

open Traced

/-! ### Objects under names that are free -/

/-- The name whose streams an object stands for. -/
def Archived.target (object : Archived) : UnicodeString :=
  match object.contents with
  | .streams _ => object.name
  | .link LinkName => LinkName

def Archived.HasStreams (object : Archived) : Prop := ∃ list, object.contents = .streams list

theorem Archived.HasStreams.target {object : Archived} (has : object.HasStreams) :
    object.target = object.name := by
  obtain ⟨list, contents⟩ := has
  unfold Archived.target
  rw [contents]

/-- What has been restored on a volume from objects under names that were free on `v₀`. -/
structure Laid (o : Options) (v₀ : Volume) (done : List Archived) (v : Volume) : Prop where
  named : ∀ object ∈ done, ∃ id, v₀.unused ≤ id ∧ v.names object.name = some id ∧
    v.names object.target = some id
  apart : ∀ object ∈ done, ∀ other ∈ done, v.names object.name = v.names other.name →
    object.target = other.target
  holds : ∀ object ∈ done, object.HasStreams →
    ∃ file, v.file object.name = some file ∧ file.Holds o object
  others : ∀ Name, (∀ object ∈ done, object.name ≠ Name) → v.names Name = v₀.names Name
  files : ∀ id, id < v₀.unused → v.files id = v₀.files id
  unused : v₀.unused ≤ v.unused

theorem Laid.start (o : Options) (v : Volume) : Laid o v [] v :=
  ⟨fun _ absurd => (by cases absurd), fun _ absurd => (by cases absurd),
    fun _ absurd => (by cases absurd), fun _ _ => rfl, fun _ _ => rfl, Nat.le_refl _⟩

/-- What the restore of an object under a free name does: the name leads to a new file, or to that of
    the link's target. -/
structure Lays (o : Options) (v : Volume) (object : Archived) (id : Nat) (v' : Volume) : Prop where
  names : v'.names = Function.update v.names object.name (some id)
  files : ∀ id', id' < v.unused → v'.files id' = v.files id'
  unused : v.unused ≤ v'.unused
  streams : object.HasStreams → id = v.unused ∧ (v'.files id).Holds o object
  link : ∀ LinkName, object.contents = .link LinkName → v.names LinkName = some id

section lays

variable {c : Config Volume VolumeHandle} {v : Volume} {object : Archived}

theorem restored_new (includes : ∀ File FileInfo, c.included File FileInfo = true)
    (creates : c.options.bFreshenExisting = false) (unnamed : v.names object.name = none) :
    v.restored c object = (v.add object.name (object.created v.now)).filled c.options
      ⟨object.name, v.unused⟩ object := by
  have probed : v.probed c.options object.name object.info = (true, v) := by
    unfold Volume.probed
    rw [unnamed, creates]
    rfl
  unfold Volume.restored Volume.extracted
  rw [if_pos (includes _ _), probed, if_pos rfl, v.createdTarget_none c.options unnamed]

theorem lays_streams (includes : ∀ File FileInfo, c.included File FileInfo = true)
    (creates : c.options.bFreshenExisting = false) (unnamed : v.names object.name = none)
    (has : object.HasStreams) : Lays c.options v object v.unused (v.restored c object) := by
  obtain ⟨list, contents⟩ := has
  rw [restored_new includes creates unnamed, Volume.filled_streams _ _ _ contents]
  have own : ((v.add object.name (object.created v.now)).change v.unused
      (object.overlaid c.options v.now)).files v.unused =
        object.overlaid c.options v.now (object.created v.now) := by
    simp [Volume.change, Volume.add]
  refine ⟨rfl, fun id below => ?_, Nat.le_succ _, fun _ => ⟨rfl, ?_⟩, fun LinkName link => ?_⟩
  · have other : id ≠ v.unused := by omega
    simp [Volume.change, Volume.add, Function.update_of_ne other]
  · have holds := holds_over c.options v.now object (object.created v.now)
    rwa [← own] at holds
  · rw [contents] at link
    cases link

theorem lays_link (includes : ∀ File FileInfo, c.included File FileInfo = true)
    (creates : c.options.bFreshenExisting = false) (unnamed : v.names object.name = none)
    {LinkName : UnicodeString} (contents : object.contents = .link LinkName) {id : Nat}
    (there : v.names LinkName = some id) : Lays c.options v object id (v.restored c object) := by
  have other : LinkName ≠ object.name := by
    intro same
    rw [same, unnamed] at there
    cases there
  rw [restored_new includes creates unnamed]
  have filled : (v.add object.name (object.created v.now)).filled c.options
      ⟨object.name, v.unused⟩ object = (v.add object.name (object.created v.now)).linked
        ⟨object.name, v.unused⟩ LinkName object.name := by
    unfold Volume.filled
    rw [contents]
  have removed : (if (v.add object.name (object.created v.now)).names object.name = some v.unused then
      (v.add object.name (object.created v.now)).remove object.name
      else v.add object.name (object.created v.now)) =
        (v.add object.name (object.created v.now)).remove object.name :=
    if_pos (Function.update_self _ _ _)
  have named : ((v.add object.name (object.created v.now)).remove object.name).names LinkName =
      some id := by
    simp only [Volume.remove, Volume.add, Function.update_of_ne other]
    exact there
  rw [filled, Volume.linked_some removed named]
  refine ⟨?_, fun id' below => ?_, Nat.le_succ _, fun has => ?_, fun LinkName' link => ?_⟩
  · simp only [Volume.link, Volume.remove, Volume.add, Function.update_idem]
  · have old : id' ≠ v.unused := by omega
    simp only [Volume.link, Volume.remove, Volume.add, Function.update_of_ne old]
  · obtain ⟨list, streams⟩ := has
    rw [contents] at streams
    cases streams
  · rw [contents] at link
    cases link
    exact there

end lays

theorem Laid.next {o : Options} {v₀ v v' : Volume} {done : List Archived} {object : Archived} {id : Nat}
    (laid : Laid o v₀ done v) (unnamed : v.names object.name = none)
    (new : ∀ other ∈ done, other.name ≠ object.name) (lays : Lays o v object id v')
    (resolves : ∀ LinkName, object.contents = .link LinkName →
      ∃ first ∈ done, first.name = LinkName ∧ first.HasStreams) :
    Laid o v₀ (done ++ [object]) v' := by
  have own : v'.names object.name = some id := by
    rw [lays.names, Function.update_self]
  have rest (Name : UnicodeString) (other : Name ≠ object.name) : v'.names Name = v.names Name := by
    rw [lays.names, Function.update_of_ne other]
  have kept {Name : UnicodeString} {id' : Nat} (named : v.names Name = some id') :
      v'.names Name = some id' := by
    rw [rest, named]
    intro same
    rw [same, unnamed] at named
    cases named
  -- the name of a link's target is the one of an object restored before
  have source (LinkName : UnicodeString) (link : object.contents = .link LinkName) :
      ∃ first ∈ done, first.name = LinkName ∧ first.target = LinkName ∧ v.names LinkName = some id := by
    obtain ⟨first, mem, name, has⟩ := resolves LinkName link
    exact ⟨first, mem, name, has.target.trans name, lays.link LinkName link⟩
  have target : (∃ list, object.contents = .streams list) ∨
      ∃ LinkName, object.contents = .link LinkName := by
    cases object.contents with
    | streams list => exact .inl ⟨list, rfl⟩
    | link LinkName => exact .inr ⟨LinkName, rfl⟩
  have linked (LinkName : UnicodeString) (link : object.contents = .link LinkName) :
      object.target = LinkName := by
    unfold Archived.target
    rw [link]
  have apart (other : Archived) (mem : other ∈ done) (same : v.names other.name = some id) :
      object.target = other.target := by
    rcases target with has | ⟨LinkName, link⟩
    · have fresh := (lays.streams has).1
      have below := v.fresh other.name id same
      omega
    · obtain ⟨first, mem', name, is, there⟩ := source LinkName link
      rw [linked LinkName link, ← is]
      apply laid.apart first mem' other mem
      rw [name, there, same]
  have old (other : Archived) (mem : other ∈ done) : v'.names other.name = v.names other.name :=
    rest other.name (new other mem)
  refine ⟨?_, ?_, ?_, ?_, ?_, laid.unused.trans lays.unused⟩
  · intro other mem
    rcases List.mem_append.mp mem with mem | mem
    · obtain ⟨id', above, name, target⟩ := laid.named other mem
      exact ⟨id', above, kept name, kept target⟩
    · obtain rfl := List.mem_singleton.mp mem
      rcases target with has | ⟨LinkName, link⟩
      · refine ⟨id, ?_, own, by rw [Archived.HasStreams.target has, own]⟩
        rw [(lays.streams has).1]
        exact laid.unused
      · obtain ⟨first, mem', name, is, there⟩ := source LinkName link
        obtain ⟨id', above, first_name, -⟩ := laid.named first mem'
        rw [name, there] at first_name
        cases first_name
        exact ⟨id, above, own, by rw [linked LinkName link]; exact kept there⟩
  · intro one mem two mem' same
    rcases List.mem_append.mp mem with here | here <;>
      rcases List.mem_append.mp mem' with here' | here'
    · rw [old one here, old two here'] at same
      exact laid.apart one here two here' same
    · obtain rfl := List.mem_singleton.mp here'
      rw [old one here, own] at same
      exact (apart one here same).symm
    · obtain rfl := List.mem_singleton.mp here
      rw [old two here', own] at same
      exact apart two here' same.symm
    · rw [List.mem_singleton.mp here, List.mem_singleton.mp here']
  · intro other mem has
    rcases List.mem_append.mp mem with mem | mem
    · obtain ⟨file, there, holds⟩ := laid.holds other mem has
      obtain ⟨id', named, rfl⟩ := Option.map_eq_some_iff.mp there
      refine ⟨_, ?_, holds⟩
      rw [file_some (kept named), lays.files id' (v.fresh _ _ named)]
    · obtain rfl := List.mem_singleton.mp mem
      exact ⟨_, file_some own, (lays.streams has).2⟩
  · intro Name absent
    rw [rest Name fun same => absent object (by simp) same.symm]
    exact laid.others Name fun other mem => absent other (by simp [mem])
  · intro id' below
    rw [lays.files id' (Nat.lt_of_lt_of_le below laid.unused), laid.files id' below]

/-- Every link leads to the name of an object with streams that stands before it. -/
def Resolved : List Archived → List Archived → Prop
  | _, [] => True
  | done, object :: rest =>
    (∀ LinkName, object.contents = .link LinkName →
      ∃ first ∈ done, first.name = LinkName ∧ first.HasStreams) ∧ Resolved (done ++ [object]) rest

theorem Laid.foldl {c : Config Volume VolumeHandle}
    (includes : ∀ File FileInfo, c.included File FileInfo = true)
    (creates : c.options.bFreshenExisting = false) {v₀ v : Volume} {done objects : List Archived}
    (laid : Laid c.options v₀ done v) (resolved : Resolved done objects)
    (distinct : ((done ++ objects).map Archived.name).Nodup)
    (free : ∀ object ∈ objects, v₀.names object.name = none) :
    Laid c.options v₀ (done ++ objects) (objects.foldl (Volume.restored c) v) := by
  induction objects generalizing done v with
  | nil =>
    rw [List.append_nil]
    exact laid
  | cons object rest ih =>
    obtain ⟨resolves, resolved⟩ := resolved
    have new : ∀ other ∈ done, other.name ≠ object.name := by
      intro other mem same
      rw [List.map_append, List.nodup_append] at distinct
      exact distinct.2.2 other.name (List.mem_map_of_mem mem) object.name (by simp) same
    have unnamed : v.names object.name = none :=
      (laid.others object.name new).trans (free object List.mem_cons_self)
    have lays : ∃ id, Lays c.options v object id (v.restored c object) := by
      cases contents : object.contents with
      | streams list => exact ⟨_, lays_streams includes creates unnamed ⟨list, contents⟩⟩
      | link LinkName =>
        obtain ⟨first, mem, name, has⟩ := resolves LinkName contents
        obtain ⟨id, -, there, -⟩ := laid.named first mem
        rw [name] at there
        exact ⟨id, lays_link includes creates unnamed contents there⟩
    obtain ⟨id, lays⟩ := lays
    have next := laid.next unnamed new lays resolves
    rw [List.foldl_cons, ← List.singleton_append, ← List.append_assoc]
    rw [← List.singleton_append, ← List.append_assoc] at distinct
    exact ih next resolved distinct fun other mem => free other (List.mem_cons_of_mem _ mem)

/-- Two names lead to one file exactly if they stand for the same streams. -/
theorem Laid.same_file {o : Options} {v₀ v : Volume} {done : List Archived} (laid : Laid o v₀ done v)
    {object other : Archived} (mem : object ∈ done) (mem' : other ∈ done) :
    v.names object.name = v.names other.name ↔ object.target = other.target := by
  constructor
  · exact laid.apart object mem other mem'
  · intro same
    obtain ⟨id, -, name, target⟩ := laid.named object mem
    obtain ⟨id', -, name', target'⟩ := laid.named other mem'
    rw [name, name', ← target, ← target', same]

/-! ### What a backup has archived, under free names -/

section backed

variable {F : Type} {c : BackupConfig F} {method : BackupMethods} {streams : F → Nat → List Stream}

def Backed.target (object : Backed F) : UnicodeString := object.LinkName.getD object.File

theorem Backed.target_archived (object : Backed F) :
    (object.archived method streams).target = object.target := by
  unfold Archived.target Backed.archived Backed.target
  cases object.LinkName <;> rfl

theorem Backed.hasStreams {object : Backed F} (unlinked : object.LinkName = none) :
    (object.archived method streams).HasStreams := by
  refine ⟨streams object.id object.asked, ?_⟩
  unfold Backed.archived
  rw [unlinked]

theorem LinksFrom.resolved {before history : List (Backed F)} (links : LinksFrom c before history) :
    Resolved (before.map (Backed.archived method streams))
      (history.map (Backed.archived method streams)) := by
  induction history generalizing before with
  | nil => trivial
  | cons v rest ih =>
    obtain ⟨link, links⟩ := links
    refine ⟨fun LinkName contents => ?_, by simpa using ih links⟩
    have linked : v.LinkName = some LinkName := by
      unfold Backed.archived at contents
      cases name : v.LinkName with
      | none =>
        rw [name] at contents
        cases contents
      | some LinkName' =>
        rw [name] at contents
        cases contents
        rfl
    obtain ⟨-, u, mem, -, unlinked, name, -⟩ := link.later LinkName linked
    exact ⟨_, List.mem_map_of_mem mem, name, Backed.hasStreams unlinked⟩

/-- The object whose streams stand for a tracked file. -/
theorem LinksFrom.root {history : List (Backed F)} (links : LinksFrom c [] history) {v : Backed F}
    (mem : v ∈ history) (isTracked : Tracked c v) :
    ∃ u ∈ history, Tracked c u ∧ u.LinkName = none ∧ u.File = v.target ∧ SameKey u v := by
  cases link : v.LinkName with
  | none =>
    refine ⟨v, mem, isTracked, link, ?_, rfl, rfl⟩
    rw [Backed.target, link]
    rfl
  | some LinkName =>
    obtain ⟨before, after, rfl⟩ := List.append_of_mem mem
    obtain ⟨-, u, mem', tracked, unlinked, name, key⟩ := links.at.later LinkName link
    refine ⟨u, List.mem_append_left _ mem', tracked, unlinked, ?_, key⟩
    rw [name, Backed.target, link]
    rfl

theorem LinksFrom.first_only {history : List (Backed F)} (links : LinksFrom c [] history)
    {u v : Backed F} (mem : u ∈ history) (mem' : v ∈ history) (tracked : Tracked c u)
    (tracked' : Tracked c v) (unlinked : u.LinkName = none) (unlinked' : v.LinkName = none)
    (key : SameKey u v) : u = v := by
  obtain ⟨before, after, rfl⟩ := List.append_of_mem mem
  have first := links.at.first tracked unlinked
  rcases List.mem_append.mp mem' with here | here
  · exact absurd ⟨key.1.symm, key.2.symm⟩ (first v (by simpa using here) tracked')
  rcases List.mem_cons.mp here with rfl | here
  · rfl
  · obtain ⟨between, later, rfl⟩ := List.append_of_mem here
    have rearranged : before ++ u :: (between ++ v :: later) =
        (before ++ u :: between) ++ v :: later := by simp
    rw [rearranged] at links
    exact absurd key (links.at.first tracked' unlinked' u (by simp) tracked)

theorem LinksFrom.target_eq {history : List (Backed F)} (links : LinksFrom c [] history)
    (distinct : (history.map Backed.File).Nodup) {u v : Backed F} (mem : u ∈ history)
    (mem' : v ∈ history) : u.target = v.target ↔
      u.File = v.File ∨ Tracked c u ∧ Tracked c v ∧ SameKey u v := by
  have one {x y : Backed F} (mem : x ∈ history) (mem' : y ∈ history) (same : x.File = y.File) : x = y :=
    List.inj_on_of_nodup_map distinct mem mem' same
  have rooted {x : Backed F} {LinkName : UnicodeString} (mem : x ∈ history)
      (link : x.LinkName = some LinkName) : Tracked c x := by
    obtain ⟨before, after, rfl⟩ := List.append_of_mem mem
    exact (links.at.later LinkName link).1
  -- if one of them is a link, both stand for the file whose streams it leads to
  have joined {x y : Backed F} (mem : x ∈ history) (mem' : y ∈ history) (linked : x.LinkName ≠ none)
      (same : x.target = y.target) : Tracked c x ∧ Tracked c y ∧ SameKey x y := by
    obtain ⟨LinkName, link⟩ := Option.ne_none_iff_exists'.mp linked
    have isTracked := rooted mem link
    obtain ⟨first, mem_first, tracked, -, name, key⟩ := links.root mem isTracked
    rw [same] at name
    cases other : y.LinkName with
    | none =>
      rw [Backed.target, other] at name
      obtain rfl := one mem_first mem' name
      exact ⟨isTracked, tracked, key.1.symm, key.2.symm⟩
    | some LinkName' =>
      obtain ⟨first', mem_first', -, -, name', key'⟩ := links.root mem' (rooted mem' other)
      obtain rfl := one mem_first mem_first' (name.trans name'.symm)
      exact ⟨isTracked, rooted mem' other, key.1.symm.trans key'.1, key.2.symm.trans key'.2⟩
  constructor
  · intro same
    by_cases linked : u.LinkName = none
    · by_cases linked' : v.LinkName = none
      · left
        rwa [Backed.target, Backed.target, linked, linked'] at same
      · right
        obtain ⟨tracked', tracked, key⟩ := joined mem' mem linked' same.symm
        exact ⟨tracked, tracked', key.1.symm, key.2.symm⟩
    · exact .inr (joined mem mem' linked same)
  · intro same
    rcases same with same | ⟨tracked, tracked', key⟩
    · rw [one mem mem' same]
    · obtain ⟨x, mem_x, tracked_x, unlinked, name, key_x⟩ := links.root mem tracked
      obtain ⟨y, mem_y, tracked_y, unlinked', name', key_y⟩ := links.root mem' tracked'
      have both : SameKey x y := ⟨key_x.1.trans (key.1.trans key_y.1.symm),
        key_x.2.trans (key.2.trans key_y.2.symm)⟩
      rw [← name, ← name', links.first_only mem_x mem_y tracked_x tracked_y unlinked unlinked' both]

end backed

/-- A backup of a file under both of its names. -/
def linkedBackup : CompleteBackup Unit :=
  { backupOf [0x61] [dataStream] with
    roots := [([0x61], twoNames), ([0x62], twoNames)]
    disk := twoNamesInformation }

def linkedObjects : List Archived :=
  [⟨[0x61], twoNamesInformation (), [], .streams [dataStream]⟩,
    ⟨[0x62], twoNamesInformation (), [], .link [0x61]⟩]

theorem linkedBackup_objects : linkedBackup.objects = linkedObjects := by
  decide +kernel

theorem linkedBackup_events : linkedBackup.run.events =
    [⟨(), [0x61], twoNamesInformation (), [], none, 5, dataStream.encode, true⟩,
      ⟨(), [0x62], twoNamesInformation (), [], some [0x61], 13, [], true⟩] := by
  decide +kernel

theorem linkedObjects_wellFormed : ∀ object ∈ linkedObjects, object.WellFormed 65536 := by
  intro object mem
  have named : ([0x61] : UnicodeString) ≠ [] ∧ ([0x62] : UnicodeString) ≠ [] := ⟨by decide, by decide⟩
  rcases List.mem_pair.mp mem with rfl | rfl
  · refine ⟨named.1, by decide, by decide, fun _ absurd => (by cases absurd), ?_, ?_⟩
    · simp [encodeFileHeader, encodeShortName, headerSize, sizeofFileInformation]
    · intro stream mem'
      obtain rfl := List.mem_singleton.mp mem'
      exact dataStream_wellFormed
  · refine ⟨named.2, by decide, by decide, fun _ absurd => (by cases absurd), ?_, by decide, by decide⟩
    simp [encodeFileHeader, encodeShortName, headerSize, sizeofFileInformation]

theorem linkedObjects_unnamed : ∀ object ∈ linkedObjects, object.Unnamed := by
  intro object mem list contents stream mem'
  rcases List.mem_pair.mp mem with rfl | rfl
  · cases contents
    obtain rfl := List.mem_singleton.mp mem'
    exact ⟨by decide, by decide, by decide⟩
  · cases contents

theorem linkedBackup_archive :
    (volumeConfig (linkedObjects.flatMap Archived.encode) {}).archive.bytes =
      linkedBackup.run.state.archive := by
  rw [linkedBackup.archive_eq, linkedBackup_objects]
  rfl

theorem linkedBackup_names {disk : Volume}
    (same : ∀ object ∈ linkedBackup.run.events, ∀ other ∈ linkedBackup.run.events,
      disk.names object.File = disk.names other.File ↔ object.File = other.File ∨
        Tracked linkedBackup.c object ∧ Tracked linkedBackup.c other ∧ SameKey object other) :
    disk.names [0x61] = disk.names [0x62] := by
  rw [linkedBackup_events] at same
  exact (same _ List.mem_cons_self _ (List.mem_cons_of_mem _ List.mem_cons_self)).mpr
    (.inr ⟨rfl, rfl, rfl, rfl⟩)

end StrArc
