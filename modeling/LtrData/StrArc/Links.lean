import LtrData.StrArc.BackupRuns

namespace StrArc

open Traced

variable {F : Type} {c : BackupConfig F}

def SameKey (u v : Backed F) : Prop :=
  u.FileInfo.dwVolumeSerialNumber = v.FileInfo.dwVolumeSerialNumber ∧
    trackedNumber (fileIndex u.FileInfo) = trackedNumber (fileIndex v.FileInfo)

def SameFile (u v : Backed F) : Prop :=
  u.FileInfo.dwVolumeSerialNumber = v.FileInfo.dwVolumeSerialNumber ∧
    fileIndex u.FileInfo = fileIndex v.FileInfo

theorem SameFile.key {u v : Backed F} (same : SameFile u v) : SameKey u v := ⟨same.1, by rw [same.2]⟩

def Tracked (c : BackupConfig F) (u : Backed F) : Prop := tracked c u.FileInfo = true

theorem linkSlot_trackedNumber (n : LONGLONG) : linkSlot (trackedNumber n) = linkSlot n := by
  have within : (0x0000FFFFFFFFFFFF : LONGLONG) &&& 0xFF0 = 0xFF0 := by decide
  rw [linkSlot, linkSlot, trackedNumber, BitVec.and_assoc, within]

theorem SameKey.slot {u v : Backed F} (same : SameKey u v) :
    linkSlot (fileIndex u.FileInfo) = linkSlot (fileIndex v.FileInfo) := by
  rw [← linkSlot_trackedNumber, same.2, linkSlot_trackedNumber]

/-- The tracker holds the first names of the files archived so far. -/
structure Tracks (c : BackupConfig F) (history : List (Backed F))
    (items : Nat → List LinkTrackerItem) : Prop where
  sound : ∀ slot, ∀ item ∈ items slot, ∃ u ∈ history, Tracked c u ∧ u.LinkName = none ∧
    u.File = item.Name ∧ item.Match u.FileInfo.dwVolumeSerialNumber (fileIndex u.FileInfo)
  complete : ∀ u ∈ history, Tracked c u → ∃ item ∈ items (linkSlot (fileIndex u.FileInfo)),
    item.Match u.FileInfo.dwVolumeSerialNumber (fileIndex u.FileInfo)

/-- An object is a link exactly if one with its key came before, and to the first one. -/
structure LinksTo (c : BackupConfig F) (before : List (Backed F)) (v : Backed F) : Prop where
  first : Tracked c v → v.LinkName = none → ∀ u ∈ before, Tracked c u → ¬ SameKey u v
  later : ∀ LinkName, v.LinkName = some LinkName → Tracked c v ∧
    ∃ u ∈ before, Tracked c u ∧ u.LinkName = none ∧ u.File = LinkName ∧ SameKey u v

def LinksFrom (c : BackupConfig F) : List (Backed F) → List (Backed F) → Prop
  | _, [] => True
  | before, v :: rest => LinksTo c before v ∧ LinksFrom c (before ++ [v]) rest

theorem LinksFrom.append {before t t' : List (Backed F)} (first : LinksFrom c before t)
    (second : LinksFrom c (before ++ t) t') : LinksFrom c before (t ++ t') := by
  induction t generalizing before with
  | nil => simpa using second
  | cons v rest ih => exact ⟨first.1, ih first.2 (by simpa using second)⟩

theorem LinksFrom.at {before t after : List (Backed F)} {v : Backed F}
    (links : LinksFrom c before (t ++ v :: after)) : LinksTo c (before ++ t) v := by
  induction t generalizing before with
  | nil =>
    rw [List.append_nil]
    exact links.1
  | cons u rest ih =>
    have rest := ih links.2
    simpa using rest

theorem match_iff {item : LinkTrackerItem} {u v : Backed F}
    (matched : item.Match u.FileInfo.dwVolumeSerialNumber (fileIndex u.FileInfo) = true) :
    item.Match v.FileInfo.dwVolumeSerialNumber (fileIndex v.FileInfo) = true ↔ SameKey u v := by
  simp only [LinkTrackerItem.Match, decide_eq_true_eq] at matched ⊢
  rw [matched.1, matched.2]
  rfl

theorem Tracks.keep {history : List (Backed F)} {items : Nat → List LinkTrackerItem} {v : Backed F}
    (tracks : Tracks c history items) (known : Tracked c v →
      ∃ item ∈ items (linkSlot (fileIndex v.FileInfo)),
        item.Match v.FileInfo.dwVolumeSerialNumber (fileIndex v.FileInfo)) :
    Tracks c (history ++ [v]) items where
  sound slot item mem := by
    obtain ⟨u, earlier, rest⟩ := tracks.sound slot item mem
    exact ⟨u, List.mem_append_left _ earlier, rest⟩
  complete u mem isTracked := by
    rcases List.mem_append.mp mem with mem | mem
    · exact tracks.complete u mem isTracked
    · obtain rfl := List.mem_singleton.mp mem
      exact known isTracked

def addItem (items : Nat → List LinkTrackerItem) (info : ByHandleFileInformation)
    (File : UnicodeString) : Nat → List LinkTrackerItem := fun slot =>
  if slot = linkSlot (fileIndex info) then
    ⟨info.dwVolumeSerialNumber, trackedNumber (fileIndex info), File⟩ ::
      items (linkSlot (fileIndex info))
  else items slot

theorem Tracks.add {history : List (Backed F)} {items : Nat → List LinkTrackerItem} {v : Backed F}
    (tracks : Tracks c history items) (isTracked : Tracked c v) (unlinked : v.LinkName = none) :
    Tracks c (history ++ [v]) (addItem items v.FileInfo v.File) := by
  have self : LinkTrackerItem.Match ⟨v.FileInfo.dwVolumeSerialNumber,
      trackedNumber (fileIndex v.FileInfo), v.File⟩ v.FileInfo.dwVolumeSerialNumber
      (fileIndex v.FileInfo) = true := by
    simp [LinkTrackerItem.Match]
  constructor
  · intro slot item mem
    have found : item = ⟨v.FileInfo.dwVolumeSerialNumber, trackedNumber (fileIndex v.FileInfo),
        v.File⟩ ∨ ∃ slot, item ∈ items slot := by
      unfold addItem at mem
      split at mem
      · exact (List.mem_cons.mp mem).imp_right fun mem => ⟨_, mem⟩
      · exact .inr ⟨slot, mem⟩
    rcases found with rfl | ⟨slot, mem⟩
    · exact ⟨v, List.mem_append_right _ (List.mem_singleton_self v), isTracked, unlinked, rfl, self⟩
    · obtain ⟨u, earlier, rest⟩ := tracks.sound slot item mem
      exact ⟨u, List.mem_append_left _ earlier, rest⟩
  · intro u mem tracked
    rcases List.mem_append.mp mem with mem | mem
    · obtain ⟨item, inSlot, matched⟩ := tracks.complete u mem tracked
      refine ⟨item, ?_, matched⟩
      unfold addItem
      split
      · next same =>
        rw [← same]
        exact List.mem_cons_of_mem _ inSlot
      · exact inSlot
    · obtain rfl := List.mem_singleton.mp mem
      unfold addItem
      rw [if_pos rfl]
      exact ⟨_, List.mem_cons_self, self⟩

/-- The object is no link, and everything BackupRead delivers of it stands in the archive. -/
structure Complete (c : BackupConfig F) (u : Backed F) : Prop where
  unlinked : u.LinkName = none
  result : u.result = true
  data : u.data = (c.reads u.id u.asked).blocks.flatten

/-- Every link record names an object that has been archived before, completely, for the file of
    the same volume serial number and file index. -/
def Resolvable (c : BackupConfig F) (history : List (Backed F)) : Prop :=
  ∀ before v after LinkName, history = before ++ v :: after → v.LinkName = some LinkName →
    ∃ u ∈ before, u.File = LinkName ∧ Complete c u ∧ SameFile u v

/-- When a file with several names comes again, its streams have been read to their end at its
    first name, and no other file has the same low 48 bits of the index. -/
def FirstNamesRead (c : BackupConfig F) (history : List (Backed F)) : Prop :=
  ∀ before u between v after, history = before ++ u :: (between ++ v :: after) →
    Tracked c u → Tracked c v → SameKey u v → (∀ w ∈ before, Tracked c w → ¬ SameKey w u) →
      ReadsThrough c u.id u.asked ∧ SameFile u v

/-- The names of one file agree on whether it has several. -/
def Uniform (c : BackupConfig F) (history : List (Backed F)) : Prop :=
  ∀ u ∈ history, ∀ v ∈ history, SameFile u v → Tracked c v → Tracked c u

theorem LinksFrom.resolvable {history : List (Backed F)} (links : LinksFrom c [] history)
    (reads : ∀ u ∈ history, u.LinkName = none → u.Read c) (read : FirstNamesRead c history) :
    Resolvable c history := by
  rintro before v after LinkName rfl linked
  obtain ⟨isTracked, u, mem, tracked, none, named, key⟩ := links.at.later LinkName linked
  obtain ⟨earlier, between, rfl⟩ := List.append_of_mem mem
  have first := links
  rw [List.append_assoc, List.cons_append] at first
  obtain ⟨through, same⟩ := read earlier u between v after (by simp) tracked isTracked key
    fun w mem tracked' key' => first.at.first tracked none w mem tracked' key'
  have isRead := reads u (List.mem_append_left _ mem) none
  exact ⟨u, mem, named, ⟨none, isRead.result.mpr through, isRead.all through⟩, same⟩

theorem LinksFrom.firstNamesRead {history : List (Backed F)} (links : LinksFrom c [] history)
    (reads : ∀ u ∈ history, u.LinkName = none → u.Read c) (uniform : Uniform c history)
    (resolvable : Resolvable c history) : FirstNamesRead c history := by
  rintro before u between v after rfl tracked isTracked key first
  have split : before ++ u :: (between ++ v :: after) = (before ++ u :: between) ++ v :: after := by
    simp
  rw [split] at links reads resolvable uniform
  have mem_u : u ∈ before ++ u :: between := by simp
  -- v comes behind u, so it is a link
  obtain ⟨LinkName, linked⟩ : ∃ LinkName, v.LinkName = some LinkName := by
    refine Option.ne_none_iff_exists'.mp fun unlinked => ?_
    exact links.at.first isTracked unlinked u mem_u tracked key
  obtain ⟨w, mem, -, ⟨unlinked, result, -⟩, same⟩ := resolvable _ v after LinkName rfl linked
  have tracked_w : Tracked c w := uniform w (List.mem_append_left _ mem) v (by simp) same isTracked
  -- and the only object of its key that is none is u
  have whole := links
  rw [← split] at whole
  have is_u : w = u := by
    rcases List.mem_append.mp mem with mem | mem
    · exact absurd ⟨same.1.trans key.1.symm, same.key.2.trans key.2.symm⟩ (first w mem tracked_w)
    rcases List.mem_cons.mp mem with rfl | mem
    · rfl
    · obtain ⟨earlier, later, rfl⟩ := List.append_of_mem mem
      have rearranged : before ++ u :: (earlier ++ w :: later ++ v :: after) =
          (before ++ u :: earlier) ++ w :: (later ++ v :: after) := by simp
      rw [rearranged] at whole
      refine absurd ⟨key.1.trans same.1.symm, key.2.trans same.key.2.symm⟩
        (whole.at.first tracked_w unlinked u (by simp) tracked)
  have isRead := reads w (List.mem_append_left _ mem) unlinked
  rw [← is_u]
  exact ⟨isRead.result.mp result, same⟩

variable [DecidableEq F]

def LinksFollow (c : BackupConfig F) (s : BackupSession F) (t : List (Backed F))
    (s' : BackupSession F) : Prop :=
  ∀ history, Tracks c history s.LinkTrackerItems →
    LinksFrom c history t ∧ Tracks c (history ++ t) s'.LinkTrackerItems

theorem Archives.links {id : F} {File ShortName : UnicodeString} {file_info : ByHandleFileInformation}
    {s s' : BackupSession F} {v : Backed F} (archives : Archives c id File file_info ShortName s v s') :
    LinksFollow c s [v] s' := by
  intro history tracks
  have link := archives.link
  have items := archives.items
  rw [← archives.sameInfo, ← archives.sameFile] at link items
  by_cases isTracked : Tracked c v
  · rw [StrArc.link, if_pos (show tracked c v.FileInfo = true from isTracked)] at link items
    unfold trackLink at link items
    cases search : (s.LinkTrackerItems (linkSlot (fileIndex v.FileInfo))).find?
        (·.Match v.FileInfo.dwVolumeSerialNumber (fileIndex v.FileInfo)) with
    | some item =>
      simp only [search] at link items
      have inSlot := List.mem_of_find?_eq_some search
      have matches_v := List.find?_some search
      obtain ⟨u, mem, tracked, none, named, matched⟩ := tracks.sound _ item inSlot
      rw [items]
      refine ⟨⟨⟨fun _ absurd => ?_, fun LinkName some => ⟨isTracked, ?_⟩⟩, trivial⟩,
        tracks.keep fun _ => ⟨item, inSlot, matches_v⟩⟩
      · rw [link] at absurd
        cases absurd
      · rw [link] at some
        cases some
        exact ⟨u, mem, tracked, none, named, (match_iff matched).mp matches_v⟩
    | none =>
      simp only [search] at link items
      rw [items]
      refine ⟨⟨⟨fun _ _ u mem tracked key => ?_, fun LinkName some => ?_⟩, trivial⟩,
        tracks.add isTracked link⟩
      · obtain ⟨item, inSlot, matched⟩ := tracks.complete u mem tracked
        rw [key.slot] at inSlot
        exact List.find?_eq_none.mp search item inSlot ((match_iff matched).mpr key)
      · rw [link] at some
        cases some
  · rw [StrArc.link, if_neg (show ¬ tracked c v.FileInfo = true from isTracked)] at link items
    rw [items]
    refine ⟨⟨⟨fun tracked => absurd tracked isTracked, fun LinkName some => ?_⟩, trivial⟩,
      tracks.keep fun tracked => absurd tracked isTracked⟩
    rw [link] at some
    cases some

theorem saving_linksFollow (c : BackupConfig F) : Saving c (LinksFollow c) where
  composes := by
    refine ⟨fun s history tracks => ⟨trivial, by simpa using tracks⟩, ?_⟩
    intro s s' s'' t t' first second history tracks
    obtain ⟨links, tracks⟩ := first history tracks
    obtain ⟨links', tracks'⟩ := second (history ++ t) tracks
    exact ⟨links.append links', by rwa [List.append_assoc] at tracks'⟩
  silent := by
    intro s s' _ items _ history tracks
    rw [List.append_nil, items]
    exact ⟨trivial, tracks⟩
  object archives := archives.links

theorem backupFiles_links (roots : List (UnicodeString × Node F)) (disk : F → ByHandleFileInformation) :
    LinksFrom c [] (backupFiles c roots (.start disk)).events := by
  have run := (saving_linksFollow c).backupFiles_run roots (.start disk)
  exact (run [] ⟨fun _ _ absurd => (by cases absurd), fun _ absurd => (by cases absurd)⟩).1

/-- Links lead to complete objects exactly if no first name of a file that comes again has been cut
    short, and no two such files share the low 48 bits of their index. -/
theorem backupFiles_resolvable (c : BackupConfig F) (roots : List (UnicodeString × Node F))
    (disk : F → ByHandleFileInformation) :
    let run := backupFiles c roots (.start disk)
    run.state.archive = run.events.flatMap (Backed.bytes c.options.BackupMethod) ∧
      (FirstNamesRead c run.events → Resolvable c run.events) ∧
      (Uniform c run.events → Resolvable c run.events → FirstNamesRead c run.events) := by
  intro run
  have links := backupFiles_links (c := c) roots disk
  have reads : ∀ u ∈ run.events, u.LinkName = none → u.Read c :=
    (saving_readAll c).backupFiles_run roots (.start disk)
  exact ⟨backupFiles_archive c roots disk, links.resolvable reads,
    fun uniform => links.firstNamesRead reads uniform⟩

/-- A file with the names "a" and "b", of which BackupRead delivers nothing. -/
def twoNames : Node Unit := .mk () .nil

def unreadable : BackupConfig Unit where
  options := {}
  opens _ := true
  informs _ := true
  resets _ := true
  reads _ _ := ⟨[], noBlocks_nonempty, true⟩
  findShortName _ _ := []
  lower unit := unit
  bCancel _ := false

def twoNamesInformation : Unit → ByHandleFileInformation := fun _ =>
  { dwFileAttributes := fileAttributeArchive, ftCreationTime := 0, ftLastAccessTime := 0,
    ftLastWriteTime := 0, dwVolumeSerialNumber := 7, nFileSizeHigh := 0, nFileSizeLow := 1,
    nNumberOfLinks := 2, nFileIndexHigh := 0, nFileIndexLow := 5 }

/-- "b" becomes a link to "a", behind whose header nothing stands. -/
theorem link_to_unread_name : ¬ Resolvable unreadable
    (backupFiles unreadable [([97], twoNames), ([98], twoNames)] (.start twoNamesInformation)).events := by
  have events : (backupFiles unreadable [([97], twoNames), ([98], twoNames)]
      (.start twoNamesInformation)).events =
      [⟨(), [97], twoNamesInformation (), [], none, 5, [], false⟩,
        ⟨(), [98], twoNamesInformation (), [], some [97], 12, [], true⟩] := by
    decide +kernel
  rw [events]
  intro resolvable
  obtain ⟨u, mem, -, complete, -⟩ := resolvable [_] _ [] [97] rfl rfl
  obtain rfl := List.mem_singleton.mp mem
  exact absurd complete.result (by decide)

end StrArc
