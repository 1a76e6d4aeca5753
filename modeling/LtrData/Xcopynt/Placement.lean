import LtrData.Xcopynt.Copying

namespace Xcopynt

variable {Name Content : Type} [DecidableEq Name] {i : Input Name Content}
  {tree tree' : DirectoryTree Name Content} {path : List Name} {node : Node Content}
  {f : Frame Name Content} {frames : List (Frame Name Content)} {x : Name}

/-- A call has made a directory or a file that was not there, or has found the directory. -/
structure Made (tree : DirectoryTree Name Content) (path : List Name) (node : Node Content)
    (tree' : DirectoryTree Name Content) : Prop where
  grows : tree.Grows tree'
  there : tree' path = some node
  elsewhere : ∀ other, other ≠ path → tree' other = tree other
  rooted : tree.Rooted → tree'.Rooted

theorem made_add (absent : tree path = none) (parent : tree path.dropLast = some .directory) :
    Made tree path node (tree.add path node) where
  grows := DirectoryTree.grows_add absent
  there := DirectoryTree.add_self
  elsewhere _ differs := DirectoryTree.add_other differs
  rooted rooted := rooted.add absent parent

theorem made_createDirectory (done : CreateDirectoryEx tree path = some tree') :
    Made tree path .directory tree' := by
  unfold CreateDirectoryEx at done
  split at done
  · rename_i there
    cases done
    exact ⟨DirectoryTree.Grows.refl tree, there, fun _ _ => rfl, id⟩
  · cases done
  · rename_i absent
    split at done
    · rename_i parent
      cases done
      exact made_add absent parent
    · cases done

theorem made_copyFile {content : Content} (done : CopyFileEx tree path content = some tree') :
    Made tree path (.file content) tree' := by
  unfold CopyFileEx at done
  split at done
  · cases done
  · rename_i absent
    split at done
    · rename_i parent
      cases done
      exact made_add absent parent
    · cases done

/-- The activation for a directory that has just been copied. -/
def pushed (f : Frame Name Content) (x : Name) (tree : DirectoryTree Name Content) :
    Node Content → List (Frame Name Content)
  | .directory => [⟨f.dir ++ [x], tree, []⟩]
  | .file _ => []

theorem step_cases {s : State Name Content} (step : i.Step (.running tree (f :: frames)) s)
    (succeeds : s ≠ .failed) :
    (∃ x node tree', x ∉ f.seen ∧ tree (i.start ++ (f.dir ++ [x])) = some node ∧
      Made tree (i.copyOf f.dir x) node tree' ∧
      s = .running tree' (pushed f x tree' node ++ { f with seen := x :: f.seen } :: frames)) ∨
    ((∀ x, f.opened (i.start ++ (f.dir ++ [x])) ≠ none → x ∈ f.seen) ∧
      s = .running tree frames) := by
  cases step with
  | @directory _ _ _ x new found =>
    unfold Input.enter at succeeds ⊢
    cases done : CreateDirectoryEx tree (i.copyOf f.dir x) with
    | none =>
      rw [done] at succeeds
      exact absurd rfl succeeds
    | some tree' => exact .inl ⟨x, .directory, tree', new, found, made_createDirectory done, rfl⟩
  | @file _ _ _ x content new found =>
    unfold Input.copy at succeeds ⊢
    cases done : CopyFileEx tree (i.copyOf f.dir x) content with
    | none =>
      rw [done] at succeeds
      exact absurd rfl succeeds
    | some tree' => exact .inl ⟨x, .file content, tree', new, found, made_copyFile done, rfl⟩
  | finished all => exact .inr ⟨all, rfl⟩

theorem running_invariant {I : DirectoryTree Name Content → List (Frame Name Content) → Prop}
    (noFailure : i.NoCallFails)
    (starts : ∀ tree, Made i.tree i.destination .directory tree → I tree [⟨[], tree, []⟩])
    (visits : ∀ tree f frames x node tree', I tree (f :: frames) → x ∉ f.seen →
      tree (i.start ++ (f.dir ++ [x])) = some node → Made tree (i.copyOf f.dir x) node tree' →
      I tree' (pushed f x tree' node ++ { f with seen := x :: f.seen } :: frames))
    (finishes : ∀ tree f frames, I tree (f :: frames) →
      (∀ x, f.opened (i.start ++ (f.dir ++ [x])) ≠ none → x ∈ f.seen) → I tree frames)
    {s : State Name Content} (reachable : i.program.Reachable s) :
    ∃ tree frames, s = .running tree frames ∧ I tree frames := by
  apply reachable.invariant
  · intro s start
    have same : s = i.wmain := start
    have succeeds := noFailure s (TransitionSystem.reachable_start start)
    rw [same] at succeeds ⊢
    unfold Input.wmain at succeeds ⊢
    cases done : CreateDirectoryEx i.tree i.destination with
    | none =>
      rw [done] at succeeds
      exact absurd rfl succeeds
    | some tree => exact ⟨tree, _, rfl, starts tree (made_createDirectory done)⟩
  · intro s s' before invariant step
    have succeeds := noFailure s' (before.step step)
    obtain ⟨tree, frames, rfl, invariant⟩ := invariant
    cases frames with
    | nil => cases step
    | cons f frames =>
      rcases step_cases step succeeds with ⟨x, node, tree', new, found, made, rfl⟩ | ⟨all, rfl⟩
      · exact ⟨tree', _, rfl, visits tree f frames x node tree' invariant new found made⟩
      · exact ⟨tree, frames, rfl, finishes tree f frames invariant all⟩

/-! ### What is never lost -/

/-- The volume has only grown, since the start and since each open directory was opened. -/
structure Sound (i : Input Name Content) (tree : DirectoryTree Name Content)
    (frames : List (Frame Name Content)) : Prop where
  grows : i.tree.Grows tree
  rooted : tree.Rooted
  opened : ∀ f ∈ frames, i.tree.Grows f.opened ∧ f.opened.Grows tree ∧ f.opened.Rooted

omit [DecidableEq Name] in
theorem mem_visited {g : Frame Name Content}
    (there : g ∈ pushed f x tree' node ++ { f with seen := x :: f.seen } :: frames) :
    g.dir = f.dir ++ [x] ∧ g.opened = tree' ∨
      ∃ before ∈ f :: frames, g.dir = before.dir ∧ g.opened = before.opened := by
  rcases List.mem_append.mp there with new | old
  · cases node with
    | directory =>
      rw [List.mem_singleton.mp new]
      exact .inl ⟨rfl, rfl⟩
    | file => cases new
  · rcases List.mem_cons.mp old with own | other
    · rw [own]
      exact .inr ⟨f, List.mem_cons_self, rfl, rfl⟩
    · exact .inr ⟨g, List.mem_cons_of_mem _ other, rfl, rfl⟩

omit [DecidableEq Name] in
theorem sound_start (made : Made i.tree i.destination .directory tree) :
    Sound i tree [⟨[], tree, []⟩] where
  grows := made.grows
  rooted := made.rooted i.rooted
  opened f there := by
    rw [List.mem_singleton.mp there]
    exact ⟨made.grows, DirectoryTree.Grows.refl tree, made.rooted i.rooted⟩

omit [DecidableEq Name] in
theorem sound_visit (sound : Sound i tree (f :: frames))
    (made : Made tree (i.copyOf f.dir x) node tree') :
    Sound i tree' (pushed f x tree' node ++ { f with seen := x :: f.seen } :: frames) where
  grows := sound.grows.trans made.grows
  rooted := made.rooted sound.rooted
  opened g there := by
    rcases mem_visited there with ⟨-, opened⟩ | ⟨before, earlier, -, opened⟩
    · rw [opened]
      exact ⟨sound.grows.trans made.grows, DirectoryTree.Grows.refl tree', made.rooted sound.rooted⟩
    · rw [opened]
      obtain ⟨first, second, rooted⟩ := sound.opened before earlier
      exact ⟨first, second.trans made.grows, rooted⟩

omit [DecidableEq Name] in
theorem sound_finish (sound : Sound i tree (f :: frames)) : Sound i tree frames where
  grows := sound.grows
  rooted := sound.rooted
  opened g there := sound.opened g (List.mem_cons_of_mem _ there)

theorem sound_invariant {I : DirectoryTree Name Content → List (Frame Name Content) → Prop}
    (noFailure : i.NoCallFails)
    (starts : ∀ tree, Made i.tree i.destination .directory tree → I tree [⟨[], tree, []⟩])
    (visits : ∀ tree f frames x node tree', Sound i tree (f :: frames) → I tree (f :: frames) →
      x ∉ f.seen → tree (i.start ++ (f.dir ++ [x])) = some node →
      Made tree (i.copyOf f.dir x) node tree' →
      I tree' (pushed f x tree' node ++ { f with seen := x :: f.seen } :: frames))
    (finishes : ∀ tree f frames, Sound i tree (f :: frames) → I tree (f :: frames) →
      (∀ x, f.opened (i.start ++ (f.dir ++ [x])) ≠ none → x ∈ f.seen) → I tree frames)
    {s : State Name Content} (reachable : i.program.Reachable s) :
    ∃ tree frames, s = .running tree frames ∧ Sound i tree frames ∧ I tree frames := by
  apply running_invariant noFailure _ _ _ reachable
  · exact fun tree made => ⟨sound_start made, starts tree made⟩
  · exact fun tree f frames x node tree' before new found made =>
      ⟨sound_visit before.1 made, visits tree f frames x node tree' before.1 before.2 new found made⟩
  · exact fun tree f frames before all =>
      ⟨sound_finish before.1, finishes tree f frames before.1 before.2 all⟩

/-! ### What is still to be copied -/

/-- The path leads through an entry that the activation has not visited. -/
def Pending (path : List Name) (f : Frame Name Content) : Prop :=
  ∃ x rest, path = f.dir ++ x :: rest ∧ x ∉ f.seen

omit [DecidableEq Name] in
theorem pending_visit {g : Frame Name Content} (there : g ∈ f :: frames) (pending : Pending path g)
    (x : Name) (tree' : DirectoryTree Name Content) (node : Node Content) :
    path = f.dir ++ [x] ∨ (∃ y rest, path = f.dir ++ x :: y :: rest ∧ node ≠ .directory) ∨
      ∃ g' ∈ pushed f x tree' node ++ { f with seen := x :: f.seen } :: frames,
        Pending path g' ∧ (g'.opened = g.opened ∨ g'.opened = tree') := by
  rcases List.mem_cons.mp there with own | other
  · obtain ⟨y, rest, whole, new⟩ := pending
    rw [own] at whole new
    by_cases visited : y = x
    · rw [visited] at whole
      cases rest with
      | nil => exact .inl whole
      | cons z rest =>
        cases node with
        | file => exact .inr (.inl ⟨z, rest, whole, nofun⟩)
        | directory =>
          refine .inr (.inr ⟨⟨f.dir ++ [x], tree', []⟩, List.mem_cons_self, ?_, .inr rfl⟩)
          exact ⟨z, rest, by rw [whole, List.append_assoc]; rfl, List.not_mem_nil⟩
    · refine .inr (.inr ⟨{ f with seen := x :: f.seen }, ?_, ?_, .inl (by rw [own])⟩)
      · exact List.mem_append_right _ List.mem_cons_self
      · refine ⟨y, rest, whole, fun seen => ?_⟩
        rcases List.mem_cons.mp seen with same | before
        · exact visited same
        · exact new before
  · refine .inr (.inr ⟨g, ?_, pending, .inl rfl⟩)
    exact List.mem_append_right _ (List.mem_cons_of_mem _ other)

omit [DecidableEq Name] in
theorem directory_of_below {t : DirectoryTree Name Content} (rooted : t.Rooted)
    {dir rest : List Name} {y : Name} (there : t (i.start ++ (dir ++ x :: y :: rest)) ≠ none) :
    t (i.start ++ (dir ++ [x])) = some .directory := by
  have split : i.start ++ (dir ++ x :: y :: rest) = i.start ++ (dir ++ [x]) ++ y :: rest := by
    rw [List.append_assoc, List.append_assoc]
    rfl
  rw [split] at there
  exact rooted.above there nofun

omit [DecidableEq Name] in
theorem opened_of_pending {opened : DirectoryTree Name Content} (rooted : opened.Rooted)
    {rest : List Name} (there : opened (i.start ++ (f.dir ++ x :: rest)) ≠ none) :
    opened (i.start ++ (f.dir ++ [x])) ≠ none := by
  cases rest with
  | nil => exact there
  | cons y rest =>
    rw [directory_of_below rooted there]
    exact nofun

/-- Whatever stood under the start directory has been copied or is still to be visited. -/
def CopiedOrPending (i : Input Name Content) (tree : DirectoryTree Name Content)
    (frames : List (Frame Name Content)) : Prop :=
  ∀ path, i.tree (i.start ++ path) ≠ none →
    tree (i.destination ++ path) = i.tree (i.start ++ path) ∨ ∃ f ∈ frames, Pending path f

omit [DecidableEq Name] in
theorem copiedOrPending_start (made : Made i.tree i.destination .directory tree) :
    CopiedOrPending i tree [⟨[], tree, []⟩] := by
  intro path there
  cases path with
  | nil =>
    left
    rw [List.append_nil, List.append_nil, made.there, i.isDirectory]
  | cons x rest =>
    exact .inr ⟨_, List.mem_singleton_self _, x, rest, rfl, List.not_mem_nil⟩

omit [DecidableEq Name] in
theorem copyOf_eq (target : i.target.resolve (i.start ++ path) = i.destination) (x : Name) :
    i.copyOf path x = i.destination ++ (path ++ [x]) := by
  unfold Input.copyOf
  rw [target, List.append_assoc]

omit [DecidableEq Name] in
theorem copiedOrPending_visit
    (resolves : ∀ path x, i.tree (i.start ++ (path ++ [x])) ≠ none →
      i.target.resolve (i.start ++ path) = i.destination)
    (sound : Sound i tree (f :: frames)) (before : CopiedOrPending i tree (f :: frames))
    (found : tree (i.start ++ (f.dir ++ [x])) = some node)
    (made : Made tree (i.copyOf f.dir x) node tree') :
    CopiedOrPending i tree' (pushed f x tree' node ++ { f with seen := x :: f.seen } :: frames) := by
  intro path there
  rcases before path there with copied | ⟨g, member, pending⟩
  · left
    rw [← copied] at there ⊢
    exact made.grows.exists there
  · rcases pending_visit member pending x tree' node with own | ⟨y, rest, below, file⟩ |
      ⟨g', member', pending', -⟩
    · left
      rw [own] at there ⊢
      rw [← sound.grows.exists there, found, ← copyOf_eq (resolves f.dir x there)]
      exact made.there
    · rw [below] at there
      have above := directory_of_below i.rooted there
      have same := sound.grows _ _ above
      rw [found] at same
      exact absurd (Option.some.inj same) file
    · exact .inr ⟨g', member', pending'⟩

omit [DecidableEq Name] in
theorem copiedOrPending_finish (sound : Sound i tree (f :: frames))
    (before : CopiedOrPending i tree (f :: frames))
    (all : ∀ x, f.opened (i.start ++ (f.dir ++ [x])) ≠ none → x ∈ f.seen) :
    CopiedOrPending i tree frames := by
  intro path there
  rcases before path there with copied | ⟨g, member, pending⟩
  · exact .inl copied
  · rcases List.mem_cons.mp member with own | other
    · obtain ⟨x, rest, whole, new⟩ := pending
      rw [own] at whole new
      rw [whole] at there
      have first := opened_of_pending i.rooted there
      have opened := (sound.opened f List.mem_cons_self).1
      rw [← opened.exists first] at first
      exact absurd (all x first) new
    · exact .inr ⟨g, other, pending⟩

/-- With one directory for the target, what a stopped run leaves is a copy. -/
theorem copied_of_stopped (noFailure : i.NoCallFails)
    (resolves : ∀ path x, i.tree (i.start ++ (path ++ [x])) ≠ none →
      i.target.resolve (i.start ++ path) = i.destination)
    (reachable : i.program.Reachable (.running tree [])) : i.Copied tree := by
  obtain ⟨tree', frames, same, -, kept⟩ := sound_invariant (I := CopiedOrPending i) noFailure
    (fun tree made => copiedOrPending_start made)
    (fun tree f frames x node tree' sound before _ found made =>
      copiedOrPending_visit resolves sound before found made)
    (fun tree f frames sound before all => copiedOrPending_finish sound before all) reachable
  cases same
  intro path there
  rcases kept path there with copied | ⟨f, member, -⟩
  · exact copied
  · cases member

theorem step_of_frames (noFailure : i.NoCallFails) {s : State Name Content}
    (reachable : i.program.Reachable s) (stuck : ∀ s', ¬i.Step s s') :
    ∃ tree, s = .running tree [] := by
  obtain ⟨tree, frames, rfl, sound, -⟩ := sound_invariant (I := fun _ _ => True) noFailure
    (fun _ _ => trivial) (fun _ _ _ _ _ _ _ _ _ _ _ => trivial) (fun _ _ _ _ _ _ => trivial)
    reachable
  cases frames with
  | nil => exact ⟨tree, rfl⟩
  | cons f frames =>
    by_cases all : ∀ x, f.opened (i.start ++ (f.dir ++ [x])) ≠ none → x ∈ f.seen
    · exact absurd (.finished all) (stuck _)
    · push Not at all
      obtain ⟨x, there, new⟩ := all
      have grows := (sound.opened f List.mem_cons_self).2.1
      have found := grows.exists there
      obtain ⟨node, is⟩ := Option.ne_none_iff_exists'.mp there
      rw [is] at found
      cases node with
      | directory => exact absurd (.directory new found) (stuck _)
      | file content => exact absurd (.file new found) (stuck _)

end Xcopynt
