import LtrData.Xcopynt.Stopping

namespace Xcopynt

variable {Name Content : Type} {i : Input Name Content} {tree tree' : DirectoryTree Name Content}
  {path : List Name} {node : Node Content} {f : Frame Name Content}
  {frames : List (Frame Name Content)} {x : Name}

/-! ### Every run ends -/

/-- The ends of the paths that stood under the start directory. -/
def Within (i : Input Name Content) (path : List Name) : Prop :=
  ∃ whole, i.tree (i.start ++ whole) ≠ none ∧ path <:+ whole

theorem within_finite (i : Input Name Content) : {path | Within i path}.Finite := by
  have union : {path | Within i path} =
      ⋃ whole ∈ {whole | i.tree (i.start ++ whole) ≠ none}, {path | path ∈ whole.tails} := by
    ext path
    simp only [Set.mem_iUnion, Set.mem_ofPred_eq, List.mem_tails, exists_prop]
    rfl
  rw [union]
  exact i.finite.biUnion fun whole _ => List.finite_toSet whole.tails

/-- All that stands under the start directory is an end of what stood there. -/
def StaysWithin (i : Input Name Content) (tree : DirectoryTree Name Content) : Prop :=
  ∀ path, tree (i.start ++ path) ≠ none → Within i path

theorem within_self (there : i.tree (i.start ++ path) ≠ none) : Within i path :=
  ⟨path, there, List.suffix_refl path⟩

theorem staysWithin_start (target : i.OneTarget)
    (made : Made i.tree i.destination .directory tree) : StaysWithin i tree := by
  intro path there
  by_cases new : i.start ++ path = i.destination
  · have inside : i.start <+: i.destination := ⟨path, new⟩
    rw [target.outside inside] at new
    have none : path = [] := List.append_right_eq_self.mp new
    apply within_self
    rw [none, List.append_nil, i.isDirectory]
    exact nofun
  · rw [made.elsewhere _ new] at there
    exact within_self there

theorem resolve_within (target : i.OneTarget) (within : Within i (path ++ [x])) :
    i.target.resolve (i.start ++ path) = i.destination := by
  obtain ⟨whole, there, suffix⟩ := within
  have length := suffix.length_le
  rw [List.length_append, List.length_singleton] at length
  have below : whole ≠ [] := by
    intro none
    rw [none] at length
    exact absurd length (Nat.not_succ_le_zero _)
  rw [← List.dropLast_append_getLast below] at there
  apply resolve_shorter (target.resolves _ _ there)
  rw [List.length_dropLast]
  omega

theorem staysWithin_visit (target : i.OneTarget) (before : StaysWithin i tree)
    (found : tree (i.start ++ (f.dir ++ [x])) = some node)
    (made : Made tree (i.copyOf f.dir x) node tree') : StaysWithin i tree' := by
  intro path there
  have visited : Within i (f.dir ++ [x]) := before _ (by rw [found]; exact nofun)
  rw [copyOf_eq (resolve_within target visited)] at made
  by_cases new : i.start ++ path = i.destination ++ (f.dir ++ [x])
  · obtain ⟨whole, stood, suffix⟩ := visited
    have startPrefix : i.start <+: i.destination ++ (f.dir ++ [x]) := ⟨path, new⟩
    rcases List.prefix_or_prefix_of_prefix startPrefix (List.prefix_append _ _) with
      inside | ⟨between, split⟩
    · rw [target.outside inside] at new
      rw [List.append_cancel_left new]
      exact ⟨whole, stood, suffix⟩
    · rw [← split, List.append_assoc] at new
      have parts := List.append_cancel_left new
      exact ⟨whole, stood, List.IsSuffix.trans ⟨between, parts⟩ suffix⟩
  · rw [made.elsewhere _ new] at there
    exact before path there

/-- A path repeated. -/
def repeated (r : List Name) (k : Nat) : List Name := (List.replicate k r).flatten

theorem repeated_succ (r : List Name) (k : Nat) : repeated r (k + 1) = r ++ repeated r k := by
  unfold repeated
  rw [List.replicate_succ, List.flatten_cons]

theorem repeated_succ' (r : List Name) (k : Nat) : repeated r (k + 1) = repeated r k ++ r := by
  unfold repeated
  rw [List.replicate_succ', List.flatten_concat]

variable [DecidableEq Name]

open scoped Classical in
theorem terminates (noFailure : i.NoCallFails) (target : i.OneTarget) : i.Terminates := by
  have kept : ∀ s, i.program.Reachable s → ∃ tree frames, s = .running tree frames ∧
      Sound i tree frames ∧ StaysWithin i tree := fun s reachable =>
    sound_invariant (I := fun tree _ => StaysWithin i tree) noFailure
      (fun _ made => staysWithin_start target made)
      (fun _ _ _ _ _ _ _ before _ found made => staysWithin_visit target before found made)
      (fun _ _ _ _ before _ => before) reachable
  let size : State Name Content → Nat := fun s =>
    match s with
    | .running _ frames => work (within_finite i).toFinset frames
    | .failed => 0
  have decreases : ∀ s s', i.program.Reachable s → i.program.step s s' → size s' < size s := by
    intro s s' reachable step
    obtain ⟨tree, frames, rfl, -, within⟩ := kept s reachable
    have succeeds := noFailure s' (reachable.step step)
    cases frames with
    | nil => cases step
    | cons f frames =>
      rcases step_cases step succeeds with ⟨x, node, tree', new, found, -, rfl⟩ | ⟨-, rfl⟩
      · apply work_visit new
        rw [Set.Finite.mem_toFinset]
        exact within _ (by rw [found]; exact nofun)
      · exact work_finish _
  exact TransitionSystem.Reachable.acc size decreases (TransitionSystem.reachable_start rfl)

/-! ### A target below the start directory -/

/-- A copy of the target directory in itself is still to be visited. -/
def CopiesItself (i : Input Name Content) (r : List Name)
    (frames : List (Frame Name Content)) : Prop :=
  ∃ k, ∃ f ∈ frames, Pending (repeated r (k + 1)) f ∧
    f.opened (i.start ++ repeated r (k + 1)) = some .directory

omit [DecidableEq Name] in
theorem copiesItself_start {r : List Name} (below : r ≠ []) (inside : i.destination = i.start ++ r)
    (made : Made i.tree i.destination .directory tree) :
    CopiesItself i r [⟨[], tree, []⟩] := by
  have once : repeated r 1 = r := by
    rw [repeated_succ]
    exact List.append_nil r
  refine ⟨0, _, List.mem_singleton_self _, ?_, ?_⟩
  · rw [once]
    cases r with
    | nil => exact absurd rfl below
    | cons x rest => exact ⟨x, rest, rfl, List.not_mem_nil⟩
  · rw [once, ← inside]
    exact made.there

omit [DecidableEq Name] in
theorem copiesItself_visit {r : List Name} (below : r ≠ []) (inside : i.destination = i.start ++ r)
    (everywhere : ∀ current, i.target.resolve current = i.destination)
    (sound : Sound i tree (f :: frames)) (before : CopiesItself i r (f :: frames))
    (found : tree (i.start ++ (f.dir ++ [x])) = some node)
    (made : Made tree (i.copyOf f.dir x) node tree') :
    CopiesItself i r (pushed f x tree' node ++ { f with seen := x :: f.seen } :: frames) := by
  obtain ⟨k, g, member, pending, opened⟩ := before
  have there := (sound.opened g member).2.1 _ _ opened
  rcases pending_visit member pending x tree' node with own | ⟨y, rest, deeper, file⟩ |
    ⟨g', member', pending', opened'⟩
  · rw [own, found] at there
    cases there
    have next : repeated r (k + 2) = f.dir ++ [x] ++ r := by rw [repeated_succ', own]
    refine ⟨k + 1, ⟨f.dir ++ [x], tree', []⟩, List.mem_cons_self, ?_, ?_⟩
    · cases r with
      | nil => exact absurd rfl below
      | cons y rest => exact ⟨y, rest, next, List.not_mem_nil⟩
    · rw [repeated_succ, own, ← List.append_assoc, ← inside, ← copyOf_eq (everywhere _)]
      exact made.there
  · rw [deeper] at there
    have above := directory_of_below sound.rooted (by rw [there]; exact nofun)
    rw [found] at above
    exact absurd (Option.some.inj above) file
  · refine ⟨k, g', member', pending', ?_⟩
    rcases opened' with same | same
    · rw [same]
      exact opened
    · rw [same]
      exact made.grows _ _ there

omit [DecidableEq Name] in
theorem copiesItself_finish {r : List Name} (sound : Sound i tree (f :: frames))
    (before : CopiesItself i r (f :: frames))
    (all : ∀ x, f.opened (i.start ++ (f.dir ++ [x])) ≠ none → x ∈ f.seen) :
    CopiesItself i r frames := by
  obtain ⟨k, g, member, pending, opened⟩ := before
  rcases List.mem_cons.mp member with own | other
  · obtain ⟨x, rest, whole, new⟩ := pending
    rw [own] at opened whole new
    rw [whole] at opened
    have first := opened_of_pending (sound.opened f List.mem_cons_self).2.2
      (by rw [opened]; exact nofun)
    exact absurd (all x first) new
  · exact ⟨k, g, other, pending, opened⟩

/-- A target given with its drive that lies below the start directory is copied for ever. -/
theorem not_terminates (noFailure : i.NoCallFails) {dir : List Name}
    (absolute : i.target = .absolute dir) (inside : i.start <+: i.destination)
    (below : i.destination ≠ i.start) : ¬i.Terminates := by
  intro ends
  obtain ⟨r, split⟩ := inside
  have notEmpty : r ≠ [] := by
    intro none
    rw [none, List.append_nil] at split
    exact below split.symm
  have everywhere : ∀ current, i.target.resolve current = i.destination := by
    unfold Input.destination
    rw [absolute]
    exact fun _ => rfl
  obtain ⟨last, reachable, stuck⟩ :=
    TransitionSystem.Reachable.exists_last (m := i.program) ends (TransitionSystem.reachable_start rfl)
  obtain ⟨tree, rfl⟩ := step_of_frames noFailure reachable stuck
  obtain ⟨_, frames, same, -, _, f, member, -⟩ :=
    sound_invariant (I := fun _ => CopiesItself i r) noFailure
      (fun _ made => copiesItself_start notEmpty split.symm made)
      (fun _ _ _ _ _ _ sound before _ found made =>
        copiesItself_visit notEmpty split.symm everywhere sound before found made)
      (fun _ _ _ sound before all => copiesItself_finish sound before all) reachable
  cases same
  cases member

/-! ### A target that names different directories -/

/-- No entry of the target directory stands deeper than the target goes up too far. -/
def Shallow (i : Input Name Content) (excess : Nat) (tree : DirectoryTree Name Content) : Prop :=
  ∀ path : List Name, path.length = excess + 2 → tree (i.destination ++ path) = none

omit [DecidableEq Name] in
theorem shallow_start (empty : ∀ x, i.tree (i.destination ++ [x]) = none) (excess : Nat)
    (made : Made i.tree i.destination .directory tree) : Shallow i excess tree := by
  intro path length
  cases path with
  | nil => cases length
  | cons x rest =>
    have other : i.destination ++ x :: rest ≠ i.destination := by
      intro same
      cases List.append_right_eq_self.mp same
    rw [made.elsewhere _ other]
    by_contra there
    have first : i.tree (i.destination ++ [x]) ≠ none := by
      cases rest with
      | nil => exact there
      | cons y rest =>
        rw [← List.singleton_append, ← List.append_assoc] at there
        rw [i.rooted.above there nofun]
        exact nofun
    exact first (empty x)

omit [DecidableEq Name] in
theorem shallow_visit {up : Nat} {down : List Name}
    (shape : ∀ current : List Name,
      i.target.resolve current = current.take (current.length - up) ++ down)
    (before : Shallow i (up - i.start.length) tree)
    (made : Made tree (i.copyOf f.dir x) node tree') : Shallow i (up - i.start.length) tree' := by
  intro path length
  rw [made.elsewhere]
  · exact before path length
  · intro same
    have lengths := congrArg List.length same
    unfold Input.copyOf Input.destination at lengths
    rw [shape, shape] at lengths
    simp only [List.length_append, List.length_take, List.length_singleton] at lengths
    omega

theorem resolves_of_copied (noFailure : i.NoCallFails)
    (empty : ∀ x, i.tree (i.destination ++ [x]) = none)
    (reachable : i.program.Reachable (.running tree [])) (copied : i.Copied tree) :
    ∀ path x, i.tree (i.start ++ (path ++ [x])) ≠ none →
      i.target.resolve (i.start ++ path) = i.destination := by
  intro path x there
  cases target : i.target with
  | absolute dir =>
    unfold Input.destination
    rw [target]
    rfl
  | relative components =>
    obtain ⟨up, down, shape⟩ := resolve_relative components
    rw [← target] at shape ⊢
    obtain ⟨_, _, same, sound, shallow⟩ :=
      sound_invariant (I := fun tree _ => Shallow i (up - i.start.length) tree) noFailure
        (fun _ made => shallow_start empty _ made)
        (fun _ _ _ _ _ _ _ before _ _ made => shallow_visit shape before made)
        (fun _ _ _ _ before _ => before) reachable
    cases same
    by_cases deep : up < i.start.length + path.length ∧ path ≠ []
    · have placed := copied _ there
      have length : up - i.start.length + 2 ≤ (path ++ [x]).length := by
        have some := List.length_pos_of_ne_nil deep.2
        rw [List.length_append, List.length_singleton]
        omega
      have above := shallow ((path ++ [x]).take (up - i.start.length + 2)) (by
        rw [List.length_take]
        omega)
      rw [← placed, ← List.take_append_drop (up - i.start.length + 2) (path ++ [x]),
        ← List.append_assoc] at there
      by_cases last : (path ++ [x]).drop (up - i.start.length + 2) = []
      · rw [last, List.append_nil] at there
        exact absurd above there
      · rw [sound.rooted.above there last] at above
        cases above
    · by_cases here : path = []
      · rw [here, List.append_nil]
        rfl
      · have top : i.start.length + path.length ≤ up := by
          by_contra less
          exact deep ⟨Nat.lt_of_not_le less, here⟩
        unfold Input.destination
        rw [shape, shape, List.length_append]
        have pathTop : i.start.length + path.length - up = 0 := by omega
        have startTop : i.start.length - up = 0 := by omega
        rw [pathTop, startTop, List.take_zero, List.take_zero]

/-! ### Copying and stopping -/

/-- For every volume, start directory and target for which no call fails. A target that names one
directory from everywhere, and not one below the start directory, is enough. For a target with its
drive it is needed, and in an empty target directory it is needed that the target names it. -/
theorem copiesAndStops_iff (i : Input Name Content) (noFailure : i.NoCallFails) :
    (i.OneTarget → i.CopiesAndStops) ∧
    ((∃ dir, i.target = .absolute dir) → i.CopiesAndStops → i.OneTarget) ∧
    ((∀ x, i.tree (i.destination ++ [x]) = none) → i.CopiesAndStops →
      ∀ path x, i.tree (i.start ++ (path ++ [x])) ≠ none →
        i.target.resolve (i.start ++ path) = i.destination) := by
  refine ⟨?_, ?_, ?_⟩
  · intro target
    refine ⟨terminates noFailure target, fun s reachable stuck => ?_⟩
    obtain ⟨tree, rfl⟩ := step_of_frames noFailure reachable stuck
    exact ⟨tree, rfl, copied_of_stopped noFailure target.resolves reachable⟩
  · rintro ⟨dir, absolute⟩ ⟨ends, -⟩
    constructor
    · intro path x _
      unfold Input.destination
      rw [absolute]
      rfl
    · intro inside
      by_contra below
      exact not_terminates noFailure absolute inside below ends
  · intro empty facts
    rcases facts with ⟨ends, copies⟩
    obtain ⟨last, reachable, stuck⟩ := TransitionSystem.Reachable.exists_last (m := i.program) ends
      (TransitionSystem.reachable_start rfl)
    obtain ⟨tree, rfl, copied⟩ := copies last reachable stuck
    exact resolves_of_copied noFailure empty reachable copied

theorem step_single {s : State Name Content} {entry : Name}
    (below : ∀ x, tree (i.start ++ (f.dir ++ [x])) = if x = entry then some node else none)
    (step : i.Step (.running tree (f :: frames)) s) :
    entry ∉ f.seen ∧ (node = .directory ∧ s = i.enter tree f frames entry ∨
      ∃ content, node = .file content ∧ s = i.copy tree f frames entry content) ∨
    (∀ x, f.opened (i.start ++ (f.dir ++ [x])) ≠ none → x ∈ f.seen) ∧ s = .running tree frames := by
  cases step with
  | directory new found =>
    rw [below] at found
    split at found
    · rename_i own
      cases found
      rw [own] at new ⊢
      exact .inl ⟨new, .inl ⟨rfl, rfl⟩⟩
    · cases found
  | file new found =>
    rw [below] at found
    split at found
    · rename_i own
      cases found
      rw [own] at new ⊢
      exact .inl ⟨new, .inr ⟨_, rfl, rfl⟩⟩
    · cases found
  | finished all => exact .inr ⟨all, rfl⟩

/-- The directories src and dst with one file in src. -/
inductive Two
  | src
  | dst
  | file
deriving DecidableEq

namespace Two

def entries : List (List Two × Node Nat) :=
  [([], .directory), ([src], .directory), ([src, file], .file 1)]

def input : Input Two Nat where
  tree := .ofEntries entries
  start := [src]
  target := .absolute [dst]
  rooted := DirectoryTree.rooted_ofEntries rfl (by decide)
  isDirectory := rfl
  finite := DirectoryTree.finite_ofEntries [src]

def created : DirectoryTree Two Nat := input.tree.add [dst] .directory

def copied : DirectoryTree Two Nat := created.add [dst, file] (.file 1)

theorem created_below (x : Two) : created ([src] ++ ([] ++ [x])) =
    if x = file then some (.file 1) else none := by
  cases x <;> decide

theorem copied_below (x : Two) : copied ([src] ++ ([] ++ [x])) =
    if x = file then some (.file 1) else none := by
  cases x <;> decide

theorem reachable_cases {s : State Two Nat} (reachable : input.program.Reachable s) :
    s = .running created [⟨[], created, []⟩] ∨ s = .running copied [⟨[], created, [file]⟩] ∨
      s = .running copied [] := by
  apply reachable.invariant
  · exact fun _ start => .inl start
  · rintro s s' - (rfl | rfl | rfl) step
    · rcases step_single created_below step with
        ⟨-, ⟨is, -⟩ | ⟨content, is, rfl⟩⟩ | ⟨all, -⟩
      · cases is
      · cases is
        exact .inr (.inl rfl)
      · cases all file (by decide)
    · rcases step_single copied_below step with ⟨new, -⟩ | ⟨-, rfl⟩
      · exact absurd List.mem_cons_self new
      · exact .inr (.inr rfl)
    · cases step

theorem noCallFails : input.NoCallFails := by
  intro s reachable
  rcases reachable_cases reachable with rfl | rfl | rfl <;> exact nofun

theorem oneTarget : input.OneTarget where
  resolves _ _ _ := rfl
  outside inside := absurd inside (by decide)

end Two

/-- A file is copied from one directory to another. -/
theorem copiesAndStops_two : Two.input.CopiesAndStops :=
  (copiesAndStops_iff Two.input Two.noCallFails).1 Two.oneTarget

/-- The start directory parent\src with the file sub\file, the argument ..\..\dst, and a directory
parent\dst\sub that has nothing to do with the copy. -/
inductive Astray
  | parent
  | src
  | sub
  | file
  | dst
deriving DecidableEq

namespace Astray

def entries : List (List Astray × Node Nat) :=
  [([], .directory), ([parent], .directory), ([parent, src], .directory),
    ([parent, src, sub], .directory), ([parent, src, sub, file], .file 1),
    ([parent, dst], .directory), ([parent, dst, sub], .directory)]

def input : Input Astray Nat where
  tree := .ofEntries entries
  start := [parent, src]
  target := .relative [.up, .up, .name dst]
  rooted := DirectoryTree.rooted_ofEntries rfl (by decide)
  isDirectory := rfl
  finite := DirectoryTree.finite_ofEntries [parent, src]

def created : DirectoryTree Astray Nat := input.tree.add [dst] .directory

def entered : DirectoryTree Astray Nat := created.add [dst, sub] .directory

def copied : DirectoryTree Astray Nat := entered.add [parent, dst, sub, file] (.file 1)

theorem created_below (x : Astray) : created ([parent, src] ++ ([] ++ [x])) =
    if x = sub then some .directory else none := by
  cases x <;> decide

theorem entered_below (x : Astray) : entered ([parent, src] ++ ([sub] ++ [x])) =
    if x = file then some (.file 1) else none := by
  cases x <;> decide

theorem copied_below_sub (x : Astray) : copied ([parent, src] ++ ([sub] ++ [x])) =
    if x = file then some (.file 1) else none := by
  cases x <;> decide

theorem copied_below (x : Astray) : copied ([parent, src] ++ ([] ++ [x])) =
    if x = sub then some .directory else none := by
  cases x <;> decide

/-- The states of the only run. -/
def Passes (s : State Astray Nat) : Prop :=
  s = .running created [⟨[], created, []⟩] ∨
    s = .running entered [⟨[sub], entered, []⟩, ⟨[], created, [sub]⟩] ∨
    s = .running copied [⟨[sub], entered, [file]⟩, ⟨[], created, [sub]⟩] ∨
    s = .running copied [⟨[], created, [sub]⟩] ∨ s = .running copied []

theorem passes_step {s s' : State Astray Nat} (passes : Passes s) (step : input.Step s s') :
    Passes s' := by
  rcases passes with rfl | rfl | rfl | rfl | rfl
  · rcases step_single created_below step with
      ⟨-, ⟨-, rfl⟩ | ⟨content, is, -⟩⟩ | ⟨all, -⟩
    · exact .inr (.inl rfl)
    · cases is
    · cases all sub (by decide)
  · rcases step_single entered_below step with
      ⟨-, ⟨is, -⟩ | ⟨content, is, rfl⟩⟩ | ⟨all, -⟩
    · cases is
    · cases is
      exact .inr (.inr (.inl rfl))
    · cases all file (by decide)
  · rcases step_single copied_below_sub step with ⟨new, -⟩ | ⟨-, rfl⟩
    · exact absurd List.mem_cons_self new
    · exact .inr (.inr (.inr (.inl rfl)))
  · rcases step_single copied_below step with ⟨new, -⟩ | ⟨-, rfl⟩
    · exact absurd List.mem_cons_self new
    · exact .inr (.inr (.inr (.inr rfl)))
  · cases step

theorem passes_reachable {s : State Astray Nat} (reachable : input.program.Reachable s) :
    Passes s :=
  reachable.invariant (fun _ start => .inl start) fun _ _ _ passes step => passes_step passes step

theorem noCallFails : input.NoCallFails := by
  intro s reachable
  rcases passes_reachable reachable with rfl | rfl | rfl | rfl | rfl <;> exact nofun

theorem not_copied : ¬input.Copied copied := by
  intro claim
  have placed := claim [sub, file] (by decide)
  exact absurd placed (by decide)

theorem copied_of_stuck {s : State Astray Nat} (passes : Passes s)
    (stuck : ∀ s', ¬input.Step s s') : s = .running copied [] := by
  rcases passes with rfl | rfl | rfl | rfl | rfl
  · exact absurd (.directory List.not_mem_nil (created_below sub)) (stuck _)
  · exact absurd (.file List.not_mem_nil (entered_below file)) (stuck _)
  · refine absurd (.finished fun x there => ?_) (stuck _)
    cases x <;> first | exact List.mem_cons_self | exact absurd rfl there
  · refine absurd (.finished fun x there => ?_) (stuck _)
    cases x <;> first | exact List.mem_cons_self | exact absurd rfl there
  · rfl

end Astray

/-- Without a failing call the file is copied to the directory the argument names from sub. -/
theorem copied_astray :
    ¬∀ i : Input Astray Nat, i.NoCallFails → i.CopiesAndStops := by
  intro claim
  obtain ⟨ends, copies⟩ := claim Astray.input Astray.noCallFails
  obtain ⟨last, reachable, stuck⟩ :=
    TransitionSystem.Reachable.exists_last (m := Astray.input.program) ends
      (TransitionSystem.reachable_start rfl)
  obtain ⟨tree, same, copied⟩ := copies last reachable stuck
  rw [Astray.copied_of_stuck (Astray.passes_reachable reachable) stuck] at same
  cases same
  exact Astray.not_copied copied

end Xcopynt
