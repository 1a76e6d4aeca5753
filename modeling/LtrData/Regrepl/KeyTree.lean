import LtrData.Regrepl.DoSubKey

namespace Regrepl

open TreeWalk

/-- The keys from a key on in the order of DoSubKey. -/
def Keys.below (keys : Keys) (levels : Nat) (path : Path) : List Path := walk keys.subkeys levels path

def Keys.Named (keys : Keys) : Prop := ∀ path, ∀ name ∈ keys.subkeys path, name.length < valueNameSize

/-- Some keys have been gone through, each with the calls that have been made for it. -/
structure Through (c : Config) (well : Prop) (keys : List Path) (s s' : Session)
    (gone : List (Path × List (Path × RegValue))) : Prop where
  visited : (gone.map Prod.fst).Sublist keys
  all : well → gone.map Prod.fst = keys
  shown : s'.shown = s.shown ++ (gone.map Prod.fst).map shownPath
  others : ∀ path, path ∉ gone.map Prod.fst → s'.values path = s.values path
  each : ∀ g ∈ gone, Rewrites c well g.1 (s.values g.1) (s'.values g.1) g.2
  made : s'.sets = s.sets ++ gone.flatMap Prod.snd
  counter : s'.dwReplaceCounter = s.dwReplaceCounter + BitVec.ofNat 32 (gone.flatMap Prod.snd).length
  calm : well → s'.bCancel = false

def Warned (keys : List Path) (s s' : Session) : Prop :=
  ∃ added, s'.warnings = s.warnings ++ added ∧ ∀ w ∈ added, ∃ path ∈ keys, w.2 = shownPath path

/-- The values of the keys have different names, and fit the buffers where all goes well. -/
structure Ready (well : Prop) (keys : List Path) (s : Session) : Prop where
  names : ∀ path ∈ keys, ((s.values path).map RegValue.name).Nodup
  fits : well → ∀ path ∈ keys, ∀ v ∈ s.values path, v.Fits

section through

variable {c : Config} {well : Prop} {keys keys' : List Path} {path p : Path} {s s' s'' : Session}
  {gone gone' : List (Path × List (Path × RegValue))} {m : Cells CHAR} {lpMsg : List CHAR}

theorem Through.notMem (through : Through c well keys s s' gone) (absent : p ∉ keys) :
    p ∉ gone.map Prod.fst :=
  fun mem => absent (through.visited.subset mem)

theorem Through.trans (first : Through c well keys s s' gone) (second : Through c well keys' s' s'' gone')
    (apart : ∀ p ∈ keys, p ∉ keys') : Through c well (keys ++ keys') s s'' (gone ++ gone') where
  visited := by
    rw [List.map_append]
    exact first.visited.append second.visited
  all isWell := by rw [List.map_append, first.all isWell, second.all isWell]
  shown := by rw [second.shown, first.shown, List.map_append, List.map_append, List.append_assoc]
  others p absent := by
    rw [List.map_append, List.mem_append, not_or] at absent
    rw [second.others p absent.2, first.others p absent.1]
  each := by
    intro g mem
    rcases List.mem_append.mp mem with before | behind
    · have isKey := first.visited.subset (List.mem_map_of_mem before)
      rw [second.others g.1 (second.notMem (apart g.1 isKey))]
      exact first.each g before
    · have isKey := second.visited.subset (List.mem_map_of_mem behind)
      have absent : g.1 ∉ keys := fun earlier => apart g.1 earlier isKey
      rw [← first.others g.1 (first.notMem absent)]
      exact second.each g behind
  made := by rw [second.made, first.made, List.flatMap_append, List.append_assoc]
  counter := by
    rw [second.counter, first.counter, List.flatMap_append, List.length_append, BitVec.ofNat_add,
      BitVec.add_assoc]
  calm := second.calm

/-- No key has been gone through, either because there is none or because something has gone wrong. -/
theorem Through.skipped (untouched : Untouched s s') (shown : s'.shown = s.shown)
    (reason : ¬well ∨ keys = []) (calm : well → s'.bCancel = false) : Through c well keys s s' [] where
  visited := List.nil_sublist keys
  all isWell := by
    rcases reason with trouble | isNil
    · exact absurd isWell trouble
    · exact isNil.symm
  shown := by rw [shown, List.map_nil, List.map_nil, List.append_nil]
  others p _ := by rw [untouched.values]
  each g mem := absurd mem List.not_mem_nil
  made := by rw [untouched.sets, List.flatMap_nil, List.append_nil]
  counter := by
    rw [untouched.counter]
    exact (BitVec.add_zero _).symm
  calm := calm

theorem Warned.mono (warned : Warned keys s s') (more : keys ⊆ keys') : Warned keys' s s' := by
  obtain ⟨added, isAdded, named⟩ := warned
  refine ⟨added, isAdded, fun w mem => ?_⟩
  obtain ⟨path, isKey, text⟩ := named w mem
  exact ⟨path, more isKey, text⟩

theorem Warned.trans (first : Warned keys s s') (second : Warned keys s' s'') : Warned keys s s'' := by
  obtain ⟨added, isAdded, named⟩ := first
  obtain ⟨more, isMore, named'⟩ := second
  refine ⟨added ++ more, by rw [isMore, isAdded, List.append_assoc], fun w mem => ?_⟩
  rcases List.mem_append.mp mem with mem | mem
  · exact named w mem
  · exact named' w mem

theorem Beside.warned (beside : Beside s s') (text : s.keyText = shownPath path) (isKey : path ∈ keys) :
    Warned keys s s' := by
  obtain ⟨added, isAdded, named⟩ := beside.warnings
  exact ⟨added, isAdded, fun w mem => ⟨path, isKey, (named w mem).trans text⟩⟩

theorem Ready.mono (ready : Ready well keys s) (fewer : keys' ⊆ keys) : Ready well keys' s :=
  ⟨fun p mem => ready.names p (fewer mem), fun isWell p mem => ready.fits isWell p (fewer mem)⟩

/-- What is behind some keys stands as before. -/
theorem Through.ready (through : Through c well keys s s' gone) (apart : ∀ p ∈ keys', p ∉ keys)
    (ready : Ready well keys' s) : Ready well keys' s' where
  names p mem := by
    rw [through.others p (through.notMem (apart p mem))]
    exact ready.names p mem
  fits isWell p mem := by
    rw [through.others p (through.notMem (apart p mem))]
    exact ready.fits isWell p mem

/-- The first loop of DoSubKey goes through the key itself. -/
theorem Visited.through {vs' : List RegValue} {sets : List (Path × RegValue)}
    (visited : Visited c well path { s with shown := s.shown ++ [shownPath path] } s' []
      (s.values path) vs' sets) : Through c well [path] s s' [(path, sets)] where
  visited := List.Sublist.refl _
  all _ := rfl
  shown := visited.beside.shown
  others p absent := by
    rw [visited.values]
    exact Function.update_of_ne (fun same : p = path => absent (same ▸ List.mem_singleton_self _)) _ _
  each g mem := by
    obtain rfl := List.mem_singleton.mp mem
    rw [visited.values, Function.update_self]
    exact visited.rewrites
  made := by rw [visited.made, List.flatMap_singleton]
  counter := by rw [visited.counter, List.flatMap_singleton]
  calm := visited.calm

end through

/-! ### The loop through the subkeys -/

section subkeys

variable {c : Config} {well : Prop} {levels : Nat} {path : Path} {name : List CHAR} {s s' : Session}
  {front names : List (List CHAR)}

theorem regEnumKey_cases (c : Config) (s : Session) (stands : c.keys.subkeys path = front ++ names) :
    (names = [] ∧ s.regEnumKey c path front.length = .noMoreItems) ∨
    (s.regEnumKey c path front.length = .failed ∧
      (c.fails s.clock = true ∨ ∃ name ∈ names, ¬name.length < valueNameSize)) ∨
    ∃ name behind, names = name :: behind ∧ s.regEnumKey c path front.length = .key name := by
  unfold Session.regEnumKey
  by_cases fails : c.fails s.clock = true
  · rw [if_pos fails]
    exact .inr (.inl ⟨rfl, .inl fails⟩)
  rw [if_neg fails, stands, List.getElem?_append_right (Nat.le_refl _), Nat.sub_self]
  cases names with
  | nil => exact .inl ⟨rfl, rfl⟩
  | cons name behind =>
    show _ ∨ ((if _ : name.length < valueNameSize then _ else _) = _ ∧ _) ∨ _
    by_cases fits : name.length < valueNameSize
    · exact .inr (.inr ⟨name, behind, rfl, if_pos fits⟩)
    · exact .inr (.inl ⟨if_neg fits, .inr ⟨name, List.mem_cons_self, fits⟩⟩)

/-- A run of DoSubKey from a key on, which comes back with the path of that key. -/
def Descends (c : Config) (well : Prop) (levels : Nat) : Prop :=
  ∀ (path : Path) (s s' : Session), Fits c.keys.subkeys levels path →
    KeyAt s.cKeyPath (shownPath path) → Ready well (c.keys.below levels path) s →
    (well → s.bCancel = false) → doSubKey c levels path (shownPath path).length s = some s' →
    (∃ gone, Through c well (c.keys.below levels path) s s' gone) ∧
      Warned (c.keys.below levels path) s s' ∧ KeyAt s'.cKeyPath (shownPath path)

/-- The keys that the second loop has left. -/
def Keys.left (keys : Keys) (levels : Nat) (path : Path) (names : List (List CHAR)) : List Path :=
  names.flatMap fun name => keys.below levels (path ++ [name])

theorem left_cons (keys : Keys) (levels : Nat) (path : Path) (name : List CHAR)
    (names : List (List CHAR)) : keys.left levels path (name :: names) =
      keys.below levels (path ++ [name]) ++ keys.left levels path names :=
  List.flatMap_cons

theorem below_subset_left (keys : Keys) : keys.below levels (path ++ [name]) ⊆
    keys.left levels path (name :: names) := by
  rw [left_cons]
  exact List.subset_append_left _ _

theorem left_subset_left (keys : Keys) :
    keys.left levels path names ⊆ keys.left levels path (name :: names) := by
  rw [left_cons]
  exact List.subset_append_right _ _

theorem notMem_left {keys : Keys} {p : Path} (stands : keys.subkeys path = front ++ name :: names)
    (mem : p ∈ keys.below levels (path ++ [name])) : p ∉ keys.left levels path names := by
  have distinct := keys.distinct path
  rw [stands] at distinct
  exact notMem_others (List.nodup_cons.mp (List.nodup_append.mp distinct).2.1).1 mem

theorem path_notMem_left (keys : Keys) : path ∉ keys.left levels path names := by
  intro mem
  obtain ⟨name, -, inside⟩ := List.mem_flatMap.mp mem
  exact path_notMem_below inside

/-- The session in which DoSubKey is called for a subkey. -/
def Session.entered (c : Config) (lpszCurrentKey : Nat) (name : List CHAR) (s : Session) : Session :=
  Session.tick { s.tick.doEvents c with cKeyPath := appendKey s.cKeyPath lpszCurrentKey name }

theorem KeyAt.entered (keyAt : KeyAt s.cKeyPath (shownPath path)) (clean : ∀ c ∈ name, c ≠ 0) :
    KeyAt (s.entered c (shownPath path).length name).cKeyPath (shownPath (path ++ [name])) := by
  rw [shownPath_snoc]
  exact keyAt.append clean

theorem KeyAt.entered_place (keyAt : KeyAt s.cKeyPath (shownPath path)) (clean : ∀ c ∈ name, c ≠ 0) :
    (shownPath path).length +
        strlen (appendKey s.cKeyPath (shownPath path).length name) (shownPath path).length =
      (shownPath (path ++ [name])).length := by
  rw [shownPath_snoc]
  exact keyAt.place clean

theorem Ready.entered {keys : List Path} (ready : Ready well keys s) (c : Config) (place : Nat)
    (name : List CHAR) : Ready well keys (s.entered c place name) :=
  ⟨ready.names, ready.fits⟩

/-- The path of the key above is put back behind a subkey. -/
theorem Through.back {keys : List Path} {gone : List (Path × List (Path × RegValue))} {place : Nat}
    (through : Through c well keys (s.entered c place name) s' gone) :
    Through c well keys s { s' with cKeyPath := s'.cKeyPath.write place [0] } gone :=
  ⟨through.visited, through.all, through.shown, through.others, through.each, through.made,
    through.counter, through.calm⟩

/-- The second loop goes through the subkeys from an index on, with all below each of them. -/
theorem subKeysLoop_through (isWell : well → c.Calm) (named : well → c.keys.Named)
    (descends : Descends c well levels) (fuel : Nat) (stands : c.keys.subkeys path = front ++ names)
    (fits : ∀ name ∈ names, Fits c.keys.subkeys levels (path ++ [name]))
    (keyAt : KeyAt s.cKeyPath (shownPath path)) (ready : Ready well (c.keys.left levels path names) s)
    (calm : well → s.bCancel = false)
    (run : subKeysLoop c (doSubKey c levels) path (shownPath path).length fuel front.length s = some s') :
    (∃ gone, Through c well (c.keys.left levels path names) s s' gone) ∧
      Warned (path :: c.keys.left levels path names) s s' ∧ KeyAt s'.cKeyPath (shownPath path) := by
  induction fuel generalizing s front names with
  | zero => cases run
  | succ fuel ih =>
    rw [subKeysLoop] at run
    have beside := beside_doEvents c s
    have untouched := untouched_doEvents c s
    have text : s.keyText = shownPath path := keyAt.textAt
    have warned := beside.warned text (List.mem_cons_self (l := c.keys.left levels path names))
    have keyAt₁ : KeyAt (s.tick.doEvents c).cKeyPath (shownPath path) := keyAt
    rcases regEnumKey_cases c s stands with ⟨isNil, answer⟩ | ⟨answer, reason⟩ |
      ⟨name, behind, isCons, answer⟩
    · rw [answer] at run
      cases run
      subst isNil
      exact ⟨⟨[], .skipped ⟨rfl, rfl, rfl⟩ rfl (.inr rfl) calm⟩,
        ⟨[], (List.append_nil _).symm, fun _ mem => absurd mem List.not_mem_nil⟩, keyAt⟩
    · have trouble : ¬well := by
        intro well_
        rcases reason with fails | ⟨name, mem, long⟩
        · rw [(isWell well_ s.clock).1] at fails
          cases fails
        · exact long (named well_ path name (stands ▸ List.mem_append_right _ mem))
      have skip : ∀ {t : Session}, Untouched s t → t.shown = s.shown →
          Through c well (c.keys.left levels path names) s t [] := fun untouched shown =>
        .skipped untouched shown (.inl trouble) fun well_ => absurd well_ trouble
      rw [answer] at run
      dsimp only at run
      split at run
      · cases run
        exact ⟨⟨[], skip untouched beside.shown⟩, warned, keyAt₁⟩
      · cases run
        have warning := beside_displayWarning c (chars "Cannot enumerate subkeys under key")
          (s.tick.doEvents c)
        refine ⟨⟨[], skip (untouched.trans (untouched_displayWarning c _ _))
          (warning.shown.trans beside.shown)⟩, ?_, ?_⟩
        · exact (beside.trans warning).warned text List.mem_cons_self
        · rw [warning.cKeyPath]
          exact keyAt₁
    · subst isCons
      have isName : name ∈ c.keys.subkeys path := stands ▸ List.mem_append_right _ List.mem_cons_self
      have clean := c.keys.clean path name isName
      have fits₁ := fits name List.mem_cons_self
      have left := left_cons c.keys levels path name behind
      have rest : c.keys.left levels path behind ⊆ c.keys.left levels path (name :: behind) :=
        left_subset_left c.keys
      have apart : ∀ p ∈ c.keys.below levels (path ++ [name]), p ∉ c.keys.left levels path behind :=
        fun p mem => notMem_left stands mem
      have here : path ++ [name] ∈ c.keys.left levels path (name :: behind) :=
        below_subset_left c.keys (mem_walk fits₁)
      have stands₁ : c.keys.subkeys path = (front ++ [name]) ++ behind := by
        rw [stands, List.append_assoc]
        rfl
      have at_ : KeyAt (s.entered c (shownPath path).length name).cKeyPath (shownPath (path ++ [name])) :=
        keyAt.entered clean
      -- how the loop goes on behind this subkey
      have goes : ∀ (s₃ : Session) (gone : List (Path × List (Path × RegValue))),
          Through c well (c.keys.below levels (path ++ [name])) s s₃ gone →
          Warned (path :: c.keys.left levels path (name :: behind)) s s₃ →
          KeyAt s₃.cKeyPath (shownPath path) →
          subKeysLoop c (doSubKey c levels) path (shownPath path).length fuel (front.length + 1) s₃ =
            some s' →
          (∃ gone, Through c well (c.keys.left levels path (name :: behind)) s s' gone) ∧
            Warned (path :: c.keys.left levels path (name :: behind)) s s' ∧
            KeyAt s'.cKeyPath (shownPath path) := by
        intro s₃ gone through warned keyAt run
        have ready₃ : Ready well (c.keys.left levels path behind) s₃ :=
          through.ready (fun p mem again => apart p again mem) (ready.mono rest)
        rw [← List.length_singleton (a := name), ← List.length_append] at run
        obtain ⟨⟨gone', through'⟩, warned', keyAt'⟩ := ih stands₁
          (fun other mem => fits other (List.mem_cons_of_mem _ mem)) keyAt ready₃ through.calm run
        rw [left]
        rw [left] at warned
        exact ⟨⟨gone ++ gone', through.trans through' apart⟩,
          warned.trans (warned'.mono (List.cons_subset_cons _ (left ▸ rest))), keyAt'⟩
      rw [answer] at run
      dsimp only at run
      split at run
      · next cancelled =>
        have trouble : ¬well := by
          intro well_
          rw [doEvents_calm (isWell well_), calm well_] at cancelled
          cases cancelled
        cases run
        exact ⟨⟨[], .skipped untouched beside.shown (.inl trouble) fun well_ => absurd well_ trouble⟩,
          warned, keyAt₁⟩
      · split at run
        · next fails =>
          have trouble : ¬well := fun well_ => by
            have never := (isWell well_ _).1.symm.trans fails
            cases never
          refine goes _ [] (.skipped ?_ ?_ (.inl trouble) fun well_ => absurd well_ trouble) ?_ ?_ run
          · have still := untouched_keyError c (chars "Cannot open key")
              (s.entered c (shownPath path).length name)
            exact ⟨still.values, still.sets, still.counter⟩
          · exact (beside_keyError c _ (s.entered c (shownPath path).length name)).shown
          · exact (beside_keyError c (chars "Cannot open key")
              (s.entered c (shownPath path).length name)).warned at_.textAt (List.mem_cons_of_mem _ here)
          · rw [shownPath_snoc] at at_
            dsimp only
            rw [(beside_keyError c _ _).cKeyPath]
            exact at_.back
        · split at run
          · cases run
          · next s₃ inside =>
            have first : c.keys.below levels (path ++ [name]) ⊆ c.keys.left levels path (name :: behind) :=
              below_subset_left c.keys
            obtain ⟨⟨gone, through⟩, warned₃, keyAt₃⟩ := descends (path ++ [name])
              (s.entered c (shownPath path).length name) s₃ fits₁ at_
              ((ready.mono first).entered c _ name)
              (fun well_ => (doEvents_calm (isWell well_) s).trans (calm well_)) (by
                rw [← keyAt.entered_place clean]
                exact inside)
            rw [shownPath_snoc] at keyAt₃
            have through₃ := through.back
            have named₃ : Warned (path :: c.keys.left levels path (name :: behind)) s
                { s₃ with cKeyPath := s₃.cKeyPath.write (shownPath path).length [0] } :=
              Warned.mono warned₃ (List.subset_cons_of_subset _ first)
            split at run
            · next cancelled =>
              have trouble : ¬well := by
                intro well_
                rw [through.calm well_] at cancelled
                cases cancelled
              cases run
              have whole := through₃.trans (Through.skipped (c := c) (Untouched.refl _) rfl (.inl trouble)
                fun well_ => absurd well_ trouble) apart
              rw [← left] at whole
              exact ⟨⟨_, whole⟩, named₃, keyAt₃.back⟩
            · exact goes _ gone through₃ named₃ keyAt₃.back run

/-- The runs of DoSubKey, by induction on the levels of keys that are left. -/
theorem doSubKey_descends (isWell : well → c.Calm) (named : well → c.keys.Named) (levels : Nat) :
    Descends c well levels := by
  induction levels with
  | zero =>
    intro path s s' fits
    exact absurd fits id
  | succ levels ih =>
    intro path s s' fits keyAt ready calm run
    have text : s.keyText = shownPath path := keyAt.textAt
    have below : c.keys.below (levels + 1) path = [path] ++ c.keys.left levels path (c.keys.subkeys path) :=
      rfl
    have isKey : path ∈ c.keys.below (levels + 1) path := mem_walk fits
    have apart : ∀ p ∈ [path], p ∉ c.keys.left levels path (c.keys.subkeys path) := by
      intro p mem
      rw [List.mem_singleton.mp mem]
      exact path_notMem_left c.keys
    rw [doSubKey, text] at run
    dsimp only at run
    -- the values of the key itself
    have values : ∀ {s₁ : Session} {returned : Bool},
        valuesLoop c path ((s.values path).length + 1) 0 { s with shown := s.shown ++ [shownPath path] } =
          some (s₁, returned) →
        (∃ sets, Through c well [path] s s₁ [(path, sets)]) ∧
          Warned (c.keys.below (levels + 1) path) s s₁ ∧ KeyAt s₁.cKeyPath (shownPath path) ∧
          (returned = true → s₁.bCancel = true) := by
      intro s₁ returned run
      obtain ⟨⟨vs', sets, visited⟩, ended⟩ := @valuesLoop_visited c well path
        { s with shown := s.shown ++ [shownPath path] } s₁ [] (s.values path) isWell
        (fun well_ => ready.fits well_ path isKey) _ _ rfl (ready.names path isKey) text calm run
      refine ⟨⟨sets, visited.through⟩, ?_, ?_, ended⟩
      · exact visited.beside.warned text isKey
      · rw [visited.beside.cKeyPath]
        exact keyAt
    split at run
    · cases run
    · next s₁ isRun =>
      cases run
      obtain ⟨⟨sets, through⟩, warned, keyAt₁, cancelled⟩ := values isRun
      have trouble : ¬well := by
        intro well_
        have never := (through.calm well_).symm.trans (cancelled rfl)
        cases never
      refine ⟨⟨[(path, sets)] ++ [], ?_⟩, warned, keyAt₁⟩
      rw [below]
      exact through.trans (.skipped (Untouched.refl _) rfl (.inl trouble)
        fun well_ => absurd well_ trouble) apart
    · next s₁ isRun =>
      obtain ⟨⟨sets, through⟩, warned, keyAt₁, -⟩ := values isRun
      have later : c.keys.left levels path (c.keys.subkeys path) ⊆ c.keys.below (levels + 1) path := by
        rw [below]
        exact List.subset_append_right _ _
      have ready₁ : Ready well (c.keys.left levels path (c.keys.subkeys path)) s₁ :=
        through.ready (fun p mem again => apart p again mem) (ready.mono later)
      obtain ⟨⟨gone, behind⟩, warned', keyAt'⟩ := subKeysLoop_through isWell named ih _
        (show c.keys.subkeys path = [] ++ c.keys.subkeys path from rfl) fits keyAt₁ ready₁ through.calm run
      refine ⟨⟨[(path, sets)] ++ gone, ?_⟩, warned.trans warned', keyAt'⟩
      rw [below]
      exact through.trans behind apart

end subkeys

end Regrepl
