import LtrData.Regrepl.Registry

namespace Regrepl

/-! ### The calls for a value -/

/-- No call, the message that the result is too big, or one call for the value itself. -/
def Own (value : Value) (calls : List Call) : Prop :=
  calls = [] ∨ calls = [.tooBig] ∨
    ∃ lpData cbData, calls = [.regSetValueEx value.cValueName value.dwType lpData cbData]

section own

variable {t : Texts} {cKeyPath : List CHAR} {value : Value} {s : Scan} {b : Buffers} {outcome : Outcome}

theorem own_none : Own value [] := .inl rfl

theorem own_tooBig : Own value [.tooBig] := .inr (.inl rfl)

theorem own_set (lpData : List CHAR) (cbData : Nat) :
    Own value [.regSetValueEx value.cValueName value.dwType lpData cbData] :=
  .inr (.inr ⟨lpData, cbData, rfl⟩)

theorem replaceLoop_own {string : StringValue} (name : string.cValueName = value.cValueName)
    (type : .string string.dwType = value.dwType) (fuel : Nat) {s s' : Scan} {events : List Event}
    (run : replaceLoop t cKeyPath string fuel s = some (s', events)) :
    Own value (events.map Event.call) := by
  induction fuel generalizing s with
  | zero => cases run
  | succ fuel ih =>
    rw [replaceLoop] at run
    dsimp only at run
    split at run
    · split at run
      · cases run
        exact own_none
      · split at run
        · cases run
          exact own_tooBig
        · cases run
          have set (lpData : List CHAR) (cbData : Nat) :
              Own value [.regSetValueEx value.cValueName value.dwType lpData cbData] := own_set lpData cbData
          rw [← name, ← type] at set
          exact set _ _
    · split at run
      · cases run
        exact own_tooBig
      · exact ih run

theorem binaryLoop_own {search : Search} (fuel : Nat)
    (run : binaryLoop search cKeyPath value fuel s = some outcome) : Own value outcome.calls := by
  induction fuel generalizing s with
  | zero => cases run
  | succ fuel ih =>
    rw [binaryLoop] at run
    dsimp only at run
    split at run
    · split at run
      · cases run
        exact own_none
      · split at run
        · cases run
          exact own_none
        · split at run
          · cases run
            exact own_tooBig
          · cases run
            exact own_set _ _
    · split at run
      · cases run
        exact own_tooBig
      · split at run
        · cases run
          exact own_none
        · exact ih run

theorem multiLoop_own (fuel : Nat) (run : multiLoop t cKeyPath value fuel s = some outcome) :
    Own value outcome.calls := by
  induction fuel generalizing s with
  | zero => cases run
  | succ fuel ih =>
    rw [multiLoop] at run
    dsimp only at run
    split at run
    · split at run
      · cases run
        exact own_none
      · split at run
        · cases run
          exact own_tooBig
        · split at run
          · split at run
            · cases run
              exact own_none
            · cases run
              exact own_set _ _
          · exact ih run
    · split at run
      · cases run
        exact own_tooBig
      · exact ih run

/-- Whatever a value is, it is only written itself, and once at most. -/
theorem doValue_own {wide : Option (WideTexts t)}
    (run : doValue t wide cKeyPath value b = some outcome) : Own value outcome.calls := by
  unfold doValue at run
  dsimp only at run
  split at run
  · unfold replaceInValue at run
    split at run
    · next dwType isType =>
      split at run
      · next terminated =>
        obtain ⟨done, string, rfl⟩ := Option.map_eq_some_iff.mp run
        unfold replaceInString at string
        obtain ⟨scanned, loop, rfl⟩ := Option.map_eq_some_iff.mp string
        exact replaceLoop_own rfl isType.symm _ loop
      · cases run
        exact own_none
    · unfold replaceInBinary at run
      split at run
      · split at run
        · cases run
          exact own_none
        · exact binaryLoop_own _ run
      · exact binaryLoop_own _ run
    · exact multiLoop_own _ run
    · cases run
      exact own_none
  · cases run
    exact own_none

end own

/-! ### The path in `cKeyPath` -/

/-- What becomes of the text when a name is put behind it. -/
def appended (text name : List CHAR) : List CHAR :=
  if keyPathSize - text.length > 4 then
    text ++ (chars "\\" ++ name).take (keyPathSize - text.length - 3)
  else text

def shownPath (path : Path) : List CHAR := path.foldl appended []

/-- The end of the buffer that nothing is ever put into. -/
def EndsWithZeros (m : Cells CHAR) : Prop := ∀ i, keyPathSize - 3 ≤ i → i < keyPathSize → m i = 0

/-- The text is in the buffer, which ends with zeros. -/
structure KeyAt (m : Cells CHAR) (text : List CHAR) : Prop where
  holds : m.Holds keyPathSize 0 text
  short : text.length ≤ keyPathSize - 3
  ends : EndsWithZeros m

section keyPath

variable {m m' : Cells CHAR} {text name : List CHAR}

theorem shownPath_snoc (path : Path) (name : List CHAR) :
    shownPath (path ++ [name]) = appended (shownPath path) name := by
  unfold shownPath
  rw [List.foldl_append]
  rfl

theorem keyAt_start (ends : EndsWithZeros m) : KeyAt (m.write 0 [0]) [] := by
  refine ⟨⟨?_, fun _ mem => absurd mem List.not_mem_nil, by decide⟩, by decide, ?_⟩
  · exact Cells.read_write_same m 0 [0]
  · intro i lower upper
    rw [Cells.write_one]
    split
    · rfl
    · exact ends i lower upper

theorem KeyAt.textAt (keyAt : KeyAt m text) : m.textAt keyPathSize 0 = text := keyAt.holds.textAt

theorem appended_prefix (text name : List CHAR) : text <+: appended text name := by
  unfold appended
  split
  · exact List.prefix_append _ _
  · exact List.prefix_rfl

theorem KeyAt.cells (keyAt : KeyAt m text) : m.read 0 text.length = text := by
  have whole := keyAt.holds.cells
  rw [← List.length_singleton (a := (0 : CHAR)), ← List.length_append] at whole
  exact (Cells.read_append whole).1

theorem clean_append (keyAt : KeyAt m text) (clean : ∀ c ∈ name, c ≠ 0) (n : Nat) :
    ∀ c ∈ text ++ (chars "\\" ++ name).take n, c ≠ 0 := by
  intro c mem
  rcases List.mem_append.mp mem with before | behind
  · exact keyAt.holds.clean c before
  · rcases List.mem_append.mp (List.mem_of_mem_take behind) with separator | inside
    · have all : ∀ c ∈ chars "\\", c ≠ 0 := by decide
      exact all c separator
    · exact clean c inside

/-- Behind what _snprintf has written there is a zero, its own one or one that was there. -/
theorem KeyAt.snprintf (keyAt : KeyAt m text) {written : List CHAR} {n : Nat}
    (room : text.length + n = keyPathSize - 3) :
    (snprintf m text.length n written).read 0 ((text ++ written.take n).length + 1) =
      text ++ written.take n ++ [0] := by
  unfold Regrepl.snprintf
  by_cases fits : written.length < n
  · have whole : (written ++ [0]).take n = written ++ [0] :=
      List.take_of_length_le (by rw [List.length_append, List.length_singleton]; omega)
    have all : written.take n = written := List.take_of_length_le (Nat.le_of_lt fits)
    have read := Cells.read_write_append m (written ++ [0]) 0 text.length
    rw [Nat.zero_add, keyAt.cells, List.length_append, List.length_singleton, ← Nat.add_assoc] at read
    rw [whole, all, List.length_append, read, List.append_assoc]
  · have cut : (written ++ [0]).take n = written.take n :=
      List.take_append_of_le_length (Nat.not_lt.mp fits)
    have length : (written.take n).length = n := List.length_take_of_le (Nat.not_lt.mp fits)
    have read := Cells.read_write_append m (written.take n) 0 text.length
    rw [Nat.zero_add, keyAt.cells] at read
    rw [cut, List.length_append, Cells.read_add, read, Nat.zero_add]
    congr 1
    show [m.write text.length (written.take n) _] = [0]
    rw [Cells.write_after m (written.take n) (Nat.le_refl _), length, room,
      keyAt.ends _ (Nat.le_refl _) (by decide)]

theorem KeyAt.append (keyAt : KeyAt m text) (clean : ∀ c ∈ name, c ≠ 0) :
    KeyAt (appendKey m text.length name) (appended text name) := by
  have short := keyAt.short
  have size : keyPathSize = 65535 := rfl
  unfold appendKey appended
  by_cases more : keyPathSize - text.length > 4
  · rw [if_pos more, if_pos more]
    generalize isRoom : keyPathSize - text.length - 3 = n
    have room : text.length + n = keyPathSize - 3 := by omega
    have length : (text ++ (chars "\\" ++ name).take n).length ≤ keyPathSize - 3 := by
      rw [List.length_append, List.length_take]
      omega
    refine ⟨⟨?_, clean_append keyAt clean n, by omega⟩, length, ?_⟩
    · rw [Cells.read_write_before _ _ (by omega)]
      exact keyAt.snprintf room
    · intro i lower upper
      rw [Cells.write_one]
      split
      · rfl
      · have behind : text.length + ((chars "\\" ++ name ++ [0]).take n).length ≤ i := by
          rw [List.length_take]
          omega
        unfold Regrepl.snprintf
        rw [Cells.write_after m _ behind]
        exact keyAt.ends i lower upper
  · rw [if_neg more, if_neg more]
    exact keyAt

theorem KeyAt.place (keyAt : KeyAt m text) (clean : ∀ c ∈ name, c ≠ 0) :
    text.length + strlen (appendKey m text.length name) text.length = (appended text name).length := by
  have after := keyAt.append clean
  obtain ⟨rest, split⟩ := appended_prefix text name
  rw [← split] at after ⊢
  have cells := after.holds.cells
  rw [List.append_assoc, List.length_append, Nat.add_assoc, ← List.length_singleton (a := (0 : CHAR)),
    ← List.length_append, ← List.length_append] at cells
  have behind : (appendKey m text.length name).Holds valueDataSize text.length rest := by
    refine ⟨?_, fun c mem => after.holds.clean c (List.mem_append_right _ mem), ?_⟩
    · have second := (Cells.read_append cells).2
      rw [Nat.zero_add, List.length_append, List.length_singleton] at second
      exact second
    · have inside := after.holds.inside
      rw [List.length_append, Nat.zero_add] at inside
      exact inside
  unfold strlen
  rw [behind.textAt, List.length_append]

/-- Back to the key above, whatever has been written behind its path. -/
theorem KeyAt.back (keyAt : KeyAt m (appended text name)) : KeyAt (m.write text.length [0]) text := by
  obtain ⟨rest, split⟩ := appended_prefix text name
  rw [← split] at keyAt
  have short := keyAt.short
  rw [List.length_append] at short
  have cut := keyAt.holds.cut (i := text.length) (by rw [List.length_append]; omega)
  rw [Nat.zero_add, List.take_left' rfl] at cut
  refine ⟨cut, by omega, fun i lower upper => ?_⟩
  rw [Cells.write_one]
  split
  · rfl
  · exact keyAt.ends i lower upper

/-- The text shown is the path itself, unless it is as long as the buffer. -/
theorem shownPath_eq (path : Path) (short : (path.flatMap (chars "\\" ++ ·)).length < keyPathSize - 4) :
    shownPath path = path.flatMap (chars "\\" ++ ·) := by
  induction path using List.reverseRecOn with
  | nil => rfl
  | append_singleton path name ih =>
    rw [List.flatMap_append, List.flatMap_singleton, List.length_append] at short
    have size : keyPathSize = 65535 := rfl
    rw [shownPath_snoc, ih (by omega), appended, List.flatMap_append, List.flatMap_singleton,
      if_pos (by omega), List.take_of_length_le (by omega)]

end keyPath

/-! ### The values of a key -/

/-- A value behind the calls that have been made for it. -/
def applied (v : RegValue) (calls : List Call) : RegValue :=
  calls.foldl (fun v call =>
    match call with
    | .regSetValueEx cValueName dwType lpData _ => ⟨cValueName, dwType, lpData⟩
    | .tooBig => v) v

def madeBy (path : Path) (calls : List Call) : List (Path × RegValue) :=
  calls.filterMap fun call =>
    match call with
    | .regSetValueEx cValueName dwType lpData _ => some (path, ⟨cValueName, dwType, lpData⟩)
    | .tooBig => none

/-- A value is what ReplaceInString has made of it, or as it was, which is not where all goes well. -/
inductive Rewrite (c : Config) (well : Prop) (path : Path) (v : RegValue) :
    RegValue → List (Path × RegValue) → Prop
  | kept (trouble : ¬well) : Rewrite c well path v v []
  | made {fits : v.data.length ≤ valueDataSize} {b : Buffers} {outcome : Outcome}
    (run : doValue c.t c.wide (shownPath path) ⟨v.name, v.dwType, v.data, fits⟩ b = some outcome) :
    Rewrite c well path v (applied v outcome.calls) (madeBy path outcome.calls)

inductive Rewrites (c : Config) (well : Prop) (path : Path) :
    List RegValue → List RegValue → List (Path × RegValue) → Prop
  | nil : Rewrites c well path [] [] []
  | cons {v v' : RegValue} {vs vs' : List RegValue} {sets sets' : List (Path × RegValue)}
    (first : Rewrite c well path v v' sets) (rest : Rewrites c well path vs vs' sets') :
    Rewrites c well path (v :: vs) (v' :: vs') (sets ++ sets')

/-- No call fails, and the user does not cancel. -/
def Config.Calm (c : Config) : Prop := ∀ k, c.fails k = false ∧ c.cancels k = false

def RegValue.Fits (v : RegValue) : Prop := v.name.length < valueNameSize ∧ v.data.length ≤ valueDataSize

instance (v : RegValue) : Decidable v.Fits := inferInstanceAs (Decidable (_ ∧ _))

/-- What is not about values: the path stays, and the warnings name it. -/
structure Beside (s s' : Session) : Prop where
  cKeyPath : s'.cKeyPath = s.cKeyPath
  shown : s'.shown = s.shown
  warnings : ∃ added, s'.warnings = s.warnings ++ added ∧ ∀ w ∈ added, w.2 = s.keyText
  cancelled : s.bCancel = true → s'.bCancel = true

structure Untouched (s s' : Session) : Prop where
  values : s'.values = s.values
  sets : s'.sets = s.sets
  counter : s'.dwReplaceCounter = s.dwReplaceCounter

section values

variable {c : Config} {well : Prop} {path : Path} {s s' s'' : Session} {v v' : RegValue}
  {front behind vs : List RegValue} {sets : List (Path × RegValue)} {lpMsg : List CHAR}

theorem Beside.refl (s : Session) : Beside s s :=
  ⟨rfl, rfl, ⟨[], (List.append_nil _).symm, fun _ mem => absurd mem List.not_mem_nil⟩, id⟩

theorem Beside.keyText (beside : Beside s s') : s'.keyText = s.keyText := by
  unfold Session.keyText
  rw [beside.cKeyPath]

theorem Beside.trans (first : Beside s s') (second : Beside s' s'') : Beside s s'' := by
  obtain ⟨added, isAdded, name⟩ := first.warnings
  obtain ⟨more, isMore, name'⟩ := second.warnings
  rw [first.keyText] at name'
  refine ⟨second.cKeyPath.trans first.cKeyPath, second.shown.trans first.shown,
    ⟨added ++ more, ?_, ?_⟩, fun cancel => second.cancelled (first.cancelled cancel)⟩
  · rw [isMore, isAdded, List.append_assoc]
  · intro w mem
    rcases List.mem_append.mp mem with mem | mem
    · exact name w mem
    · exact name' w mem

theorem Untouched.refl (s : Session) : Untouched s s := ⟨rfl, rfl, rfl⟩

theorem Untouched.trans (first : Untouched s s') (second : Untouched s' s'') : Untouched s s'' :=
  ⟨second.values.trans first.values, second.sets.trans first.sets, second.counter.trans first.counter⟩

theorem beside_displayWarning (c : Config) (lpMsg : List CHAR) (s : Session) :
    Beside s (s.displayWarning c lpMsg) := by
  unfold Session.displayWarning
  split
  · exact Beside.refl s
  · have added : ∃ added, s.warnings ++ [(lpMsg, s.keyText)] = s.warnings ++ added ∧
        ∀ w ∈ added, w.2 = s.keyText :=
      ⟨_, rfl, fun w mem => by rw [List.mem_singleton.mp mem]⟩
    dsimp only
    split
    · exact ⟨rfl, rfl, added, id⟩
    · exact ⟨rfl, rfl, added, id⟩
    · exact ⟨rfl, rfl, added, fun _ => rfl⟩

theorem untouched_displayWarning (c : Config) (lpMsg : List CHAR) (s : Session) :
    Untouched s (s.displayWarning c lpMsg) := by
  unfold Session.displayWarning
  split
  · exact Untouched.refl s
  · dsimp only
    split <;> exact ⟨rfl, rfl, rfl⟩

theorem beside_doEvents (c : Config) (s : Session) : Beside s (s.tick.doEvents c) where
  cKeyPath := rfl
  shown := rfl
  warnings := ⟨[], (List.append_nil _).symm, fun _ mem => absurd mem List.not_mem_nil⟩
  cancelled cancel := by
    show (s.bCancel || _) = true
    rw [cancel]
    rfl

theorem untouched_doEvents (c : Config) (s : Session) : Untouched s (s.tick.doEvents c) := ⟨rfl, rfl, rfl⟩

theorem beside_keyError (c : Config) (lpMsg : List CHAR) (s : Session) : Beside s (s.keyError c lpMsg) := by
  have warned := beside_displayWarning c lpMsg s
  exact ⟨warned.cKeyPath, warned.shown, warned.warnings, warned.cancelled⟩

theorem untouched_keyError (c : Config) (lpMsg : List CHAR) (s : Session) :
    Untouched s (s.keyError c lpMsg) := by
  have warned := untouched_displayWarning c lpMsg s
  exact ⟨warned.values, warned.sets, warned.counter⟩

/-- A value with a name that no other one has is overwritten where it stands. -/
theorem setValue_own (nodup : ((front ++ v :: behind).map RegValue.name).Nodup) (name : v'.name = v.name) :
    setValue (front ++ v :: behind) v' = front ++ v' :: behind := by
  rw [List.map_append, List.map_cons, List.nodup_append, List.nodup_cons] at nodup
  obtain ⟨-, ⟨notBehind, -⟩, apart⟩ := nodup
  have other {values : List RegValue} (absent : v.name ∉ values.map RegValue.name) :
      values.map (fun old => if old.name = v'.name then v' else old) = values := by
    calc values.map (fun old => if old.name = v'.name then v' else old)
        = values.map id := List.map_congr_left fun old mem =>
          if_neg fun same => absent (List.mem_map.mpr ⟨old, mem, same.trans name⟩)
      _ = values := List.map_id _
  have notFront : v.name ∉ front.map RegValue.name := fun mem =>
    apart _ mem _ List.mem_cons_self rfl
  have there : v'.name ∈ (front ++ v :: behind).map RegValue.name :=
    List.mem_map.mpr ⟨v, List.mem_append_right _ List.mem_cons_self, name.symm⟩
  rw [setValue, if_pos there, List.map_append, List.map_cons, other notFront, other notBehind,
    if_pos name.symm]

/-- The values behind some first ones have been gone through. -/
structure Visited (c : Config) (well : Prop) (path : Path) (s s' : Session) (front : List RegValue)
    (vs vs' : List RegValue) (sets : List (Path × RegValue)) : Prop where
  beside : Beside s s'
  values : s'.values = Function.update s.values path (front ++ vs')
  rewrites : Rewrites c well path vs vs' sets
  made : s'.sets = s.sets ++ sets
  counter : s'.dwReplaceCounter = s.dwReplaceCounter + BitVec.ofNat 32 sets.length
  calm : well → s'.bCancel = false

theorem update_same {values : Path → List RegValue} (same : values path = vs) :
    values = Function.update values path vs := by
  rw [← same, Function.update_eq_self]

/-- Nothing is written where the rest of the values is not got to. -/
theorem Untouched.visited (untouched : Untouched s s') (beside : Beside s s') (trouble : ¬well)
    (stands : s.values path = front ++ vs) : Visited c well path s s' front vs vs [] where
  beside := beside
  values := by
    rw [untouched.values]
    exact update_same stands
  rewrites := by
    clear stands
    induction vs with
    | nil => exact .nil
    | cons v vs ih => exact .cons (.kept trouble) ih
  made := by rw [untouched.sets, List.append_nil]
  counter := by
    rw [untouched.counter]
    exact (BitVec.add_zero _).symm
  calm isWell := absurd isWell trouble

theorem regSetValueEx_cases (c : Config) (path : Path) (value : RegValue) (s : Session) :
    Beside s (s.regSetValueEx c path value) ∧
      (c.fails s.clock = true ∧ Untouched s (s.regSetValueEx c path value) ∨
        (s.regSetValueEx c path value).values =
          Function.update s.values path (setValue (s.values path) value) ∧
        (s.regSetValueEx c path value).sets = s.sets ++ [(path, value)] ∧
        (s.regSetValueEx c path value).dwReplaceCounter = s.dwReplaceCounter + 1 ∧
        (s.regSetValueEx c path value).bCancel = s.bCancel) := by
  unfold Session.regSetValueEx
  by_cases fails : c.fails s.clock = true
  · rw [if_pos fails]
    have beside := beside_displayWarning c (chars "Error saving value in key") s.tick
    have untouched := untouched_displayWarning c (chars "Error saving value in key") s.tick
    exact ⟨⟨beside.cKeyPath, beside.shown, beside.warnings, beside.cancelled⟩,
      .inl ⟨fails, untouched.values, untouched.sets, untouched.counter⟩⟩
  · rw [if_neg fails]
    exact ⟨⟨rfl, rfl, (Beside.refl s).warnings, id⟩, .inr ⟨rfl, rfl, rfl, rfl⟩⟩

/-- One value has been gone through. -/
structure Handled (c : Config) (well : Prop) (path : Path) (s s' : Session) (front : List RegValue)
    (v : RegValue) (behind : List RegValue) (v' : RegValue) (sets : List (Path × RegValue)) : Prop where
  beside : Beside s s'
  values : s'.values = Function.update s.values path (front ++ v' :: behind)
  rewrite : Rewrite c well path v v' sets
  name : v'.name = v.name
  made : s'.sets = s.sets ++ sets
  counter : s'.dwReplaceCounter = s.dwReplaceCounter + BitVec.ofNat 32 sets.length
  calm : well → s.bCancel = false → s'.bCancel = false

theorem Untouched.handled (untouched : Untouched s s') (beside : Beside s s')
    (rewrite : Rewrite c well path v v []) (stands : s.values path = front ++ v :: behind)
    (calm : well → s.bCancel = false → s'.bCancel = false) :
    Handled c well path s s' front v behind v [] where
  beside := beside
  values := by
    rw [untouched.values]
    exact update_same stands
  rewrite := rewrite
  name := rfl
  made := by rw [untouched.sets, List.append_nil]
  counter := by
    rw [untouched.counter]
    exact (BitVec.add_zero _).symm
  calm := calm

theorem replace_handled (isWell : well → c.Calm) {fits : v.data.length ≤ valueDataSize}
    (stands : s.values path = front ++ v :: behind)
    (nodup : ((front ++ v :: behind).map RegValue.name).Nodup) (key : s.keyText = shownPath path)
    (run : s.replace c path ⟨v.name, v.dwType, v.data, fits⟩ = some s') :
    ∃ v' sets, Handled c well path s s' front v behind v' sets := by
  unfold Session.replace at run
  split at run
  · cases run
  · next outcome isOutcome =>
    split at run
    · obtain rfl := Option.some.inj run
      have made := @Rewrite.made c well path v fits s.buffers outcome (key ▸ isOutcome)
      have unset : Beside s { s with buffers := outcome.buffers } :=
        ⟨rfl, rfl, (Beside.refl s).warnings, id⟩
      rcases doValue_own isOutcome with none_ | tooBig | ⟨lpData, cbData, set⟩
      · rw [none_] at made ⊢
        exact ⟨v, [], Untouched.handled ⟨rfl, rfl, rfl⟩ unset made stands fun _ => id⟩
      · rw [tooBig] at made ⊢
        exact ⟨v, [], Untouched.handled ⟨rfl, rfl, rfl⟩ unset made stands fun _ => id⟩
      · rw [set] at made ⊢
        obtain ⟨beside, outcomes⟩ := regSetValueEx_cases c path ⟨v.name, v.dwType, lpData⟩
          { s with buffers := outcome.buffers }
        have besides : Beside s _ := unset.trans beside
        rcases outcomes with ⟨fails, untouched⟩ | ⟨values, sets, counter, cancel⟩
        · have trouble : ¬well := by
            intro calm
            have never := (isWell calm s.clock).1
            rw [show c.fails s.clock = true from fails] at never
            cases never
          exact ⟨v, [], Untouched.handled ⟨untouched.values, untouched.sets, untouched.counter⟩ besides
            (.kept trouble) stands fun calm => absurd calm trouble⟩
        · refine ⟨⟨v.name, v.dwType, lpData⟩, _, besides, ?_, made, rfl, sets, counter, fun _ run => ?_⟩
          · rw [← setValue_own nodup (show RegValue.name ⟨v.name, v.dwType, lpData⟩ = v.name from rfl), ← stands]
            exact values
          · exact cancel.trans run
    · cases run

theorem Handled.stands (handled : Handled c well path s s' front v behind v' sets) :
    s'.values path = (front ++ [v']) ++ behind := by
  rw [handled.values, Function.update_self, List.append_assoc]
  rfl

theorem Handled.nodup (handled : Handled c well path s s' front v behind v' sets)
    (nodup : ((front ++ v :: behind).map RegValue.name).Nodup) :
    (((front ++ [v']) ++ behind).map RegValue.name).Nodup := by
  rw [List.append_assoc, List.map_append, List.singleton_append, List.map_cons, handled.name]
  rwa [List.map_append, List.map_cons] at nodup

theorem Handled.visited {vs' : List RegValue} {sets' : List (Path × RegValue)}
    (handled : Handled c well path s s' front v behind v' sets)
    (visited : Visited c well path s' s'' (front ++ [v']) behind vs' sets') :
    Visited c well path s s'' front (v :: behind) (v' :: vs') (sets ++ sets') where
  beside := handled.beside.trans visited.beside
  values := by
    rw [visited.values, handled.values, Function.update_idem, List.append_assoc]
    rfl
  rewrites := .cons handled.rewrite visited.rewrites
  made := by rw [visited.made, handled.made, List.append_assoc]
  counter := by
    rw [visited.counter, handled.counter, List.length_append, BitVec.ofNat_add, BitVec.add_assoc]
  calm := visited.calm

theorem regEnumValue_cases (c : Config) (stands : s.values path = front ++ vs) :
    (vs = [] ∧ s.regEnumValue c path front.length = .noMoreItems) ∨
    (s.regEnumValue c path front.length = .failed ∧
      (c.fails s.clock = true ∨ ∃ v ∈ vs, ¬v.Fits)) ∨
    ∃ v behind, vs = v :: behind ∧ ∃ fits : v.data.length ≤ valueDataSize,
      s.regEnumValue c path front.length = .value ⟨v.name, v.dwType, v.data, fits⟩ := by
  unfold Session.regEnumValue
  by_cases fails : c.fails s.clock = true
  · rw [if_pos fails]
    exact .inr (.inl ⟨rfl, .inl fails⟩)
  rw [if_neg fails, stands, List.getElem?_append_right (Nat.le_refl _), Nat.sub_self]
  cases vs with
  | nil => exact .inl ⟨rfl, rfl⟩
  | cons v behind =>
    show _ ∨ ((if _ : v.Fits then _ else _) = _ ∧ _) ∨ _
    by_cases fits : v.Fits
    · exact .inr (.inr ⟨v, behind, rfl, fits.2, dif_pos fits⟩)
    · exact .inr (.inl ⟨dif_neg fits, .inr ⟨v, List.mem_cons_self, fits⟩⟩)

theorem doEvents_calm (calm : c.Calm) (s : Session) : (s.tick.doEvents c).bCancel = s.bCancel := by
  show (s.bCancel || c.cancels (s.clock + 1)) = s.bCancel
  rw [(calm _).2, Bool.or_false]

/-- The first loop goes through the values from an index on, each of which it writes itself only. -/
theorem valuesLoop_visited (isWell : well → c.Calm) (fits : well → ∀ v ∈ vs, v.Fits) (fuel : Nat)
    {returned : Bool} (stands : s.values path = front ++ vs)
    (nodup : ((front ++ vs).map RegValue.name).Nodup) (key : s.keyText = shownPath path)
    (calm : well → s.bCancel = false)
    (run : valuesLoop c path fuel front.length s = some (s', returned)) :
    (∃ vs' sets, Visited c well path s s' front vs vs' sets) ∧ (returned = true → s'.bCancel = true) := by
  induction fuel generalizing s front vs with
  | zero => cases run
  | succ fuel ih =>
    rw [valuesLoop] at run
    have beside := beside_doEvents c s
    have untouched := untouched_doEvents c s
    rcases regEnumValue_cases c stands with ⟨isNil, answer⟩ | ⟨answer, reason⟩ |
      ⟨v, behind, isCons, fits_, answer⟩
    · rw [answer] at run
      cases run
      subst isNil
      refine ⟨⟨[], [], ⟨rfl, rfl, (Beside.refl s).warnings, id⟩, update_same stands, .nil, ?_, ?_, calm⟩,
        fun none_ => nomatch none_⟩
      · exact (List.append_nil _).symm
      · exact (BitVec.add_zero _).symm
    · have trouble : ¬well := by
        intro well_
        rcases reason with fails | ⟨v, mem, long⟩
        · rw [(isWell well_ s.clock).1] at fails
          cases fails
        · exact long (fits well_ v mem)
      rw [answer] at run
      dsimp only at run
      split at run
      · next cancelled =>
        cases run
        exact ⟨⟨vs, [], untouched.visited beside trouble stands⟩, fun _ => cancelled⟩
      · cases run
        exact ⟨⟨vs, [], (untouched.trans (untouched_keyError c _ _)).visited
          (beside.trans (beside_keyError c _ _)) trouble stands⟩, fun none_ => nomatch none_⟩
    · rw [answer] at run
      dsimp only at run
      subst isCons
      split at run
      · next cancelled =>
        have trouble : ¬well := by
          intro well_
          rw [doEvents_calm (isWell well_), calm well_] at cancelled
          cases cancelled
        cases run
        exact ⟨⟨_, [], untouched.visited beside trouble stands⟩, fun _ => cancelled⟩
      · split at run
        · cases run
        · next s₂ replaced =>
          have stands₁ : (s.tick.doEvents c).values path = front ++ v :: behind := stands
          obtain ⟨v', sets, handled⟩ := replace_handled isWell stands₁ nodup
            (beside.keyText.trans key) replaced
          have calm₂ : well → s₂.bCancel = false := fun well_ =>
            handled.calm well_ ((doEvents_calm (isWell well_) s).trans (calm well_))
          rw [show front.length + 1 = (front ++ [v']).length by simp] at run
          obtain ⟨⟨vs', sets', visited⟩, ended⟩ := ih
            (fun well_ v mem => fits well_ v (List.mem_cons_of_mem _ mem)) handled.stands (handled.nodup nodup)
            (handled.beside.keyText.trans (beside.keyText.trans key)) calm₂ run
          have whole : Handled c well path s s₂ front v behind v' sets :=
            ⟨beside.trans handled.beside, handled.values, handled.rewrite, handled.name, handled.made,
              handled.counter, fun well_ none_ => calm₂ well_⟩
          exact ⟨⟨_, _, whole.visited visited⟩, ended⟩

end values

end Regrepl
