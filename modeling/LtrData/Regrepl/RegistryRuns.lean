import LtrData.Regrepl.KeyTree

namespace Regrepl

open Occurrences TreeWalk

/-! ### What becomes of a value where nothing goes wrong -/

def ValueType.isString : ValueType → Bool
  | .string _ => true
  | _ => false

/-- A string with its NUL, or a value of a type that ReplaceInString passes over. -/
def RegValue.Plain (v : RegValue) : Prop :=
  (∃ dwType, v.dwType = .other dwType) ∨ ∃ dwType, v.dwType = .string dwType ∧ 0 ∈ v.data

def RegValue.text (v : RegValue) : List CHAR := v.data.takeWhile (· ≠ 0)

def RegValue.newText (t : Texts) (v : RegValue) : List CHAR := replaceAll t.cFrom t.cTo v.text

/-- The search text is in the string, and the new string fits. -/
def RegValue.ToReplace (t : Texts) (v : RegValue) : Prop :=
  v.dwType.isString = true ∧ t.cFrom <:+: v.text ∧ (v.newText t).length ≤ 65535

instance (t : Texts) (v : RegValue) : Decidable (v.ToReplace t) :=
  inferInstanceAs (Decidable (_ ∧ _))

def RegValue.replaced (t : Texts) (v : RegValue) : RegValue :=
  if v.ToReplace t then { v with data := v.newText t ++ [0] } else v

/-- The calls a value is to get, without the messages. -/
def RegValue.calls (t : Texts) (v : RegValue) : List Call :=
  if v.ToReplace t then [.regSetValueEx v.name v.dwType (v.newText t ++ [0]) ((v.newText t).length + 1)]
  else []

def RegValue.sets (t : Texts) (path : Path) (v : RegValue) : List (Path × RegValue) :=
  if v.ToReplace t then [(path, v.replaced t)] else []

section plain

variable {c : Config} {path : Path} {v v' : RegValue} {s : Session} {sets : List (Path × RegValue)}
  {front vs vs' : List RegValue}

theorem filter_call (events : List Event) :
    (events.map Event.call).filter Call.isSet = (events.filter Event.isSet).map Event.call := by
  rw [List.filter_map]
  congr 1
  apply List.filter_congr
  intro event _
  cases event <;> rfl

theorem calls_of_other {dwType : Nat} (type : v.dwType = .other dwType) (t : Texts) : v.calls t = [] := by
  apply if_neg
  intro toReplace
  have string := toReplace.1
  rw [type] at string
  cases string

/-- A string's calls are those that one value of that text is to get. -/
theorem calls_of_string {dwType : StringType} (type : v.dwType = .string dwType) (t : Texts)
    {value : StringValue} (name : value.cValueName = v.name) (same : value.dwType = dwType)
    (text : value.text = v.text) : (expected t value).map Event.call = v.calls t := by
  have replaces : v.ToReplace t ↔ t.cFrom <:+: value.text ∧
      (replaceAll t.cFrom t.cTo value.text).length ≤ 65535 := by
    unfold RegValue.ToReplace RegValue.newText
    rw [text, type]
    exact ⟨fun toReplace => toReplace.2, fun replace => ⟨rfl, replace⟩⟩
  unfold expected RegValue.calls
  dsimp only
  by_cases toReplace : v.ToReplace t
  · rw [if_pos toReplace, if_pos (replaces.mp toReplace), text, name, same, type]
    rfl
  · rw [if_neg toReplace, if_neg fun replace => toReplace (replaces.mpr replace)]
    rfl

theorem doValue_plain (plain : v.Plain) {fits : v.data.length ≤ valueDataSize} (t : Texts)
    (wide : Option (WideTexts t)) (cKeyPath : List CHAR) (b : Buffers) :
    ∃ outcome, doValue t wide cKeyPath ⟨v.name, v.dwType, v.data, fits⟩ b = some outcome ∧
      outcome.ended = .finished ∧ outcome.calls.filter Call.isSet = v.calls t := by
  unfold doValue
  dsimp only
  rcases plain with ⟨dwType, type⟩ | ⟨dwType, type, terminated⟩
  · rw [calls_of_other type]
    split
    · unfold replaceInValue
      rw [type]
      exact ⟨_, rfl, rfl, rfl⟩
    · exact ⟨_, rfl, rfl, rfl⟩
  · have holds := Cells.holds_write b.cValueData terminated
      (show 0 + v.data.length ≤ valueDataSize by rw [Nat.zero_add]; exact fits)
    split
    · have whole : 0 ∈ (b.cValueData.write 0 v.data).read 0 valueDataSize := holds.terminated
      have text : ((b.cValueData.write 0 v.data).read 0 valueDataSize).takeWhile (· ≠ 0) = v.text :=
        holds.textAt
      have reads : (⟨v.name, dwType, _, whole, Nat.le_of_eq (Cells.length_read ..)⟩ : StringValue).text =
        v.text := text
      obtain ⟨b', events, run, calls⟩ := @replaceInString_expected t
        ⟨v.name, dwType, _, whole, Nat.le_of_eq (Cells.length_read ..)⟩ cKeyPath
        ⟨b.cValueData.write 0 v.data, b.cNewData⟩ (by
          rw [reads]
          exact holds)
      unfold replaceInValue
      dsimp only
      rw [type]
      dsimp only
      rw [dif_pos whole, run]
      refine ⟨_, rfl, rfl, ?_⟩
      show (events.map Event.call).filter Call.isSet = _
      rw [filter_call, calls]
      exact calls_of_string type t rfl rfl reads
    · next short =>
      refine ⟨_, rfl, rfl, ?_⟩
      rw [← @calls_of_string v dwType type t ⟨v.name, dwType, v.data, terminated, fits⟩ rfl rfl rfl,
        expected_of_short short]
      rfl

theorem applied_filter (v : RegValue) (calls : List Call) :
    applied v (calls.filter Call.isSet) = applied v calls := by
  induction calls generalizing v with
  | nil => rfl
  | cons call calls ih =>
    cases call with
    | regSetValueEx cValueName dwType lpData cbData => exact ih _
    | tooBig => exact ih v

theorem madeBy_filter (path : Path) (calls : List Call) :
    madeBy path (calls.filter Call.isSet) = madeBy path calls := by
  induction calls with
  | nil => rfl
  | cons call calls ih =>
    cases call with
    | regSetValueEx cValueName dwType lpData cbData => exact congrArg (List.cons _) ih
    | tooBig => exact ih

theorem applied_calls (t : Texts) (v : RegValue) : applied v (v.calls t) = v.replaced t := by
  unfold RegValue.calls RegValue.replaced
  split <;> rfl

theorem madeBy_calls (t : Texts) (path : Path) (v : RegValue) : madeBy path (v.calls t) = v.sets t path := by
  unfold RegValue.calls RegValue.sets
  split
  · next toReplace =>
    rw [RegValue.replaced, if_pos toReplace]
    rfl
  · rfl

theorem Rewrite.plain (rewrite : Rewrite c True path v v' sets) (plain : v.Plain) :
    v' = v.replaced c.t ∧ sets = v.sets c.t path := by
  cases rewrite with
  | kept trouble => exact absurd trivial trouble
  | made run =>
    obtain ⟨outcome, run', -, calls⟩ := doValue_plain plain c.t c.wide (shownPath path) _
    obtain rfl := Option.some.inj (run'.symm.trans run)
    rw [← applied_filter, ← madeBy_filter, calls, applied_calls, madeBy_calls]
    exact ⟨rfl, rfl⟩

theorem Rewrites.plain (rewrites : Rewrites c True path vs vs' sets) (plain : ∀ v ∈ vs, v.Plain) :
    vs' = vs.map (RegValue.replaced c.t) ∧ sets = vs.flatMap (RegValue.sets c.t path) := by
  induction rewrites with
  | nil => exact ⟨rfl, rfl⟩
  | cons first rest ih =>
    obtain ⟨value, set⟩ := first.plain (plain _ List.mem_cons_self)
    obtain ⟨values, sets⟩ := ih fun v mem => plain v (List.mem_cons_of_mem _ mem)
    rw [value, set, values, sets, List.map_cons, List.flatMap_cons]
    exact ⟨rfl, rfl⟩

theorem Rewrite.same {well : Prop} (rewrite : Rewrite c well path v v' sets) :
    v'.name = v.name ∧ v'.dwType = v.dwType := by
  cases rewrite with
  | kept trouble => exact ⟨rfl, rfl⟩
  | made run =>
    rcases doValue_own run with none_ | tooBig | ⟨lpData, cbData, set⟩
    · rw [none_]
      exact ⟨rfl, rfl⟩
    · rw [tooBig]
      exact ⟨rfl, rfl⟩
    · rw [set]
      exact ⟨rfl, rfl⟩

theorem Rewrites.same {well : Prop} (rewrites : Rewrites c well path vs vs' sets) :
    vs'.map (fun v => (v.name, v.dwType)) = vs.map fun v => (v.name, v.dwType) := by
  induction rewrites with
  | nil => rfl
  | cons first rest ih => rw [List.map_cons, List.map_cons, ih, first.same.1, first.same.2]

end plain

/-! ### A run that comes to its end -/

def Plains (keys : List Path) (s : Session) : Prop := ∀ path ∈ keys, ∀ v ∈ s.values path, v.Plain

section completes

variable {c : Config} {levels : Nat} {path : Path} {s s' : Session} {v : RegValue}
  {front vs : List RegValue} {keys keys' : List Path} {gone : List (Path × List (Path × RegValue))}
  {before names : List (List CHAR)}

theorem replace_plain (plain : v.Plain) {fits : v.data.length ≤ valueDataSize} (s : Session) :
    ∃ s', s.replace c path ⟨v.name, v.dwType, v.data, fits⟩ = some s' := by
  obtain ⟨outcome, run, finished, -⟩ := @doValue_plain v plain fits c.t c.wide s.keyText s.buffers
  unfold Session.replace
  rw [run]
  exact ⟨_, if_pos finished⟩

theorem valuesLoop_completes (calm : c.Calm) (fuel : Nat) (stands : s.values path = front ++ vs)
    (nodup : ((front ++ vs).map RegValue.name).Nodup) (key : s.keyText = shownPath path)
    (fits : ∀ v ∈ vs, v.Fits) (plain : ∀ v ∈ vs, v.Plain) (runs : s.bCancel = false)
    (enough : vs.length < fuel) : ∃ s', valuesLoop c path fuel front.length s = some (s', false) := by
  induction fuel generalizing s front vs with
  | zero => exact absurd enough (Nat.not_lt_zero _)
  | succ fuel ih =>
    rw [valuesLoop]
    have runs₁ : (s.tick.doEvents c).bCancel = false := (doEvents_calm calm s).trans runs
    rcases regEnumValue_cases c stands with ⟨-, answer⟩ | ⟨answer, reason⟩ |
      ⟨v, behind, rfl, fits_, answer⟩
    · rw [answer]
      exact ⟨_, rfl⟩
    · rcases reason with fails | ⟨v, mem, long⟩
      · rw [(calm s.clock).1] at fails
        cases fails
      · exact absurd (fits v mem) long
    · obtain ⟨s₂, replaced⟩ := @replace_plain c path v (plain v List.mem_cons_self) fits_
        (s.tick.doEvents c)
      have stands₁ : (s.tick.doEvents c).values path = front ++ v :: behind := stands
      have key₁ : (s.tick.doEvents c).keyText = shownPath path := (beside_doEvents c s).keyText.trans key
      obtain ⟨v', sets, handled⟩ := replace_handled (fun _ : True => calm) stands₁ nodup key₁ replaced
      rw [answer]
      dsimp only
      rw [if_neg (by rw [runs₁]; exact Bool.false_ne_true), replaced]
      dsimp only
      rw [show front.length + 1 = (front ++ [v']).length by simp]
      exact ih handled.stands (handled.nodup nodup) (handled.beside.keyText.trans key₁)
        (fun v mem => fits v (List.mem_cons_of_mem _ mem))
        (fun v mem => plain v (List.mem_cons_of_mem _ mem)) (handled.calm trivial runs₁)
        (Nat.lt_of_succ_lt_succ enough)

theorem Plains.mono (plains : Plains keys s) (fewer : keys' ⊆ keys) : Plains keys' s :=
  fun path mem => plains path (fewer mem)

theorem Through.plains {well : Prop} (through : Through c well keys s s' gone)
    (apart : ∀ p ∈ keys', p ∉ keys) (plains : Plains keys' s) : Plains keys' s' := by
  intro p mem
  rw [through.others p (through.notMem (apart p mem))]
  exact plains p mem

def Completes (c : Config) (levels : Nat) : Prop :=
  ∀ (path : Path) (s : Session), Fits c.keys.subkeys levels path →
    KeyAt s.cKeyPath (shownPath path) → Ready True (c.keys.below levels path) s →
    Plains (c.keys.below levels path) s → s.bCancel = false →
    ∃ s', doSubKey c levels path (shownPath path).length s = some s'

theorem subKeysLoop_key {descend : Path → Nat → Session → Option Session} {place fuel dwIndex : Nat}
    {name : List CHAR} {s₃ : Session} (calm : c.Calm) (answer : s.regEnumKey c path dwIndex = .key name)
    (runs : s.bCancel = false)
    (inside : descend (path ++ [name]) (place + strlen (appendKey s.cKeyPath place name) place)
      (s.entered c place name) = some s₃) (runs₃ : s₃.bCancel = false) :
    subKeysLoop c descend path place (fuel + 1) dwIndex s =
      subKeysLoop c descend path place fuel (dwIndex + 1)
        { s₃ with cKeyPath := s₃.cKeyPath.write place [0] } := by
  have runs₁ : (s.tick.doEvents c).bCancel = false := (doEvents_calm calm s).trans runs
  rw [subKeysLoop, answer]
  dsimp only
  rw [if_neg (by rw [runs₁]; exact Bool.false_ne_true), if_neg (by
    rw [(calm _).1]
    exact Bool.false_ne_true)]
  split
  · next missing => exact absurd (inside.symm.trans missing) (Option.some_ne_none s₃)
  · next s₄ again =>
    obtain rfl := Option.some.inj (inside.symm.trans again)
    rw [if_neg (by rw [runs₃]; exact Bool.false_ne_true)]

theorem subKeysLoop_completes (calm : c.Calm) (named : c.keys.Named) (completes : Completes c levels)
    (fuel : Nat) (stands : c.keys.subkeys path = before ++ names)
    (fits : ∀ name ∈ names, Fits c.keys.subkeys levels (path ++ [name]))
    (keyAt : KeyAt s.cKeyPath (shownPath path)) (ready : Ready True (c.keys.left levels path names) s)
    (plains : Plains (c.keys.left levels path names) s) (runs : s.bCancel = false)
    (enough : names.length < fuel) :
    ∃ s', subKeysLoop c (doSubKey c levels) path (shownPath path).length fuel before.length s = some s' := by
  induction fuel generalizing s before names with
  | zero => exact absurd enough (Nat.not_lt_zero _)
  | succ fuel ih =>
    have runs₁ : (s.tick.doEvents c).bCancel = false := (doEvents_calm calm s).trans runs
    rcases regEnumKey_cases c s stands with ⟨-, answer⟩ | ⟨answer, reason⟩ | ⟨name, behind, rfl, answer⟩
    · rw [subKeysLoop, answer]
      exact ⟨_, rfl⟩
    · rcases reason with fails | ⟨name, mem, long⟩
      · rw [(calm s.clock).1] at fails
        cases fails
      · exact absurd (named path name (stands ▸ List.mem_append_right _ mem)) long
    · have isName : name ∈ c.keys.subkeys path := stands ▸ List.mem_append_right _ List.mem_cons_self
      have clean := c.keys.clean path name isName
      have fits₁ := fits name List.mem_cons_self
      have first : c.keys.below levels (path ++ [name]) ⊆ c.keys.left levels path (name :: behind) :=
        below_subset_left c.keys
      have rest : c.keys.left levels path behind ⊆ c.keys.left levels path (name :: behind) :=
        left_subset_left c.keys
      have apart : ∀ p ∈ c.keys.left levels path behind, p ∉ c.keys.below levels (path ++ [name]) :=
        fun p mem again => notMem_left stands again mem
      have at_ : KeyAt (s.entered c (shownPath path).length name).cKeyPath (shownPath (path ++ [name])) :=
        keyAt.entered clean
      have ready₁ := (ready.mono first).entered c (shownPath path).length name
      obtain ⟨s₃, inside⟩ := completes (path ++ [name]) (s.entered c (shownPath path).length name) fits₁
        at_ ready₁ (plains.mono first) runs₁
      have descends : Descends c True levels := doSubKey_descends (fun _ => calm) (fun _ => named) levels
      obtain ⟨⟨gone, through⟩, -, keyAt₃⟩ := descends (path ++ [name])
        (s.entered c (shownPath path).length name) s₃ fits₁ at_ ready₁ (fun _ => runs₁) inside
      rw [shownPath_snoc] at keyAt₃
      have through₃ := through.back
      have stands₁ : c.keys.subkeys path = (before ++ [name]) ++ behind := by
        rw [stands, List.append_assoc]
        rfl
      rw [← keyAt.entered_place clean] at inside
      rw [subKeysLoop_key calm answer runs inside (through.calm trivial),
        show before.length + 1 = (before ++ [name]).length by simp]
      exact ih stands₁ (fun other mem => fits other (List.mem_cons_of_mem _ mem)) keyAt₃.back
        (through₃.ready apart (ready.mono rest)) (through₃.plains apart (plains.mono rest))
        (through.calm trivial) (Nat.lt_of_succ_lt_succ enough)

/-- The induction on the levels of keys that are left. -/
theorem doSubKey_completes (calm : c.Calm) (named : c.keys.Named) (levels : Nat) : Completes c levels := by
  induction levels with
  | zero =>
    intro path s fits
    exact absurd fits id
  | succ levels ih =>
    intro path s fits keyAt ready plains runs
    have text : s.keyText = shownPath path := keyAt.textAt
    have isKey : path ∈ c.keys.below (levels + 1) path := mem_walk fits
    have later : c.keys.left levels path (c.keys.subkeys path) ⊆ c.keys.below (levels + 1) path :=
      List.subset_cons_self _ _
    have apart : ∀ p ∈ c.keys.left levels path (c.keys.subkeys path), p ∉ [path] := by
      intro p again mem
      rw [List.mem_singleton.mp mem] at again
      exact path_notMem_left c.keys again
    obtain ⟨s₁, run⟩ := @valuesLoop_completes c path { s with shown := s.shown ++ [shownPath path] } []
      (s.values path) calm ((s.values path).length + 1) rfl (ready.names path isKey) text
      (ready.fits trivial path isKey) (plains path isKey) runs (Nat.lt_succ_self _)
    obtain ⟨⟨vs', sets, visited⟩, -⟩ := @valuesLoop_visited c True path
      { s with shown := s.shown ++ [shownPath path] } s₁ [] (s.values path) (fun _ => calm)
      (fun well => ready.fits well path isKey) _ _ rfl (ready.names path isKey) text (fun _ => runs) run
    have through := visited.through
    have keyAt₁ : KeyAt s₁.cKeyPath (shownPath path) := by
      rw [visited.beside.cKeyPath]
      exact keyAt
    rw [doSubKey, text]
    dsimp only
    rw [show valuesLoop c path _ 0 _ = some (s₁, false) from run]
    exact subKeysLoop_completes calm named ih _
      (show c.keys.subkeys path = [] ++ c.keys.subkeys path from rfl) fits keyAt₁
      (through.ready apart (ready.mono later)) (through.plains apart (plains.mono later))
      (visited.calm trivial) (Nat.lt_succ_self _)

end completes

/-! ### The run from the key the user has chosen -/

/-- All keys, in the order in which they are gone through. -/
def Keys.all (keys : Keys) : List Path := keys.below (keys.depth + 1) []

def NamesDiffer (values : List RegValue) : Prop := (values.map RegValue.name).Nodup

/-- All is well in a registry that fits the buffers and has plain values only, where no call fails. -/
structure Undisturbed (c : Config) (values : Path → List RegValue) : Prop where
  calm : c.Calm
  named : c.keys.Named
  fits : ∀ path ∈ c.keys.all, ∀ v ∈ values path, v.Fits
  plain : ∀ path ∈ c.keys.all, ∀ v ∈ values path, v.Plain

section registry

variable {c : Config} {values : Path → List RegValue} {buffers : Buffers} {cKeyPath : Cells CHAR}
  {s' : Session}

theorem Keys.fits (keys : Keys) : Fits keys.subkeys (keys.depth + 1) [] :=
  fits_of_bounded keys.bounded _ _ (Nat.lt_succ_self _) (Nat.succ_pos _)

theorem Keys.all_nodup (keys : Keys) : keys.all.Nodup := walk_nodup keys.distinct _ _

theorem replaceInRegistry_through {well : Prop} (isWell : well → Undisturbed c values)
    (names : ∀ path ∈ c.keys.all, NamesDiffer (values path)) (ends : EndsWithZeros cKeyPath)
    (run : replaceInRegistry c values buffers cKeyPath = some s') :
    (∃ gone, Through c well c.keys.all (start values buffers cKeyPath) s' gone) ∧
      Warned c.keys.all (start values buffers cKeyPath) s' ∧ KeyAt s'.cKeyPath [] := by
  have descends : Descends c well (c.keys.depth + 1) :=
    doSubKey_descends (fun well_ => (isWell well_).calm) (fun well_ => (isWell well_).named) _
  exact descends [] (start values buffers cKeyPath) s' c.keys.fits (keyAt_start ends)
    ⟨names, fun well_ => (isWell well_).fits⟩ (fun _ => rfl) run

theorem replaceInRegistry_returns (undisturbed : Undisturbed c values) (buffers : Buffers)
    (names : ∀ path ∈ c.keys.all, NamesDiffer (values path)) (ends : EndsWithZeros cKeyPath) :
    ∃ s', replaceInRegistry c values buffers cKeyPath = some s' :=
  doSubKey_completes undisturbed.calm undisturbed.named _ [] (start values buffers cKeyPath) c.keys.fits
    (keyAt_start ends) ⟨names, fun _ => undisturbed.fits⟩ undisturbed.plain rfl

end registry

/-! ### A key with one subkey, which has one string -/

def oneSubkey : Keys where
  subkeys path := if path = [] then [chars "K"] else []
  distinct path := by
    split
    · exact List.nodup_singleton _
    · exact List.nodup_nil
  clean path := by
    split
    · decide
    · intro name mem
      cases mem
  depth := 1
  bounded path deep := if_neg fun empty => by
    rw [empty] at deep
    cases deep

def oneString : Config where
  t := letters
  wide := none
  keys := oneSubkey
  fails _ := false
  answer _ := .yes
  cancels _ := false

def stringA : RegValue := ⟨chars "N", .string .REG_SZ, chars "A" ++ [0]⟩

def oneStringValues (path : Path) : List RegValue := if path = [chars "K"] then [stringA] else []

theorem oneStringValues_eq {path : Path} {v : RegValue} (mem : v ∈ oneStringValues path) : v = stringA := by
  unfold oneStringValues at mem
  split at mem
  · exact List.mem_singleton.mp mem
  · cases mem

theorem oneString_undisturbed : Undisturbed oneString oneStringValues where
  calm _ := ⟨rfl, rfl⟩
  named path name mem := by
    have short : ∀ name ∈ oneSubkey.subkeys path, name.length < valueNameSize := by
      unfold oneSubkey
      dsimp only
      split
      · decide
      · intro name mem
        cases mem
    exact short name mem
  fits path _ v mem := by
    rw [oneStringValues_eq mem]
    decide
  plain path _ v mem := by
    rw [oneStringValues_eq mem]
    exact .inr ⟨.REG_SZ, rfl, by decide⟩

theorem oneString_names (path : Path) : NamesDiffer (oneStringValues path) := by
  unfold oneStringValues
  split
  · exact List.nodup_singleton _
  · exact List.nodup_nil

theorem zeros_endsWithZeros : EndsWithZeros fun _ => 0 := fun _ _ _ => rfl

end Regrepl
