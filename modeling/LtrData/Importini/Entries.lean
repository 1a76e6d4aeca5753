import LtrData.Library.CStrings
import LtrData.Library.Strtok
import Mathlib.Data.BitVec

namespace Importini

abbrev BYTE := BitVec 8

def MAXINIBUFFER : Nat := 32767

def equals : BYTE := 61

/-- A call of RegSetValueEx. The name and the data stand for the pointers to them. -/
structure SetValue where
  name : List BYTE
  data : List BYTE
  cbData : Nat
deriving DecidableEq

/-- `top` is behind the last byte of Keys that has been read. -/
structure State where
  Keys : Cells BYTE
  top : Nat
  calls : List SetValue

def State.reading (s : State) (place : Nat) : State := { s with top := max s.top (place + 1) }

/-- The text at a place, as strchr, strlen and strtok find it, unless it goes on beyond the array. -/
def State.text (s : State) (place : Nat) : Option (List BYTE) :=
  if 0 ∈ s.Keys.read place (MAXINIBUFFER - place) then some (s.Keys.textAt MAXINIBUFFER place)
  else none

/-- The while loop over key. It gives none where a pointer leaves the array or is NULL. strtok has
    no token where nothing but delimiters is left, and puts a NUL behind the token otherwise. -/
def keyLoop : Nat → Nat → State → Option State
  | 0, _, _ => none
  | fuel + 1, key, s =>
    if key ≥ MAXINIBUFFER then none
    else if s.Keys key = 0 then some (s.reading key)
    else do
      let text ← s.text key
      let token ← (Strtok.strtok (some text) [equals] []).1
      let key := key + (text.takeWhile (· = equals)).length
      let s := { s.reading (key + token.length) with Keys := s.Keys.write (key + token.length) [0] }
      let value := key + token.length + 1
      let data ← s.text value
      let s := s.reading (value + data.length)
      keyLoop fuel (value + data.length + 1)
        { s with calls := s.calls ++ [⟨token, data, data.length + 1⟩] }

/-- The loop over the entries of a section, with what GetPrivateProfileSection has put into Keys. -/
def processSection (Keys : Cells BYTE) : Option State := keyLoop MAXINIBUFFER 0 ⟨Keys, 0, []⟩

/-- The entries as they are packed in Keys. -/
def block : List (List BYTE) → List BYTE
  | [] => [0]
  | entry :: rest => entry ++ 0 :: block rest

def expected (entry : List BYTE) : SetValue where
  name := entry.takeWhile (· ≠ equals)
  data := (entry.dropWhile (· ≠ equals)).drop 1
  cbData := ((entry.dropWhile (· ≠ equals)).drop 1).length + 1

/-- One call for each entry, and nothing read behind the block. -/
def Right (Keys : Cells BYTE) (entries : List (List BYTE)) : Prop :=
  ∃ s, processSection Keys = some s ∧ s.calls = entries.map expected ∧
    s.top ≤ (block entries).length

/-- An entry that has a name and an equals sign behind it. -/
def Named (entry : List BYTE) : Prop := equals ∈ entry ∧ entry.head? ≠ some equals

instance (entry : List BYTE) : Decidable (Named entry) := inferInstanceAs (Decidable (_ ∧ _))

theorem keyLoop_grows {fuel key : Nat} {s s' : State} (run : keyLoop fuel key s = some s') :
    s.calls <+: s'.calls ∧ s.top ≤ s'.top ∧ key < s'.top := by
  induction fuel generalizing key s with
  | zero => cases run
  | succ fuel ih =>
    rw [keyLoop] at run
    by_cases outside : key ≥ MAXINIBUFFER
    · rw [if_pos outside] at run
      cases run
    · rw [if_neg outside] at run
      by_cases last : s.Keys key = 0
      · rw [if_pos last] at run
        cases run
        exact ⟨List.prefix_refl _, Nat.le_max_left _ _, Nat.lt_of_lt_of_le (Nat.lt_succ_self _)
          (Nat.le_max_right _ _)⟩
      · rw [if_neg last] at run
        obtain ⟨text, -, run⟩ := Option.bind_eq_some_iff.mp run
        obtain ⟨token, -, run⟩ := Option.bind_eq_some_iff.mp run
        obtain ⟨data, -, run⟩ := Option.bind_eq_some_iff.mp run
        have ⟨calls, top, behind⟩ := ih run
        dsimp only [State.reading] at calls top
        exact ⟨(List.prefix_append _ _).trans calls, by omega, by omega⟩

theorem text_of_holds {s : State} {place : Nat} {text : List BYTE}
    (holds : Cells.Holds s.Keys MAXINIBUFFER place text) : s.text place = some text := by
  rw [State.text, if_pos holds.terminated, holds.textAt]

section Entry

variable {s : State} {key fuel : Nat} {entry : List BYTE}

theorem holds_entry (cells : s.Keys.read key (entry.length + 1) = entry ++ [0]) (clean : 0 ∉ entry)
    (inside : key + entry.length < MAXINIBUFFER) :
    Cells.Holds s.Keys MAXINIBUFFER key entry :=
  ⟨cells, fun _ mem same => clean (same ▸ mem), inside⟩

theorem first_ne_zero (holds : Cells.Holds s.Keys MAXINIBUFFER key entry) (some_ : entry ≠ []) :
    s.Keys key ≠ 0 := by
  obtain ⟨c, tail, rfl⟩ := List.exists_cons_of_ne_nil some_
  have cells := holds.cells
  simp only [List.length_cons, Cells.read, List.cons_append, List.cons.injEq] at cells
  rw [cells.1]
  exact holds.clean c List.mem_cons_self

/-- A round from an entry, the token that strtok finds in it, and the place it puts a NUL at. -/
theorem keyLoop_round (fuel : Nat) (holds : Cells.Holds s.Keys MAXINIBUFFER key entry)
    (some_ : entry ≠ []) {token data rest : List BYTE} {place : Nat}
    (found : Strtok.next [equals] entry = (some token, rest))
    (behind : key + (entry.takeWhile (· = equals)).length + token.length = place)
    (value : Cells.Holds (s.Keys.write place [0]) MAXINIBUFFER (place + 1) data) :
    keyLoop (fuel + 1) key s = keyLoop fuel (place + 1 + data.length + 1)
      ⟨s.Keys.write place [0], max s.top (place + 1 + data.length + 1),
        s.calls ++ [⟨token, data, data.length + 1⟩]⟩ := by
  have inside := holds.inside
  have first := first_ne_zero holds some_
  have text : State.text { s.reading place with Keys := s.Keys.write place [0] } (place + 1) =
      some data := text_of_holds value
  have top : max (max s.top (place + 1)) (place + 1 + data.length + 1) =
      max s.top (place + 1 + data.length + 1) := by omega
  rw [keyLoop, if_neg (by omega), if_neg first]
  simp only [text_of_holds holds, Option.bind_eq_bind, Option.bind_some, Strtok.strtok_some, found,
    behind, text]
  simp only [State.reading, top]

theorem keyLoop_first {s' : State} (run : keyLoop (fuel + 1) key s = some s')
    (holds : Cells.Holds s.Keys MAXINIBUFFER key entry) (some_ : entry ≠ []) :
    ∃ token data, (Strtok.next [equals] entry).1 = some token ∧
      s.calls ++ [⟨token, data, data.length + 1⟩] <+: s'.calls := by
  have inside := holds.inside
  have first := first_ne_zero holds some_
  rw [keyLoop, if_neg (by omega), if_neg first, text_of_holds holds] at run
  obtain ⟨text, same, run⟩ := Option.bind_eq_some_iff.mp run
  cases same
  obtain ⟨token, found, run⟩ := Option.bind_eq_some_iff.mp run
  obtain ⟨data, -, run⟩ := Option.bind_eq_some_iff.mp run
  exact ⟨token, data, found, (keyLoop_grows run).1⟩

end Entry

theorem named_iff {entry : List BYTE} : Named entry ↔
    ∃ name data, name ≠ [] ∧ equals ∉ name ∧ entry = name ++ equals :: data := by
  constructor
  · intro named
    obtain ⟨name, data, rfl, absent⟩ := List.eq_append_cons_of_mem named.1
    refine ⟨name, data, fun empty => named.2 ?_, absent, rfl⟩
    rw [empty]
    rfl
  · intro facts
    obtain ⟨name, data, some_, absent, rfl⟩ := facts
    obtain ⟨c, tail, rfl⟩ := List.exists_cons_of_ne_nil some_
    refine ⟨by simp, fun same => absent ?_⟩
    rw [← Option.some.inj same]
    exact List.mem_cons_self

theorem ne_of_absent {name : List BYTE} (absent : equals ∉ name) :
    ∀ c ∈ name, decide (c ≠ equals) = true :=
  fun _ mem => decide_eq_true fun same => absent (same ▸ mem)

theorem expected_named {name : List BYTE} (data : List BYTE) (absent : equals ∉ name) :
    expected (name ++ equals :: data) = ⟨name, data, data.length + 1⟩ := by
  have stop : ¬ decide (equals ≠ equals) = true := by decide
  simp only [expected, List.takeWhile_append_of_pos (ne_of_absent absent),
    List.dropWhile_append_of_pos (ne_of_absent absent),
    List.takeWhile_cons_of_neg (p := fun c => decide (c ≠ equals)) stop,
    List.dropWhile_cons_of_neg (p := fun c => decide (c ≠ equals)) stop, List.append_nil,
    List.drop_one, List.tail_cons]

theorem expected_unnamed {entry : List BYTE} (absent : equals ∉ entry) :
    expected entry = ⟨entry, [], 1⟩ := by
  simp only [expected, List.takeWhile_eq_self_iff.mpr (ne_of_absent absent),
    List.dropWhile_eq_nil_iff.mpr (ne_of_absent absent)]
  rfl

theorem takeWhile_equals_nil {entry : List BYTE} (other : entry.head? ≠ some equals) :
    entry.takeWhile (· = equals) = [] := by
  rcases entry with - | ⟨c, tail⟩
  · rfl
  · exact List.takeWhile_cons_of_neg fun same => other (congrArg some (of_decide_eq_true same))

theorem call_unique {calls tail : List SetValue} {c d : SetValue} {all : List SetValue}
    (made : calls ++ [c] <+: all) (same : all = calls ++ d :: tail) : c = d := by
  rw [same, List.prefix_append_right_inj, List.cons_prefix_cons] at made
  exact made.1

theorem length_block_cons (entry : List BYTE) (rest : List (List BYTE)) :
    (block (entry :: rest)).length = entry.length + 1 + (block rest).length := by
  rw [block, List.length_append, List.length_cons]
  omega

theorem block_split {m : Cells BYTE} {key : Nat} {entry : List BYTE} {rest : List (List BYTE)}
    (cells : m.read key (block (entry :: rest)).length = block (entry :: rest)) :
    m.read key (entry.length + 1) = entry ++ [0] ∧
      m.read (key + entry.length + 1) (block rest).length = block rest := by
  rw [length_block_cons, Cells.read_add, block, List.append_cons] at cells
  exact List.append_inj cells (by simp)

section Round

variable {s s' : State} {key fuel : Nat} {entry : List BYTE} {tail : List SetValue}

theorem keyLoop_named (fuel : Nat) {name data : List BYTE} (some_ : name ≠ []) (absent : equals ∉ name)
    (named : Named (name ++ equals :: data))
    (holds : Cells.Holds s.Keys MAXINIBUFFER key (name ++ equals :: data)) :
    keyLoop (fuel + 1) key s = keyLoop fuel (key + (name ++ equals :: data).length + 1)
      ⟨s.Keys.write (key + name.length) [0], max s.top (key + (name ++ equals :: data).length + 1),
        s.calls ++ [⟨name, data, data.length + 1⟩]⟩ := by
  have length : (name ++ equals :: data).length = name.length + 1 + data.length := by
    rw [List.length_append, List.length_cons]
    omega
  have found : Strtok.next [equals] (name ++ equals :: data) = (some name, data) := by
    apply Strtok.next_token some_ _ (List.mem_singleton_self _)
    intro c mem same
    rw [List.mem_singleton.mp same] at mem
    exact absent mem
  have skipped := takeWhile_equals_nil named.2
  have value : Cells.Holds (s.Keys.write (key + name.length) [0]) MAXINIBUFFER
      (key + name.length + 1) data := by
    have behind := @Cells.Holds.rest _ _ _ _ _ _ holds (name.length + 1) (key + name.length)
      (by omega) (by omega)
    rw [List.drop_length_add_append] at behind
    exact behind
  have place : key + name.length + 1 + data.length + 1 = key + (name ++ equals :: data).length + 1 := by
    omega
  rw [keyLoop_round fuel holds (by simp) found (by rw [skipped]; rfl) value, place]

/-- The name of an entry that begins with an equals sign loses it, or strtok finds none. -/
theorem keyLoop_leading (run : keyLoop (fuel + 1) key s = some s')
    (holds : Cells.Holds s.Keys MAXINIBUFFER key entry) (some_ : entry ≠ [])
    (leading : entry.head? = some equals) : s'.calls ≠ s.calls ++ expected entry :: tail := by
  intro calls
  obtain ⟨token, data, found, made⟩ := keyLoop_first run holds some_
  have same := call_unique made calls
  have empty : token = [] := by
    obtain ⟨c, rest, rfl⟩ := List.exists_cons_of_ne_nil some_
    cases leading
    exact congrArg SetValue.name same
  exact Strtok.next_ne_nil found empty

/-- The data of an entry without an equals sign is the text behind it. -/
theorem keyLoop_unnamed (fuel : Nat) (holds : Cells.Holds s.Keys MAXINIBUFFER key entry)
    (some_ : entry ≠ []) (absent : equals ∉ entry) {data : List BYTE}
    (next : Cells.Holds s.Keys MAXINIBUFFER (key + entry.length + 1) data) :
    keyLoop (fuel + 1) key s = keyLoop fuel (key + entry.length + 1 + data.length + 1)
      ⟨s.Keys.write (key + entry.length) [0], max s.top (key + entry.length + 1 + data.length + 1),
        s.calls ++ [⟨entry, data, data.length + 1⟩]⟩ := by
  have found : Strtok.next [equals] entry = (some entry, []) := by
    apply Strtok.next_last some_
    intro c mem same
    rw [List.mem_singleton.mp same] at mem
    exact absent mem
  have skipped : entry.takeWhile (· = equals) = [] :=
    takeWhile_equals_nil fun same => absent (List.mem_of_mem_head? same)
  have place : key + (entry.takeWhile (· = equals)).length + entry.length = key + entry.length := by
    rw [skipped]
    rfl
  have value : Cells.Holds (s.Keys.write (key + entry.length) [0]) MAXINIBUFFER
      (key + entry.length + 1) data := by
    have kept : (s.Keys.write (key + entry.length) [0]).read (key + entry.length + 1) (data.length + 1) =
        s.Keys.read (key + entry.length + 1) (data.length + 1) :=
      Cells.read_write_after _ _ (Nat.le_refl _)
    exact ⟨kept.trans next.cells, next.clean, next.inside⟩
  exact keyLoop_round fuel holds some_ found place value

end Round

theorem keyLoop_iff {entries : List (List BYTE)} {fuel key : Nat} {s : State}
    (enough : entries.length < fuel) (valid : ∀ entry ∈ entries, entry ≠ [] ∧ 0 ∉ entry)
    (cells : s.Keys.read key (block entries).length = block entries)
    (fits : key + (block entries).length ≤ MAXINIBUFFER) (top : s.top ≤ key) :
    (∃ s', keyLoop fuel key s = some s' ∧ s'.calls = s.calls ++ entries.map expected ∧
      s'.top ≤ key + (block entries).length) ↔ ∀ entry ∈ entries, Named entry := by
  induction entries generalizing fuel key s with
  | nil =>
    rcases fuel with - | fuel
    · exact absurd enough (Nat.not_lt_zero _)
    have length : (block []).length = 1 := rfl
    rw [length] at fits ⊢
    have last : s.Keys key = 0 := by simpa [block, Cells.read] using cells
    rw [keyLoop, if_neg (by omega), if_pos last]
    refine ⟨fun _ entry mem => absurd mem List.not_mem_nil, fun _ => ⟨_, rfl, ?_, ?_⟩⟩
    · exact (List.append_nil _).symm
    · dsimp only [State.reading]
      omega
  | cons entry rest ih =>
    rcases fuel with - | fuel
    · exact absurd enough (Nat.not_lt_zero _)
    obtain ⟨some_, clean⟩ := valid entry List.mem_cons_self
    obtain ⟨own, others⟩ := block_split cells
    rw [length_block_cons] at fits ⊢
    have holds := holds_entry own clean (by omega)
    by_cases named : Named entry
    · obtain ⟨name, data, some_name, absent, rfl⟩ := named_iff.mp named
      have length : (name ++ equals :: data).length = name.length + 1 + data.length := by
        rw [List.length_append, List.length_cons]
        omega
      have later := @ih fuel (key + (name ++ equals :: data).length + 1)
        ⟨s.Keys.write (key + name.length) [0], max s.top (key + (name ++ equals :: data).length + 1),
          s.calls ++ [⟨name, data, data.length + 1⟩]⟩ (Nat.lt_of_succ_lt_succ enough)
        (fun entry mem => valid entry (List.mem_cons_of_mem _ mem))
        (by rw [Cells.read_write_after _ _ (by simp only [List.length_singleton]; omega)]; exact others)
        (by omega) (Nat.max_le.mpr ⟨by omega, Nat.le_refl _⟩)
      rw [keyLoop_named fuel some_name absent named holds, List.forall_mem_cons, and_iff_right named,
        ← later, List.map_cons, expected_named data absent]
      simp only [List.append_assoc, List.singleton_append, Nat.add_assoc]
    · refine iff_of_false ?_ fun all => named (all entry List.mem_cons_self)
      intro right
      obtain ⟨s', run, calls, reach⟩ := right
      rw [List.map_cons] at calls
      by_cases absent : equals ∈ entry
      · have leading : entry.head? = some equals := by
          by_contra other
          exact named ⟨absent, other⟩
        exact keyLoop_leading run holds some_ leading calls
      · rcases rest with - | ⟨second, more⟩
        · -- the block ends here, and the text behind the entry is the final NUL
          have size : (block []).length = 1 := rfl
          have next : Cells.Holds s.Keys MAXINIBUFFER (key + entry.length + 1) [] :=
            ⟨others, fun c mem => absurd mem List.not_mem_nil, by rw [List.length_nil]; omega⟩
          rw [keyLoop_unnamed fuel holds some_ absent next] at run
          have beyond := (keyLoop_grows run).2.2
          rw [List.length_nil] at beyond
          omega
        · obtain ⟨some_second, clean_second⟩ :=
            valid second (List.mem_cons_of_mem _ List.mem_cons_self)
          have size := length_block_cons second more
          have next := holds_entry (block_split others).1 clean_second (by omega)
          rw [keyLoop_unnamed fuel holds some_ absent next] at run
          rw [expected_unnamed absent] at calls
          have same := call_unique (keyLoop_grows run).1 calls
          exact some_second (congrArg SetValue.data same)

theorem length_entries_le (entries : List (List BYTE)) : entries.length < (block entries).length := by
  induction entries with
  | nil => exact Nat.zero_lt_one
  | cons entry rest ih =>
    rw [length_block_cons, List.length_cons]
    omega

/-- Every entry is written once exactly when every entry has a name and an equals sign. -/
theorem processSection_right_iff {entries : List (List BYTE)} {Keys : Cells BYTE}
    (valid : ∀ entry ∈ entries, entry ≠ [] ∧ 0 ∉ entry)
    (cells : Keys.read 0 (block entries).length = block entries)
    (fits : (block entries).length ≤ MAXINIBUFFER) :
    Right Keys entries ↔ ∀ entry ∈ entries, Named entry := by
  have short := length_entries_le entries
  have iff := @keyLoop_iff entries MAXINIBUFFER 0 ⟨Keys, 0, []⟩ (by omega) valid cells (by omega)
    (Nat.le_refl 0)
  rw [← iff, Right, processSection]
  simp only [List.nil_append, Nat.zero_add]

def packed (entries : List (List BYTE)) : Cells BYTE := fun i => (block entries).getD i 0

theorem processSection_right_named : Right (packed [[97, 61, 98], [99, 61]]) [[97, 61, 98], [99, 61]] :=
  (processSection_right_iff (by decide) (by decide) (by decide)).mpr (by decide)

/-- Of the entries a and b=c only one is written, a with the data b=c. -/
theorem processSection_swallows : ¬ Right (packed [[97], [98, 61, 99]]) [[97], [98, 61, 99]] := by
  intro right
  obtain ⟨s, run, calls, top⟩ := right
  have named := (@keyLoop_iff [[97], [98, 61, 99]] MAXINIBUFFER 0 ⟨packed [[97], [98, 61, 99]], 0, []⟩
    (by decide) (by decide) (by decide) (by decide) (Nat.le_refl 0)).mp
    ⟨s, run, calls, by rw [Nat.zero_add]; exact top⟩
  exact absurd (named [97] List.mem_cons_self) (by decide)

end Importini
