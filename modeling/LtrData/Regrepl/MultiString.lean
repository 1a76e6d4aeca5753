import LtrData.Regrepl.Values

namespace Regrepl

open Occurrences

/-- A list of strings as the data of a value, up to the NUL that ends the list. -/
def packed (strings : List (List CHAR)) : List CHAR := strings.flatMap (· ++ [0])

/-- A value of this type with a list of strings, each with its NUL, and a final NUL. -/
structure MultiValue where
  cValueName : List CHAR
  strings : List (List CHAR)
  nonempty : ∀ string ∈ strings, string ≠ []
  clean : ∀ string ∈ strings, ∀ c ∈ string, c ≠ 0
  fits : (packed strings ++ [0]).length ≤ valueDataSize

def MultiValue.value (value : MultiValue) : Value :=
  ⟨value.cValueName, .REG_MULTI_SZ, packed value.strings ++ [0], value.fits⟩

namespace MultiValue

def result (value : MultiValue) (t : Texts) : List CHAR :=
  packed (value.strings.map (replaceAll t.cFrom t.cTo))

/-- Some string has the search text, and the new list fits. -/
def ToWrite (value : MultiValue) (t : Texts) : Prop :=
  (∃ string ∈ value.strings, t.cFrom <:+: string) ∧ (value.result t).length + 1 ≤ newDataSize

instance (value : MultiValue) (t : Texts) : Decidable (value.ToWrite t) :=
  inferInstanceAs (Decidable (_ ∧ _))

/-- The calls that write the new list with some byte at its end, where there is one to write. -/
def calls (value : MultiValue) (t : Texts) (last : CHAR) : List Call :=
  if value.ToWrite t then
    [.regSetValueEx value.cValueName .REG_MULTI_SZ (value.result t ++ [last]) ((value.result t).length + 1)]
  else []

end MultiValue

/-- The byte at a place behind the last string, where only the last two bytes of the buffer are
    set. -/
def endByte (cNewData : Cells CHAR) (place : Nat) : CHAR :=
  if newDataSize - 2 ≤ place then 0 else cNewData place

@[simp] theorem packed_nil : packed [] = [] := rfl

theorem packed_cons (string : List CHAR) (strings : List (List CHAR)) :
    packed (string :: strings) = string ++ 0 :: packed strings := by
  simp [packed]

variable {t : Texts} {value : MultiValue} {before : Cells CHAR} {s : Scan} {text : List CHAR}
  {later : List (List CHAR)} {i fuel : Nat}

/-- Where the loop stands in the list: what is left of a string and the strings behind it, and what
    is there of the new list. Behind it the buffer is as it was before. -/
structure AtString (t : Texts) (value : MultiValue) (before : Cells CHAR) (s : Scan) (text : List CHAR)
    (later : List (List CHAR)) : Prop where
  cells : s.cValueData.read s.oldplace (text ++ 0 :: (packed later ++ [0])).length =
    text ++ 0 :: (packed later ++ [0])
  inside : s.oldplace + (text ++ 0 :: (packed later ++ [0])).length ≤ valueDataSize
  clean : ∀ c ∈ text, c ≠ 0
  behind : ∀ string ∈ later, string ∈ value.strings
  result : s.cNewData.read 0 s.newplace ++
    (replaceAll t.cFrom t.cTo text ++ 0 :: packed (later.map (replaceAll t.cFrom t.cTo))) = value.result t
  room : s.newplace < newDataSize
  unchanged : ∀ i, s.newplace < i → s.cNewData i = before i
  fresh : s.bDone = false → text ∈ value.strings ∧
    ∀ string ∈ value.strings, t.cFrom <:+: string → string ∈ text :: later
  occurs : s.bDone = true → ∃ string ∈ value.strings, t.cFrom <:+: string

namespace AtString

theorem holds (at_ : AtString t value before s text later) :
    s.cValueData.Holds valueDataSize s.oldplace text := by
  have cells := at_.cells
  have inside := at_.inside
  rw [List.length_append, List.length_cons] at inside
  refine ⟨?_, at_.clean, by omega⟩
  rw [← Cells.take_read _ _ (show text.length + 1 ≤ (text ++ 0 :: (packed later ++ [0])).length by
    rw [List.length_append, List.length_cons]; omega), cells,
    List.take_length_add_append]
  rfl

theorem length (at_ : AtString t value before s text later) :
    s.newplace + ((replaceAll t.cFrom t.cTo text).length + 1 +
      (packed (later.map (replaceAll t.cFrom t.cTo))).length) = (value.result t).length := by
  rw [← at_.result, List.length_append, Cells.length_read, List.length_append, List.length_cons]
  omega

theorem strstr (at_ : AtString t value before s text later) :
    Regrepl.strstr s.cValueData s.oldplace t.cFrom =
      (firstAt t.cFrom text).map (s.oldplace + ·) := by
  rw [Regrepl.strstr, at_.holds.textAt]

theorem occurs_of_found (at_ : AtString t value before s text later)
    (found : firstAt t.cFrom text = some i) : ∃ string ∈ value.strings, t.cFrom <:+: string := by
  cases done : s.bDone with
  | true => exact at_.occurs done
  | false =>
    refine ⟨text, (at_.fresh done).1, ?_⟩
    by_contra absent
    rw [← firstAt_eq_none, found] at absent
    cases absent

theorem replaced (at_ : AtString t value before s text later)
    (found : firstAt t.cFrom text = some i) (room : s.newplace + i + t.cTo.length < newDataSize) :
    AtString t value before (s.replaced t text i) (text.drop (i + t.cFrom.length)) later := by
  have inside := firstAt_inside t.nonempty found
  have positive : 0 < t.cFrom.length := List.length_pos_iff.mpr t.nonempty
  have length : (text.take i).length = i := List.length_take_of_le (by omega)
  have rest : (text.drop (i + t.cFrom.length) ++ 0 :: (packed later ++ [0])) =
      (text ++ 0 :: (packed later ++ [0])).drop (i + t.cFrom.length) :=
    (List.drop_append_of_le_length inside).symm
  have whole : i + t.cFrom.length ≤ (text ++ 0 :: (packed later ++ [0])).length := by
    rw [List.length_append]
    omega
  have start := at_.inside
  refine ⟨?_, ?_, fun c mem => at_.clean c (List.mem_of_mem_drop mem), at_.behind, ?_, room, ?_, ?_,
    fun _ => at_.occurs_of_found found⟩
  · simp only [Scan.replaced]
    rw [Cells.read_write_after _ _ (by rw [List.length_singleton]; omega), rest, List.length_drop,
      Nat.add_assoc, ← Cells.drop_read _ _ whole, at_.cells]
  · simp only [Scan.replaced]
    rw [rest, List.length_drop]
    omega
  · have copied := read_strcpy s.cNewData s.newplace (text.take i)
    rw [length] at copied
    simp only [Scan.replaced]
    rw [read_strcpy, copied, ← at_.result, replaceAll_some t.nonempty found]
    simp only [List.append_assoc]
  · intro j above
    simp only [Scan.replaced] at above ⊢
    rw [strcpy, strcpy, Cells.write_after _ _ (by rw [List.length_append, List.length_singleton]; omega),
      Cells.write_after _ _ (by rw [List.length_append, List.length_singleton, length]; omega)]
    exact at_.unchanged j (by omega)
  · intro done
    cases done

end AtString

/-- The state behind a string without another occurrence. -/
def Scan.passed (s : Scan) (text : List CHAR) : Scan :=
  { s with
    cNewData := strcpy s.cNewData s.newplace text
    oldplace := s.oldplace + text.length + 1
    newplace := s.newplace + text.length + 1 }

namespace AtString

theorem passed_unchanged (at_ : AtString t value before s text later) :
    ∀ i, (s.passed text).newplace ≤ i → (s.passed text).cNewData i = before i := by
  intro i above
  simp only [Scan.passed] at above ⊢
  rw [strcpy, Cells.write_after _ _ (by rw [List.length_append, List.length_singleton]; omega)]
  exact at_.unchanged i (by omega)

theorem passed_result (at_ : AtString t value before s text later)
    (absent : firstAt t.cFrom text = none) :
    (s.passed text).cNewData.read 0 (s.passed text).newplace ++
      packed (later.map (replaceAll t.cFrom t.cTo)) = value.result t := by
  simp only [Scan.passed]
  rw [read_strcpy_end, ← at_.result, replaceAll_none absent]
  simp only [List.append_assoc, List.singleton_append]

theorem passed_cells (at_ : AtString t value before s text later) :
    (s.passed text).cValueData.read (s.passed text).oldplace (packed later ++ [0]).length =
      packed later ++ [0] := by
  have split : text ++ 0 :: (packed later ++ [0]) = (text ++ [0]) ++ (packed later ++ [0]) := by simp
  have cells := at_.cells
  rw [split] at cells
  have rest := (Cells.read_append cells).2
  rw [List.length_append, List.length_singleton, ← Nat.add_assoc] at rest
  exact rest

theorem passed_place (at_ : AtString t value before s text []) (absent : firstAt t.cFrom text = none) :
    (s.passed text).newplace = (value.result t).length := by
  have length := at_.length
  rw [replaceAll_none absent, List.map_nil, packed_nil, List.length_nil] at length
  simp only [Scan.passed]
  omega

theorem end_zero (at_ : AtString t value before s text []) :
    s.cValueData (s.oldplace + text.length + 1) = 0 := (List.cons.inj at_.passed_cells).1

theorem next_not_zero {string : List CHAR} (at_ : AtString t value before s text (string :: later)) :
    s.cValueData (s.oldplace + text.length + 1) ≠ 0 := by
  have here := at_.behind string List.mem_cons_self
  have cells := at_.passed_cells
  cases form : string with
  | nil => exact (value.nonempty string here form).elim
  | cons c rest =>
    rw [form, packed_cons] at cells
    have same : s.cValueData (s.oldplace + text.length + 1) = c := (List.cons.inj cells).1
    rw [same]
    exact value.clean string here c (form ▸ List.mem_cons_self)

/-- At the end of a list in which nothing has been replaced, there is nothing to write. -/
theorem not_toWrite (at_ : AtString t value before s text []) (absent : firstAt t.cFrom text = none)
    (fresh : s.bDone = false) : ¬ value.ToWrite t := by
  intro toWrite
  obtain ⟨string, mem, occurs⟩ := toWrite.1
  have same := (at_.fresh fresh).2 string mem occurs
  rw [List.mem_singleton] at same
  rw [same] at occurs
  exact firstAt_eq_none.mp absent occurs

/-- Where there is no room for what stands before an occurrence and its replacement, or for the rest of
    a string, the list does not fit. -/
theorem not_toWrite_full (at_ : AtString t value before s text later) {k : Nat}
    (part : k ≤ (replaceAll t.cFrom t.cTo text).length) (full : k ≥ newDataSize - s.newplace - 1) :
    ¬ value.ToWrite t := by
  intro toWrite
  have fits := toWrite.2
  have total := at_.length
  have room := at_.room
  have size : newDataSize = 65536 := rfl
  omega

theorem passed {string : List CHAR} (at_ : AtString t value before s text (string :: later))
    (absent : firstAt t.cFrom text = none) (room : s.newplace + text.length + 1 < newDataSize) :
    AtString t value before (s.passed text) string later := by
  have cells := at_.passed_cells
  have result := at_.passed_result absent
  have inside := at_.inside
  rw [packed_cons, List.append_assoc, List.cons_append] at cells
  rw [List.map_cons, packed_cons] at result
  rw [List.length_append, List.length_cons, packed_cons, List.append_assoc, List.cons_append] at inside
  have here := at_.behind string List.mem_cons_self
  refine ⟨cells, ?_, value.clean string here, fun other mem => at_.behind other (List.mem_cons_of_mem _ mem),
    result, room, fun i above => at_.passed_unchanged i (Nat.le_of_lt above), ?_, at_.occurs⟩
  · simp only [Scan.passed]
    omega
  · intro done
    refine ⟨here, fun other mem occurs => ?_⟩
    rcases List.mem_cons.mp ((at_.fresh done).2 other mem occurs) with rfl | mem
    · exact (firstAt_eq_none.mp absent occurs).elim
    · exact mem

end AtString

theorem strcpy_end (m : Cells CHAR) (place : Nat) (text : List CHAR) :
    strcpy m place text (place + text.length) = 0 := by
  have above : ¬ place + text.length < place := by omega
  simp [strcpy, Cells.write, above]

/-- What is written is the new list, and behind it the byte the buffer had before, if it is not one of
    the last two. -/
theorem passed_written (at_ : AtString t value before s text []) (absent : firstAt t.cFrom text = none)
    (room : (value.result t).length + 1 ≤ newDataSize) :
    (((s.passed text).cNewData.write (newDataSize - 2) [0]).write (newDataSize - 1) [0]).read 0
      ((s.passed text).newplace + 1) =
        value.result t ++ [endByte before (value.result t).length] := by
  have place := at_.passed_place absent
  have front := at_.passed_result absent
  rw [List.map_nil, packed_nil, List.append_nil] at front
  have unchanged := at_.passed_unchanged _ (Nat.le_refl _)
  have end_ : (s.passed text).cNewData ((s.passed text).newplace - 1) = 0 :=
    strcpy_end s.cNewData s.newplace text
  have size : newDataSize = 65536 := rfl
  rw [Cells.read_add, Nat.zero_add]
  congr 1
  · conv_rhs => rw [← front]
    apply Cells.read_congr
    intro i _ below
    rw [Cells.write_one, Cells.write_one, if_neg (by omega)]
    split
    · next last =>
      rw [← end_, last]
      congr 1
      omega
    · rfl
  · rw [Cells.read, Cells.read, Cells.write_one, Cells.write_one, unchanged, place, endByte]
    congr 1
    by_cases last : newDataSize - 2 ≤ (value.result t).length
    · rw [if_pos last]
      split
      · rfl
      · rw [if_pos (by omega)]
    · rw [if_neg last, if_neg (by omega), if_neg (by omega)]

theorem passed_calls (at_ : AtString t value before s text []) (absent : firstAt t.cFrom text = none)
    (room : (value.result t).length + 1 ≤ newDataSize) (done : s.bDone = true) (cNewData : Cells CHAR)
    (same : cNewData = ((s.passed text).cNewData.write (newDataSize - 2) [0]).write (newDataSize - 1) [0]) :
    [Call.regSetValueEx value.value.cValueName value.value.dwType
        (cNewData.read 0 ((s.passed text).newplace + 1)) ((s.passed text).newplace + 1)] =
      value.calls t (endByte before (value.result t).length) := by
  have toWrite : value.ToWrite t := ⟨at_.occurs done, room⟩
  rw [same, passed_written at_ absent room, at_.passed_place absent, MultiValue.calls, if_pos toWrite]
  rfl

/-- The list is gone through to its end, and written with the byte behind it as it was. -/
theorem multiLoop_calls (cKeyPath : List CHAR) (fuel : Nat) {s : Scan} {text : List CHAR}
    {later : List (List CHAR)} (at_ : AtString t value before s text later)
    (enough : valueDataSize - s.oldplace < fuel) :
    ∃ outcome, multiLoop t cKeyPath value.value fuel s = some outcome ∧ outcome.ended = .finished ∧
      outcome.calls.filter Call.isSet = value.calls t (endByte before (value.result t).length) := by
  induction fuel generalizing s text later with
  | zero => omega
  | succ fuel ih =>
    have room := at_.room
    have inside := at_.inside
    rw [List.length_append, List.length_cons] at inside
    rw [multiLoop, at_.strstr]
    cases found : firstAt t.cFrom text with
    | none =>
      dsimp only [Option.map_none]
      rw [if_neg (not_not_intro at_.holds.terminated), strlen, at_.holds.textAt]
      split
      · next full =>
        have whole : text.length = (replaceAll t.cFrom t.cTo text).length := by rw [replaceAll_none found]
        have big := at_.not_toWrite_full (Nat.le_of_eq whole) full
        exact ⟨_, rfl, rfl, by simp [MultiValue.calls, big, Call.isSet, Scan.outcome]⟩
      · next fits =>
        cases later with
        | nil =>
          rw [if_pos at_.end_zero]
          split
          · next fresh =>
            have absent := at_.not_toWrite found fresh
            exact ⟨_, rfl, rfl, by simp [MultiValue.calls, absent, Scan.outcome]⟩
          · next done =>
            have place := at_.passed_place found
            have small : (value.result t).length + 1 ≤ newDataSize := by
              simp only [Scan.passed] at place
              omega
            exact ⟨_, rfl, rfl, passed_calls at_ found small (by simpa using done) _ rfl⟩
        | cons string later =>
          rw [if_neg at_.next_not_zero]
          exact ih (at_.passed found (by omega)) (by dsimp only; omega)
    | some i =>
      have within := firstAt_inside t.nonempty found
      have positive : 0 < t.cFrom.length := List.length_pos_iff.mpr t.nonempty
      have length : (text.take i).length = i := List.length_take_of_le (by omega)
      have cut := at_.holds.cut (show i ≤ text.length by omega)
      dsimp only [Option.map_some]
      rw [strlen, cut.textAt, length]
      split
      · next full =>
        have part : i + t.cTo.length ≤ (replaceAll t.cFrom t.cTo text).length := by
          rw [replaceAll_some t.nonempty found, List.length_append, List.length_append, length]
          omega
        have big := at_.not_toWrite_full part full
        exact ⟨_, rfl, rfl, by simp [MultiValue.calls, big, Call.isSet, Scan.outcome]⟩
      · next fits => exact ih (at_.replaced found (by omega)) (by dsimp only; omega)

theorem atString_start (string : List CHAR) (later : List (List CHAR)) (same : value.strings = string :: later)
    (m cNewData : Cells CHAR) :
    AtString t value cNewData (Buffers.scan ⟨m.write 0 value.value.data, cNewData⟩) string later := by
  have data : value.value.data = string ++ 0 :: (packed later ++ [0]) := by
    simp [MultiValue.value, same, packed_cons]
  have mem : string ∈ value.strings := same ▸ List.mem_cons_self
  refine ⟨?_, ?_, value.clean string mem, fun other behind => same ▸ List.mem_cons_of_mem _ behind, ?_,
    Nat.zero_lt_succ _, fun _ _ => rfl, fun _ => ⟨mem, fun other behind _ => same ▸ behind⟩, ?_⟩
  · rw [data]
    exact Cells.read_write_same m 0 _
  · have fits := value.value.fits
    rw [data] at fits
    exact Nat.le_trans (Nat.le_of_eq (Nat.zero_add _)) fits
  · simp [MultiValue.result, same, packed_cons, Buffers.scan]
  · intro done
    cases done

/-- A list with the search text in a string is longer than the search text. -/
theorem not_toWrite_short (short : ¬ value.value.data.length > t.cFrom.length) : ¬ value.ToWrite t := by
  intro toWrite
  obtain ⟨string, mem, occurs⟩ := toWrite.1
  have le := occurs.length_le
  have inside : string.length ≤ (packed value.strings).length := by
    obtain ⟨front, behind, split⟩ := List.append_of_mem mem
    rw [packed, split, List.flatMap_append, List.flatMap_cons]
    simp only [List.length_append]
    omega
  simp only [MultiValue.value, List.length_append, List.length_singleton] at short
  omega

theorem doValue_multi (wide : Option (WideTexts t)) (cKeyPath : List CHAR) (value : MultiValue)
    (b : Buffers) : ∃ outcome, doValue t wide cKeyPath value.value b = some outcome ∧
      outcome.ended = .finished ∧
      outcome.calls.filter Call.isSet = value.calls t (endByte b.cNewData (value.result t).length) := by
  by_cases longer : value.value.data.length > t.cFrom.length
  · rw [doValue, if_pos longer]
    cases same : value.strings with
    | nil =>
      simp [MultiValue.value, same, t.nonempty] at longer
    | cons string later =>
      exact multiLoop_calls cKeyPath (valueDataSize + 1)
        (atString_start string later same b.cValueData b.cNewData) (Nat.lt_succ_self _)
  · refine ⟨_, if_neg longer, rfl, ?_⟩
    rw [MultiValue.calls, if_neg (not_toWrite_short longer)]
    rfl

/-- A value that DoSubKey comes to, and what the conversion of the texts has left by then. -/
structure Visit (t : Texts) where
  cKeyPath : List CHAR
  value : Value
  wide : Option (WideTexts t)

structure Step (t : Texts) extends Visit t where
  before : Buffers
  outcome : Option Outcome

/-- The values of one run, one after the other in the same buffers. -/
def run (t : Texts) : List (Visit t) → Buffers → List (Step t)
  | [], _ => []
  | visit :: visits, b =>
    let outcome := doValue t visit.wide visit.cKeyPath visit.value b
    ⟨visit, b, outcome⟩ ::
      match outcome with
      | some ⟨after, _, .finished⟩ => run t visits after
      | _ => []

theorem outcome_of_mem {visits : List (Visit t)} {b : Buffers} {step : Step t} (mem : step ∈ run t visits b) :
    step.outcome = doValue t step.wide step.cKeyPath step.value step.before := by
  induction visits generalizing b with
  | nil => simp [run] at mem
  | cons visit visits ih =>
    rw [run] at mem
    rcases List.mem_cons.mp mem with rfl | behind
    · rfl
    · split at behind
      · exact ih behind
      · simp at behind

/-- The value is written as the list of its strings with the occurrences replaced and a final NUL, if
    some string has one and the list fits, and else is not written. -/
def MapsList (t : Texts) (value : MultiValue) (outcome : Option Outcome) : Prop :=
  ∃ done, outcome = some done ∧ done.ended = .finished ∧
    done.calls.filter Call.isSet = value.calls t 0

/-- In every run a list is written with its final NUL exactly if that is in the buffer beforehand, or
    belongs into its last two bytes. -/
theorem mapsList_iff (t : Texts) (visits : List (Visit t)) (b : Buffers) (step : Step t)
    (mem : step ∈ run t visits b) (value : MultiValue) (multi : step.value = value.value) :
    MapsList t value step.outcome ↔
      (value.ToWrite t → endByte step.before.cNewData (value.result t).length = 0) := by
  obtain ⟨outcome, done, ended, calls⟩ := doValue_multi step.wide step.cKeyPath value step.before
  rw [outcome_of_mem mem, multi, done]
  constructor
  · intro maps toWrite
    rcases maps with ⟨other, same, -, mapped⟩
    obtain rfl := Option.some.inj same
    rw [calls, MultiValue.calls, MultiValue.calls, if_pos toWrite, if_pos toWrite] at mapped
    simpa using mapped
  · intro zero
    refine ⟨outcome, rfl, ended, ?_⟩
    rw [calls, MultiValue.calls, MultiValue.calls]
    by_cases toWrite : value.ToWrite t
    · rw [zero toWrite]
    · rw [if_neg toWrite, if_neg toWrite]

section Example

def oneLetter : MultiValue where
  cValueName := []
  strings := [chars "A"]
  nonempty := by decide
  clean := by decide
  fits := by decide

def fourLetters : Value := ⟨[], .REG_BINARY, chars "AAAA", by decide⟩

def emptyBuffers : Buffers := ⟨fun _ => 0, fun _ => 0⟩

/-- As the first value of a run the list is written right. -/
theorem mapsList_first :
    MapsList letters oneLetter (doValue letters none [] oneLetter.value emptyBuffers) :=
  (mapsList_iff letters [⟨[], oneLetter.value, none⟩] emptyBuffers
    ⟨⟨[], oneLetter.value, none⟩, emptyBuffers, _⟩ List.mem_cons_self oneLetter rfl).mpr fun _ => rfl

def afterBinary : List (Visit letters) := [⟨[], fourLetters, none⟩, ⟨[], oneLetter.value, none⟩]

/-- Behind a longer value a byte of that value ends the list. -/
theorem stale_byte_ends_list :
    ¬ ∀ (t : Texts) (visits : List (Visit t)) (b : Buffers), ∀ step ∈ run t visits b,
      ∀ value : MultiValue, step.value = value.value → MapsList t value step.outcome := by
  intro all
  have calls : (run letters afterBinary emptyBuffers)[1]?.map (fun step => step.outcome.map Outcome.calls) =
      some (some [.regSetValueEx [] .REG_MULTI_SZ (chars "B" ++ [0] ++ chars "B") 3]) := by
    decide +kernel
  obtain ⟨step, second, calls⟩ := Option.map_eq_some_iff.mp calls
  have multi : step.value = oneLetter.value := by
    have values : (run letters afterBinary emptyBuffers)[1]?.map (fun step => step.value) =
        some oneLetter.value := by
      rfl
    rw [second] at values
    exact Option.some.inj values
  obtain ⟨done, same, -, mapped⟩ := all letters afterBinary emptyBuffers step
    (List.mem_of_getElem? second) oneLetter multi
  rw [same] at calls
  rw [Option.some.inj calls] at mapped
  revert mapped
  decide

end Example

end Regrepl
