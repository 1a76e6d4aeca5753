import LtrData.Regrepl.BinaryLoop

namespace Regrepl

open Occurrences WideText

/-- What a loop makes of a text: its copy with every occurrence it comes to replaced. -/
structure Search.Replaces (search : Search) (replace : List CHAR → List CHAR) : Prop where
  absent : ∀ {rest}, search.first rest = none → replace rest = rest
  found : ∀ {rest i}, search.first rest = some i →
    replace rest = rest.take i ++ search.copied ++ replace (rest.drop (i + search.skipped))
  within : ∀ {rest i}, search.first rest = some i → i + search.skipped ≤ rest.length

theorem replaces_memstr (t : Texts) : (memstrSearch t).Replaces (replaceAll t.cFrom t.cTo) where
  absent none_ := replaceAll_none none_
  found some_ := replaceAll_some t.nonempty some_
  within some_ := firstAt_inside t.nonempty some_

/-- Texts that have one 16-bit unit for each byte, and fit in the buffers of the dialog. -/
structure SameLength (t : Texts) extends WideTexts t where
  same : wcFrom.length = t.cFrom.length
  cToFits : t.cTo.length < 260

/-- The replacements in the units of some data, with an odd byte kept. -/
def WideTexts.replace {t : Texts} (w : WideTexts t) (data : List CHAR) : List CHAR :=
  bytes (replaceAll w.wcFrom w.wcTo (units data)) ++ data.drop (2 * (data.length / 2))

variable {t : Texts}

theorem bytes_take_units (data : List CHAR) {j : Nat} (le : j ≤ data.length / 2) :
    bytes ((units data).take j) = data.take (2 * j) := by
  have whole := bytes_units data
  rw [← List.take_append_drop j (units data), bytes_append] at whole
  have length : (bytes ((units data).take j)).length = 2 * j := by
    rw [length_bytes, List.length_take, length_units]
    omega
  have front := congrArg (List.take (2 * j)) whole
  rw [List.take_left' length, List.take_take] at front
  rw [front]
  congr 1
  omega

theorem replaces_memwcs (w : SameLength t) : (memwcsSearch w.toWideTexts).Replaces w.replace where
  absent {rest} none_ := by
    have absent : firstAt w.wcFrom (units rest) = none := Option.map_eq_none_iff.mp none_
    rw [WideTexts.replace, replaceAll_none absent, bytes_units, List.take_append_drop]
  found {rest i} some_ := by
    obtain ⟨j, found, rfl⟩ := Option.map_eq_some_iff.mp some_
    have inside := firstAt_inside w.nonempty found
    have skipped : (memwcsSearch w.toWideTexts).skipped = w.wcFrom.length * 2 := by
      rw [w.same]
      rfl
    rw [length_units] at inside
    have place : 2 * j + w.wcFrom.length * 2 = 2 * (j + w.wcFrom.length) := by omega
    have odd : 2 * (j + w.wcFrom.length) + 2 * ((rest.length - 2 * (j + w.wcFrom.length)) / 2) =
        2 * (rest.length / 2) := by omega
    rw [WideTexts.replace, WideTexts.replace, replaceAll_some w.nonempty found, bytes_append, bytes_append,
      bytes_take_units rest (by omega), skipped, place, units_drop, List.drop_drop, List.length_drop, odd,
      ← List.append_assoc]
    rfl
  within {rest i} some_ := by
    obtain ⟨j, found, rfl⟩ := Option.map_eq_some_iff.mp some_
    have inside := firstAt_inside w.nonempty found
    have skipped : (memwcsSearch w.toWideTexts).skipped = w.wcFrom.length * 2 := by
      rw [w.same]
      rfl
    rw [length_units] at inside
    omega

/-- Where the loop stands in the data, with what is there of the result. -/
structure Copied (search : Search) (replace : List CHAR → List CHAR) (value : Value) (s : Scan) :
    Prop where
  data : s.cValueData.read 0 value.data.length = value.data
  within : s.oldplace ≤ value.data.length
  result : s.cNewData.read 0 s.newplace ++ replace (value.data.drop s.oldplace) = replace value.data
  room : s.newplace ≤ newDataSize
  fresh : s.bDone = false → s.oldplace = 0
  occurs : s.bDone = true → search.first value.data ≠ none

variable {search : Search} {replace : List CHAR → List CHAR} {value : Value} {s : Scan} {iLen fuel : Nat}

theorem ends_data (replaces : search.Replaces replace) {m : Cells CHAR}
    (data : m.read 0 value.data.length = value.data) {oldplace : Nat} (newplace : Nat)
    (within : oldplace ≤ value.data.length) :
    search.ends (searched value m) fuel oldplace newplace =
      search.ends value.data.drop fuel oldplace newplace := by
  induction fuel generalizing oldplace newplace with
  | zero => rfl
  | succ fuel ih =>
    rw [Search.ends, Search.ends, searched_data data within]
    cases found : search.first (value.data.drop oldplace) with
    | none => rfl
    | some i =>
      have inside := replaces.within found
      rw [List.length_drop] at inside
      dsimp only
      rw [ih _ (by omega)]

theorem Copied.length (copied : Copied search replace value s) :
    s.newplace + (replace (value.data.drop s.oldplace)).length = (replace value.data).length := by
  rw [← copied.result, List.length_append, Cells.length_read]

theorem Copied.occurs_of_found (copied : Copied search replace value s)
    (found : search.first (value.data.drop s.oldplace) = some iLen) :
    search.first value.data ≠ none := by
  cases done : s.bDone with
  | true => exact copied.occurs done
  | false =>
    rw [copied.fresh done, List.drop_zero] at found
    rw [found]
    exact Option.some_ne_none iLen

theorem Copied.front (copied : Copied search replace value s) {n : Nat}
    (le : s.oldplace + n ≤ value.data.length) :
    s.cValueData.read s.oldplace n = (value.data.drop s.oldplace).take n := by
  conv_rhs => rw [← copied.data]
  rw [Cells.drop_read _ 0 copied.within, Nat.zero_add, Cells.take_read _ _ (by omega)]

theorem Copied.copy (replaces : search.Replaces replace) (copied : Copied search replace value s)
    (found : search.first (value.data.drop s.oldplace) = some iLen)
    (room : (s.copy search iLen).newplace ≤ newDataSize) :
    Copied search replace value (s.copy search iLen) := by
  have within := replaces.within found
  have start := copied.within
  rw [List.length_drop] at within
  refine ⟨copied.data, ?_, ?_, room, ?_, fun _ => copied.occurs_of_found found⟩
  · simp only [Scan.copy]
    omega
  · have front := Cells.read_write_append s.cNewData (s.cValueData.read s.oldplace iLen) 0 s.newplace
    rw [Nat.zero_add, Cells.length_read, copied.front (by omega)] at front
    have both := Cells.read_write_append
      (s.cNewData.write s.newplace (s.cValueData.read s.oldplace iLen)) search.copied 0
      (s.newplace + iLen)
    rw [Nat.zero_add, copied.front (by omega), front] at both
    simp only [Scan.copy]
    rw [copied.front (by omega), both, ← copied.result, replaces.found found, List.drop_drop]
    simp only [List.append_assoc, Nat.add_assoc]
  · intro done
    cases done

/-- Where no occurrence is left, the rest completes the result. -/
theorem Copied.rest (replaces : search.Replaces replace) (copied : Copied search replace value s)
    (absent : search.first (value.data.drop s.oldplace) = none) :
    s.newplace + (value.data.length - s.oldplace) = (replace value.data).length ∧
      (s.cNewData.write s.newplace (s.cValueData.read s.oldplace (value.data.length - s.oldplace))).read 0
        (s.newplace + (value.data.length - s.oldplace)) = replace value.data := by
  have total := copied.length
  have start := copied.within
  have whole : (value.data.drop s.oldplace).take (value.data.length - s.oldplace) =
      replace (value.data.drop s.oldplace) := by
    rw [replaces.absent absent]
    exact List.take_of_length_le (Nat.le_of_eq List.length_drop)
  have front := Cells.read_write_append s.cNewData
    (s.cValueData.read s.oldplace (value.data.length - s.oldplace)) 0 s.newplace
  rw [replaces.absent absent, List.length_drop] at total
  rw [Nat.zero_add, Cells.length_read, copied.front (by omega), whole, copied.result] at front
  rw [copied.front (by omega), whole]
  exact ⟨total, front⟩

theorem Copied.part (replaces : search.Replaces replace) (copied : Copied search replace value s)
    (found : search.first (value.data.drop s.oldplace) = some iLen) :
    s.newplace + (iLen + search.copied.length) ≤ (replace value.data).length := by
  have total := copied.length
  have inside := replaces.within found
  have length : ((value.data.drop s.oldplace).take iLen).length = iLen :=
    List.length_take_of_le (by omega)
  rw [replaces.found found, List.length_append, List.length_append, length] at total
  omega

/-- The value that is written for a result, if it fits. -/
def written (value : Value) (data : List CHAR) : List Call :=
  if data.length ≤ newDataSize then
    [.regSetValueEx value.cValueName value.dwType data data.length]
  else []

theorem binaryLoop_replaces (replaces : search.Replaces replace) (cKeyPath : List CHAR) (fuel : Nat)
    {s : Scan} (copied : Copied search replace value s) (enough : valueDataSize + 1 - s.oldplace < fuel)
    (within : ∀ e ∈ search.ends value.data.drop fuel s.oldplace s.newplace, ¬ search.Crosses e) :
    ∃ outcome, binaryLoop search cKeyPath value fuel s = some outcome ∧ outcome.ended = .finished ∧
      outcome.calls.filter Call.isSet =
        if search.first value.data = none then [] else written value (replace value.data) := by
  induction fuel generalizing s with
  | zero => omega
  | succ fuel ih =>
    have room := copied.room
    have start := copied.within
    have fits := value.fits
    rw [binaryLoop, s.find_eq, searched_data copied.data start]
    rw [Search.ends] at within
    cases found : search.first (value.data.drop s.oldplace) with
    | none =>
      dsimp only
      rw [if_neg (Nat.not_lt.mpr start)]
      by_cases fresh : s.bDone = false
      · rw [copied.fresh fresh, List.drop_zero] at found
        rw [if_pos fresh, if_pos found]
        exact ⟨_, rfl, rfl, rfl⟩
      · rw [if_neg fresh, if_neg (copied.occurs (by simpa using fresh))]
        obtain ⟨total, whole⟩ := copied.rest replaces found
        split
        · next full =>
          have big : ¬ (replace value.data).length ≤ newDataSize := by omega
          exact ⟨_, rfl, rfl, by simp [written, big, Call.isSet, Scan.outcome]⟩
        · next left =>
          have small : (replace value.data).length ≤ newDataSize := by omega
          refine ⟨_, rfl, rfl, ?_⟩
          simp only [Scan.outcome]
          rw [whole, total, written, if_pos small]
          rfl
    | some i =>
      rw [found] at within
      dsimp only at within ⊢
      have occurs := copied.occurs_of_found found
      have inside := replaces.within found
      have passes := search.passes
      have counts := search.counts
      rw [List.length_drop] at inside
      rw [if_neg occurs]
      split
      · next full =>
        have part := copied.part replaces found
        have big : ¬ (replace value.data).length ≤ newDataSize := by omega
        exact ⟨_, rfl, rfl, by simp [written, big, Call.isSet, Scan.outcome]⟩
      · next left =>
        have small : (s.copy search i).newplace ≤ newDataSize := by
          have first := within _ List.mem_cons_self
          simp only [Search.Crosses] at first
          simp only [Scan.copy]
          omega
        rw [if_neg (Nat.not_lt.mpr small)]
        obtain ⟨outcome, run, ended, calls⟩ := ih (copied.copy replaces found small)
          (by simp only [Scan.copy]; omega) fun e mem => within e (List.mem_cons_of_mem _ mem)
        rw [if_neg occurs] at calls
        exact ⟨outcome, run, ended, calls⟩

def binaryValue (cValueName : List CHAR) (data : {data : List CHAR // data.length ≤ valueDataSize}) :
    Value := ⟨cValueName, .REG_BINARY, data.1, data.2⟩

/-- What is to be written for some binary data. -/
def SameLength.result (w : SameLength t) (data : List CHAR) : Option (List CHAR) :=
  if t.cFrom <:+: data then some (replaceAll t.cFrom t.cTo data)
  else if w.wcFrom <:+: units data then some (w.replace data)
  else none

/-- DoSubKey writes a value once, with the occurrences replaced, if there are any and the result
    fits, and else does not write it. -/
def WritesResult (w : SameLength t) (cKeyPath : List CHAR) (value : Value) (b : Buffers) : Prop :=
  ∃ outcome, doValue t (some w.toWideTexts) cKeyPath value b = some outcome ∧
    outcome.ended = .finished ∧
    outcome.calls.filter Call.isSet =
      match w.result value.data with
      | none => []
      | some data => written value data

theorem copied_start {search : Search} {replace : List CHAR → List CHAR} (value : Value)
    (cValueData cNewData : Cells CHAR) :
    Copied search replace value (Buffers.scan ⟨cValueData.write 0 value.data, cNewData⟩) where
  data := Cells.read_write_same cValueData 0 value.data
  within := Nat.zero_le _
  result := rfl
  room := Nat.zero_le _
  fresh _ := rfl
  occurs done := by cases done

theorem absent_short (w : SameLength t) {data : List CHAR} (short : ¬ data.length > t.cFrom.length) :
    ¬ w.wcFrom <:+: units data := by
  intro occurs
  have positive : 0 < t.cFrom.length := List.length_pos_iff.mpr t.nonempty
  have le := occurs.length_le
  rw [length_units, w.same] at le
  omega

/-- Where the size filter skips a value, there is something to write exactly if the data is the
    search text. -/
theorem result_short (w : SameLength t) {data : List CHAR} (short : ¬ data.length > t.cFrom.length)
    (other : data ≠ t.cFrom) : w.result data = none := by
  have absent : ¬ t.cFrom <:+: data := by
    intro occurs
    exact other (occurs.eq_of_length (by have le := occurs.length_le; omega)).symm
  rw [SameLength.result, if_neg absent, if_neg (absent_short w short)]

theorem not_runsOver_short (w : SameLength t) {data : List CHAR}
    (short : ¬ data.length > t.cFrom.length) : ¬ w.RunsOver data.drop := by
  intro runsOver
  rcases runsOver with ⟨e, mem, -⟩
  have none_ : (memwcsSearch w.toWideTexts).first (data.drop 0) = none :=
    Option.map_eq_none_iff.mpr (firstAt_eq_none.mpr (absent_short w short))
  rw [Search.ends, none_] at mem
  simp at mem

theorem replaceAll_self (t : Texts) : replaceAll t.cFrom t.cTo t.cFrom = t.cTo := by
  have here : firstAt t.cFrom t.cFrom = some 0 := by
    cases found : firstAt t.cFrom t.cFrom with
    | none => exact (firstAt_eq_none.mp found (List.infix_refl _)).elim
    | some i =>
      have le := firstAt_inside t.nonempty found
      rw [show i = 0 by omega]
  rw [replaceAll_some t.nonempty here, List.take_zero, List.nil_append, Nat.zero_add, List.drop_length]
  exact List.append_nil _

section doValue

variable {w : SameLength t} {cKeyPath : List CHAR} {b : Buffers}

theorem doValue_ansi (binary : value.dwType = .REG_BINARY) (occurs : t.cFrom <:+: value.data)
    (longer : value.data.length > t.cFrom.length) (wide : Option (WideTexts t)) :
    doValue t wide cKeyPath value b =
      binaryLoop (memstrSearch t) cKeyPath value (valueDataSize + 2)
        (Buffers.scan ⟨b.cValueData.write 0 value.data, b.cNewData⟩) := by
  rw [doValue, if_pos longer, replaceInValue, binary]
  dsimp only
  unfold replaceInBinary
  rw [memstr_data]
  cases found : firstAt t.cFrom value.data with
  | none => exact (firstAt_eq_none.mp found occurs).elim
  | some i => rfl

theorem doValue_wide (binary : value.dwType = .REG_BINARY) (absent : ¬ t.cFrom <:+: value.data)
    (longer : value.data.length > t.cFrom.length) (wide : WideTexts t) :
    doValue t (some wide) cKeyPath value b =
      binaryLoop (memwcsSearch wide) cKeyPath value (valueDataSize + 2)
        (Buffers.scan ⟨b.cValueData.write 0 value.data, b.cNewData⟩) := by
  rw [doValue, if_pos longer, replaceInValue, binary]
  dsimp only
  rw [replaceInBinary, memstr_data, firstAt_eq_none.mpr absent]

theorem writes_skipped (short : ¬ value.data.length > t.cFrom.length) (other : value.data ≠ t.cFrom) :
    WritesResult w cKeyPath value b := by
  refine ⟨⟨⟨b.cValueData.write 0 value.data, b.cNewData⟩, [], .finished⟩, if_neg short, rfl, ?_⟩
  rw [result_short w short other]
  rfl

theorem writes_ansi (binary : value.dwType = .REG_BINARY) (occurs : t.cFrom <:+: value.data)
    (longer : value.data.length > t.cFrom.length) : WritesResult w cKeyPath value b := by
  obtain ⟨outcome, run, ended, calls⟩ := binaryLoop_replaces (replaces_memstr t) cKeyPath
    (valueDataSize + 2) (copied_start value b.cValueData b.cNewData) (Nat.lt_succ_self _)
    fun e _ => not_crosses_memstr t e
  have found : (memstrSearch t).first value.data ≠ none := fun none_ => firstAt_eq_none.mp none_ occurs
  refine ⟨outcome, (doValue_ansi binary occurs longer _).trans run, ended, ?_⟩
  rw [calls, if_neg found, SameLength.result, if_pos occurs]

theorem writes_wide (binary : value.dwType = .REG_BINARY) (absent : ¬ t.cFrom <:+: value.data)
    (longer : value.data.length > t.cFrom.length) (within : ¬ w.RunsOver value.data.drop) :
    WritesResult w cKeyPath value b := by
  rw [WideTexts.runsOver_iff] at within
  obtain ⟨outcome, run, ended, calls⟩ := binaryLoop_replaces (replaces_memwcs w) cKeyPath
    (valueDataSize + 2) (copied_start value b.cValueData b.cNewData) (Nat.lt_succ_self _)
    fun e mem crosses => within ⟨e, mem, crosses⟩
  have missing : (memwcsSearch w.toWideTexts).first value.data = none ↔ ¬ w.wcFrom <:+: units value.data :=
    Option.map_eq_none_iff.trans firstAt_eq_none
  refine ⟨outcome, (doValue_wide binary absent longer _).trans run, ended, ?_⟩
  rw [calls, SameLength.result, if_neg absent]
  by_cases occurs : w.wcFrom <:+: units value.data
  · rw [if_pos occurs, if_neg fun none_ => missing.mp none_ occurs]
  · rw [if_neg occurs, if_pos (missing.mpr occurs)]

/-- A value that is the search text is to become the replacement, but is not looked at. -/
theorem not_writes_same (same : value.data = t.cFrom) : ¬ WritesResult w cKeyPath value b := by
  intro writes
  rcases writes with ⟨outcome, run, -, calls⟩
  have short : ¬ value.data.length > t.cFrom.length := by
    rw [same]
    exact Nat.lt_irrefl _
  rw [doValue, if_neg short] at run
  obtain rfl := Option.some.inj run
  have fits : t.cTo.length ≤ newDataSize := by
    have limit := w.cToFits
    simp only [newDataSize]
    omega
  rw [same, SameLength.result, if_pos (List.infix_refl _), replaceAll_self] at calls
  simp [written, fits] at calls

theorem not_writes_over (binary : value.dwType = .REG_BINARY) (absent : ¬ t.cFrom <:+: value.data)
    (longer : value.data.length > t.cFrom.length) (beyond : w.RunsOver value.data.drop) :
    ¬ WritesResult w cKeyPath value b := by
  intro writes
  rcases writes with ⟨outcome, run, ended, -⟩
  rw [WideTexts.runsOver_iff, ← ends_data (replaces_memwcs w)
    (Cells.read_write_same b.cValueData 0 value.data) 0 (Nat.zero_le _)] at beyond
  obtain ⟨behind, runs⟩ := binaryLoop_crosses cKeyPath (valueDataSize + 2)
    (s := Buffers.scan ⟨b.cValueData.write 0 value.data, b.cNewData⟩) (Nat.zero_le _) beyond
  obtain ⟨outcome', run', ended', -⟩ := runs b.cNewData
  rw [doValue_wide binary absent longer] at run
  obtain rfl := Option.some.inj (run.symm.trans run')
  rw [ended] at ended'
  cases ended'

end doValue

/-- A binary value is written as its data with the occurrences replaced, exactly if the data is not
    the search text itself and no wide replacement runs over the end of `cNewData`. -/
theorem writesResult_iff (w : SameLength t) (cKeyPath cValueName : List CHAR)
    (data : {data : List CHAR // data.length ≤ valueDataSize}) (b : Buffers) :
    WritesResult w cKeyPath (binaryValue cValueName data) b ↔
      data.1 ≠ t.cFrom ∧ (¬ t.cFrom <:+: data.1 → ¬ w.RunsOver data.1.drop) := by
  have binary : (binaryValue cValueName data).dwType = .REG_BINARY := rfl
  by_cases same : data.1 = t.cFrom
  · exact iff_of_false (not_writes_same same) fun holds => holds.1 same
  by_cases longer : data.1.length > t.cFrom.length
  · by_cases occurs : t.cFrom <:+: data.1
    · exact iff_of_true (writes_ansi binary occurs longer) ⟨same, fun absent => (absent occurs).elim⟩
    · by_cases beyond : w.RunsOver data.1.drop
      · exact iff_of_false (not_writes_over binary occurs longer beyond) fun holds => holds.2 occurs beyond
      · exact iff_of_true (writes_wide binary occurs longer beyond) ⟨same, fun _ => beyond⟩
  · exact iff_of_true (writes_skipped longer same) ⟨same, fun _ => not_runsOver_short w longer⟩

section Example

def lettersWide : SameLength letters where
  wcFrom := [0x41]
  wcTo := [0x42]
  nonempty := by decide
  copied := rfl
  same := rfl
  cToFits := by decide

/-- The value with the single byte "A" is skipped, as it is not longer than the search text. -/
theorem single_letter_kept :
    ¬ ∀ (t : Texts) (w : SameLength t) (cKeyPath cValueName : List CHAR)
      (data : {data : List CHAR // data.length ≤ valueDataSize}) (b : Buffers),
      WritesResult w cKeyPath (binaryValue cValueName data) b := by
  intro all
  obtain ⟨outcome, run, -, calls⟩ :=
    all letters lettersWide [] [] ⟨chars "A", by decide⟩ ⟨fun _ => 0, fun _ => 0⟩
  obtain rfl := Option.some.inj run
  revert calls
  decide

end Example

end Regrepl
