import LtrData.Library.CStrings
import LtrData.Library.Occurrences
import Mathlib.Data.BitVec
import Mathlib.Data.List.Infix

namespace Regrepl

open Occurrences

abbrev CHAR := BitVec 8

def chars (s : String) : List CHAR := s.toList.map fun c => BitVec.ofNat 8 c.toNat

def valueDataSize : Nat := 65535

def newDataSize : Nat := 65536

inductive StringType
  | REG_SZ
  | REG_EXPAND_SZ
deriving DecidableEq

/-- The search text and the replacement. The dialog takes no empty search text. -/
structure Texts where
  cFrom : List CHAR
  cTo : List CHAR
  nonempty : cFrom ≠ []
  cleanFrom : ∀ c ∈ cFrom, c ≠ 0
  cleanTo : ∀ c ∈ cTo, c ≠ 0

/-- A string value as RegEnumValue hands it out, with NUL-terminated data. -/
structure StringValue where
  cValueName : List CHAR
  dwType : StringType
  data : List CHAR
  terminated : 0 ∈ data
  fits : data.length ≤ valueDataSize

def StringValue.text (value : StringValue) : List CHAR := value.data.takeWhile (· ≠ 0)

/-- What ReplaceInString does to the outside. -/
inductive Event
  | regSetValueEx (cValueName : List CHAR) (dwType : StringType) (lpData : List CHAR) (cbData : Nat)
  | tooBig
deriving DecidableEq

/-- The static buffers and the variables of the loop. -/
structure Scan where
  cValueData : Cells CHAR
  cNewData : Cells CHAR
  bDone : Bool
  oldplace : Nat
  newplace : Nat

def strlen (m : Cells CHAR) (place : Nat) : Nat := (m.textAt valueDataSize place).length

def strstr (m : Cells CHAR) (place : Nat) (cFrom : List CHAR) : Option Nat :=
  (firstAt cFrom (m.textAt valueDataSize place)).map (place + ·)

def strcpy (m : Cells CHAR) (place : Nat) (text : List CHAR) : Cells CHAR := m.write place (text ++ [0])

/-- The text of the message box is built in `cValueData`. -/
def tooBigMessage (cKeyPath cValueName : List CHAR) : List CHAR :=
  chars "Data too big after replacements: '" ++ cKeyPath ++ chars "\\" ++ cValueName ++ chars "'"

def Scan.tooBig (s : Scan) (cKeyPath cValueName : List CHAR) : Scan :=
  let text := (tooBigMessage cKeyPath cValueName ++ [0]).take valueDataSize
  { s with cValueData := (s.cValueData.write 0 text).write (valueDataSize - 1) [0] }

/-- The loop of ReplaceInString for the types with one string. -/
def replaceLoop (t : Texts) (cKeyPath : List CHAR) (value : StringValue) :
    Nat → Scan → Option (Scan × List Event)
  | 0, _ => none
  | fuel + 1, s =>
    match strstr s.cValueData s.oldplace t.cFrom with
    | none =>
      if s.bDone = false then some (s, [])
      else
        let iBufSizeLeft := newDataSize - s.newplace
        let iLen := strlen s.cValueData s.oldplace
        if iLen ≥ iBufSizeLeft then some (s.tooBig cKeyPath value.cValueName, [.tooBig])
        else
          let cNewData :=
            (strcpy s.cNewData s.newplace (s.cValueData.textAt valueDataSize s.oldplace)).write
              (newDataSize - 1) [0]
          let newplace := s.newplace + iLen
          some ({ s with cNewData := cNewData, newplace := newplace },
            [.regSetValueEx value.cValueName value.dwType (cNewData.read 0 (newplace + 1)) (newplace + 1)])
    | some nextplace =>
      let s := { s with bDone := true, cValueData := s.cValueData.write nextplace [0] }
      let iBufSizeLeft := newDataSize - s.newplace
      let iLen := strlen s.cValueData s.oldplace
      if iLen + t.cTo.length ≥ iBufSizeLeft then
        some (s.tooBig cKeyPath value.cValueName, [.tooBig])
      else
        let cNewData := strcpy s.cNewData s.newplace (s.cValueData.textAt valueDataSize s.oldplace)
        let newplace := s.newplace + iLen
        let cNewData := strcpy cNewData newplace t.cTo
        replaceLoop t cKeyPath value fuel
          { s with
            cNewData := cNewData
            newplace := newplace + t.cTo.length
            oldplace := s.oldplace + iLen + t.cFrom.length }

structure Buffers where
  cValueData : Cells CHAR
  cNewData : Cells CHAR

/-- ReplaceInString for the types with one string. Each round passes over one occurrence. -/
def replaceInString (t : Texts) (cKeyPath : List CHAR) (value : StringValue) (b : Buffers) :
    Option (Buffers × List Event) :=
  (replaceLoop t cKeyPath value (valueDataSize + 1) ⟨b.cValueData, b.cNewData, false, 0, 0⟩).map
    fun done => (⟨done.1.cValueData, done.1.cNewData⟩, done.2)

/-- What RegEnumValue answers before ERROR_NO_MORE_ITEMS, and whether the user has cancelled
    by then. -/
structure Enumerated where
  bCancel : Bool
  value : Option StringValue

/-- The loop of DoSubKey through the values of a key. -/
def doValues (t : Texts) (cKeyPath : List CHAR) : List Enumerated → Buffers → Option (List Event)
  | [], _ => some []
  | answer :: answers, b =>
    match answer.value with
    | none => some []
    | some value =>
      let b := { b with cValueData := b.cValueData.write 0 value.data }
      if answer.bCancel then some []
      else if value.data.length > t.cFrom.length then
        match replaceInString t cKeyPath value b with
        | none => none
        | some (b, events) => (doValues t cKeyPath answers b).map (events ++ ·)
      else doValues t cKeyPath answers b

def Event.isSet : Event → Bool
  | .regSetValueEx .. => true
  | .tooBig => false

/-- The calls of RegSetValueEx a value is to get. -/
def expected (t : Texts) (value : StringValue) : List Event :=
  let text := replaceAll t.cFrom t.cTo value.text
  if t.cFrom <:+: value.text ∧ text.length ≤ 65535 then
    [.regSetValueEx value.cValueName value.dwType (text ++ [0]) (text.length + 1)]
  else []

variable {t : Texts} {cKeyPath : List CHAR} {value : StringValue}

/-- Where the loop stands: what is left of the string, and what is there of the new one. -/
structure At (t : Texts) (value : StringValue) (s : Scan) (rest : List CHAR) : Prop where
  holds : s.cValueData.Holds valueDataSize s.oldplace rest
  result : s.cNewData.read 0 s.newplace ++ replaceAll t.cFrom t.cTo rest =
    replaceAll t.cFrom t.cTo value.text
  inside : s.newplace < newDataSize
  started : s.bDone = false → rest = value.text
  occurs : s.bDone = true → t.cFrom <:+: value.text

theorem at_start (b : Buffers) (holds : b.cValueData.Holds valueDataSize 0 value.text) :
    At t value ⟨b.cValueData, b.cNewData, false, 0, 0⟩ value.text :=
  ⟨holds, rfl, Nat.zero_lt_succ _, fun _ => rfl, by simp⟩

theorem read_strcpy (m : Cells CHAR) (place : Nat) (text : List CHAR) :
    (strcpy m place text).read 0 (place + text.length) = m.read 0 place ++ text := by
  have written := Cells.read_write_append m (text ++ [0]) 0 place
  have le : place + text.length ≤ place + (text ++ [0]).length := by
    rw [List.length_append]
    omega
  rw [Nat.zero_add] at written
  rw [strcpy, ← Cells.take_read _ 0 le, written, ← List.append_assoc]
  exact List.take_left' (by rw [List.length_append, Cells.length_read])

theorem read_strcpy_end (m : Cells CHAR) (place : Nat) (text : List CHAR) :
    (strcpy m place text).read 0 (place + text.length + 1) = m.read 0 place ++ text ++ [0] := by
  have written := Cells.read_write_append m (text ++ [0]) 0 place
  rw [Nat.zero_add, List.length_append, List.length_singleton, ← Nat.add_assoc] at written
  rw [strcpy, written, List.append_assoc]

theorem read_write_end {m : Cells CHAR} {text : List CHAR} {last : Nat}
    (same : m.read 0 (text.length + 1) = text ++ [0]) (le : text.length ≤ last) :
    (m.write last [0]).read 0 (text.length + 1) = text ++ [0] := by
  rcases Nat.eq_or_lt_of_le le with rfl | below
  · have written := Cells.read_write_append m [0] 0 text.length
    have front : m.read 0 text.length = text := by
      rw [← Cells.take_read m 0 (Nat.le_succ _), same, List.take_left]
    rw [Nat.zero_add, front] at written
    exact written
  · rw [Cells.read_write_before m [0] (by omega), same]

section Round

variable {s : Scan} {rest : List CHAR}

theorem At.strstr (at_ : At t value s rest) :
    Regrepl.strstr s.cValueData s.oldplace t.cFrom = (firstAt t.cFrom rest).map (s.oldplace + ·) := by
  rw [Regrepl.strstr, at_.holds.textAt]

theorem At.length (at_ : At t value s rest) : s.newplace + (replaceAll t.cFrom t.cTo rest).length =
    (replaceAll t.cFrom t.cTo value.text).length := by
  rw [← at_.result, List.length_append, Cells.length_read]

theorem At.occurs_of_found (at_ : At t value s rest) {i : Nat} (found : firstAt t.cFrom rest = some i) :
    t.cFrom <:+: value.text := by
  cases done : s.bDone with
  | true => exact at_.occurs done
  | false =>
    rw [← at_.started done]
    by_contra absent
    rw [← firstAt_eq_none, found] at absent
    cases absent

/-- The state behind an occurrence there is room for. -/
def Scan.replaced (s : Scan) (t : Texts) (rest : List CHAR) (i : Nat) : Scan :=
  { cValueData := s.cValueData.write (s.oldplace + i) [0]
    cNewData := strcpy (strcpy s.cNewData s.newplace (rest.take i)) (s.newplace + i) t.cTo
    bDone := true
    oldplace := s.oldplace + i + t.cFrom.length
    newplace := s.newplace + i + t.cTo.length }

theorem At.replaced (at_ : At t value s rest) {i : Nat} (found : firstAt t.cFrom rest = some i)
    (room : i + t.cTo.length < newDataSize - s.newplace) :
    At t value (s.replaced t rest i) (rest.drop (i + t.cFrom.length)) := by
  have inside := firstAt_inside t.nonempty found
  have positive : 0 < t.cFrom.length := List.length_pos_iff.mpr t.nonempty
  have length : (rest.take i).length = i := List.length_take_of_le (by omega)
  refine ⟨?_, ?_, ?_, ?_, fun _ => at_.occurs_of_found found⟩
  · have behind := at_.holds.rest inside (show s.oldplace + i < s.oldplace + (i + t.cFrom.length) by omega)
    rw [← Nat.add_assoc] at behind
    exact behind
  · have copied := read_strcpy s.cNewData s.newplace (rest.take i)
    rw [length] at copied
    simp only [Scan.replaced]
    rw [read_strcpy, copied, ← at_.result, replaceAll_some t.nonempty found]
    simp only [List.append_assoc]
  · simp only [Scan.replaced]
    omega
  · intro done
    cases done

end Round

theorem replaceLoop_expected (cKeyPath : List CHAR) (fuel : Nat) {s : Scan} {rest : List CHAR}
    (at_ : At t value s rest) (enough : rest.length < fuel) :
    ∃ s' events, replaceLoop t cKeyPath value fuel s = some (s', events) ∧
      events.filter Event.isSet = expected t value := by
  induction fuel generalizing s rest with
  | zero => omega
  | succ fuel ih =>
    have total := at_.length
    have room := at_.inside
    rw [replaceLoop, at_.strstr]
    cases found : firstAt t.cFrom rest with
    | none =>
      rw [replaceAll_none found] at total
      dsimp only [Option.map_none]
      rw [strlen, at_.holds.textAt]
      by_cases fresh : s.bDone = false
      · rw [if_pos fresh]
        have absent : ¬ t.cFrom <:+: value.text := by
          rw [← at_.started fresh, ← firstAt_eq_none, found]
        exact ⟨s, [], rfl, by simp [expected, absent]⟩
      · rw [if_neg fresh]
        have occurs := at_.occurs (by simpa using fresh)
        split
        · next full =>
          have big : ¬ (replaceAll t.cFrom t.cTo value.text).length ≤ 65535 := by
            simp only [newDataSize] at full room
            omega
          exact ⟨_, _, rfl, by simp [expected, big, Event.isSet]⟩
        · next fits =>
          have small : (replaceAll t.cFrom t.cTo value.text).length ≤ 65535 := by
            simp only [newDataSize] at fits room
            omega
          have whole : s.cNewData.read 0 s.newplace ++ rest = replaceAll t.cFrom t.cTo value.text := by
            rw [← at_.result, replaceAll_none found]
          have copied := read_strcpy_end s.cNewData s.newplace rest
          rw [whole, total] at copied
          have data := read_write_end copied (show _ ≤ newDataSize - 1 from small)
          refine ⟨_, _, rfl, ?_⟩
          rw [total, data, expected, if_pos ⟨occurs, small⟩]
          rfl
    | some i =>
      have inside := firstAt_inside t.nonempty found
      have length : (rest.take i).length = i := List.length_take_of_le (by omega)
      have cut := at_.holds.cut (show i ≤ rest.length by omega)
      dsimp only [Option.map_some]
      rw [strlen, cut.textAt, length]
      split
      · next full =>
        have big : ¬ (replaceAll t.cFrom t.cTo value.text).length ≤ 65535 := by
          rw [replaceAll_some t.nonempty found] at total
          simp only [List.length_append, length] at total
          simp only [newDataSize] at full room
          omega
        exact ⟨_, _, rfl, by simp [expected, big, Event.isSet]⟩
      · next fits =>
        have positive : 0 < t.cFrom.length := List.length_pos_iff.mpr t.nonempty
        exact ih (at_.replaced found (by omega)) (by rw [List.length_drop]; omega)

theorem replaceInString_expected (cKeyPath : List CHAR) (b : Buffers)
    (holds : b.cValueData.Holds valueDataSize 0 value.text) :
    ∃ b' events, replaceInString t cKeyPath value b = some (b', events) ∧
      events.filter Event.isSet = expected t value := by
  have inside := holds.inside
  obtain ⟨s', events, run, calls⟩ := replaceLoop_expected cKeyPath (valueDataSize + 1)
    (at_start (t := t) b holds) (by omega)
  exact ⟨_, events, by rw [replaceInString, run]; rfl, calls⟩

theorem expected_of_short (short : ¬ value.data.length > t.cFrom.length) : expected t value = [] := by
  have longer : value.text.length < value.data.length := by
    obtain ⟨text, behind, split, absent⟩ := List.eq_append_cons_of_mem value.terminated
    have clean : ∀ c ∈ text, c ≠ 0 := fun c mem zero => absent (zero ▸ mem)
    rw [StringValue.text, split, Cells.takeWhile_text clean, List.length_append, List.length_cons]
    omega
  rw [expected, if_neg]
  intro toWrite
  rcases toWrite with ⟨occurs, -⟩
  have le := occurs.length_le
  omega

/-- The values of a key that DoSubKey gets to. -/
def reached (answers : List Enumerated) : List StringValue :=
  match answers with
  | [] => []
  | answer :: answers =>
    match answer.value with
    | none => []
    | some value => if answer.bCancel then [] else value :: reached answers

/-- A string value is written once, with every occurrence replaced, exactly if there is one and
    the new string fits. -/
theorem doValues_replaceAll (t : Texts) (cKeyPath : List CHAR) (answers : List Enumerated) (b : Buffers) :
    ∃ events, doValues t cKeyPath answers b = some events ∧
      events.filter Event.isSet = (reached answers).flatMap (expected t) := by
  induction answers generalizing b with
  | nil => exact ⟨[], rfl, rfl⟩
  | cons answer answers ih =>
    rw [doValues, reached]
    cases answer.value with
    | none => exact ⟨[], rfl, rfl⟩
    | some value =>
      dsimp only
      by_cases cancel : answer.bCancel = true
      · rw [if_pos cancel, if_pos cancel]
        exact ⟨[], rfl, rfl⟩
      rw [if_neg cancel, if_neg cancel, List.flatMap_cons]
      split
      · have holds := Cells.holds_write b.cValueData value.terminated
          (show 0 + value.data.length ≤ valueDataSize by rw [Nat.zero_add]; exact value.fits)
        obtain ⟨b', events, run, calls⟩ := replaceInString_expected cKeyPath (t := t)
          ⟨b.cValueData.write 0 value.data, b.cNewData⟩ holds
        obtain ⟨events', run', calls'⟩ := ih b'
        refine ⟨events ++ events', ?_, ?_⟩
        · rw [run]
          dsimp only
          rw [run']
          rfl
        · rw [List.filter_append, calls, calls']
      · next short =>
        obtain ⟨events, run, calls⟩ := ih ⟨b.cValueData.write 0 value.data, b.cNewData⟩
        refine ⟨events, run, ?_⟩
        rw [calls, expected_of_short short, List.nil_append]

end Regrepl
