import LtrData.Library.WideText
import LtrData.Regrepl.ReplaceInString

namespace Regrepl

open Occurrences WideText

abbrev WCHAR := BitVec 16

/-- What MultiByteToWideChar has left in the buffers: the search text up to its NUL, and as many
    units of the replacement as ReplaceInString copies. -/
structure WideTexts (t : Texts) where
  wcFrom : List WCHAR
  wcTo : List WCHAR
  nonempty : wcFrom ≠ []
  copied : wcTo.length = t.cTo.length

inductive ValueType
  | string (dwType : StringType)
  | REG_BINARY
  | REG_MULTI_SZ
  | other (dwType : Nat)
deriving DecidableEq

/-- A value as RegEnumValue hands it out. -/
structure Value where
  cValueName : List CHAR
  dwType : ValueType
  data : List CHAR
  fits : data.length ≤ valueDataSize

inductive Call
  | regSetValueEx (cValueName : List CHAR) (dwType : ValueType) (lpData : List CHAR) (cbData : Nat)
  | tooBig
deriving DecidableEq

def Call.isSet : Call → Bool
  | .regSetValueEx .. => true
  | .tooBig => false

/-- How ReplaceInString ends: it returns, or it has written behind `cNewData` or reads behind
    `cValueData`, where the model stops. -/
inductive Ended
  | finished
  | overrun
  | overread
deriving DecidableEq

structure Outcome where
  buffers : Buffers
  calls : List Call
  ended : Ended

def Scan.outcome (s : Scan) (calls : List Call) (ended : Ended) : Outcome :=
  ⟨⟨s.cValueData, s.cNewData⟩, calls, ended⟩

section Search

variable {α : Type} [DecidableEq α]

def matchesAt (mem : Cells α) : Nat → List α → Bool
  | _, [] => true
  | place, c :: fnd => if mem place ≠ c then false else matchesAt mem (place + 1) fnd

/-- The loop through the places, with `left` of them left. -/
def searchFrom (mem : Cells α) (fnd : List α) : Nat → Nat → Option Nat
  | 0, _ => none
  | left + 1, i => if matchesAt mem i fnd then some i else searchFrom mem fnd left (i + 1)

/-- The body that memstr and memwcs share. -/
def memFind (mem : Cells α) (fnd : List α) (max : Nat) : Option Nat :=
  if fnd.length > max then none else searchFrom mem fnd (max - fnd.length + 1) 0

theorem matchesAt_iff (mem : Cells α) (place : Nat) (fnd : List α) :
    matchesAt mem place fnd = true ↔ mem.read place fnd.length = fnd := by
  induction fnd generalizing place with
  | nil => simp [matchesAt]
  | cons c fnd ih =>
    rw [matchesAt, List.length_cons, Cells.read, List.cons.injEq, ← ih]
    by_cases same : mem place = c <;> simp [same]

theorem searchFrom_eq (mem : Cells α) {fnd : List α} (some_ : fnd ≠ []) (left i : Nat) :
    searchFrom mem fnd left i =
      (firstAt fnd (mem.read i (left + (fnd.length - 1)))).map (i + ·) := by
  have positive : 0 < fnd.length := List.length_pos_iff.mpr some_
  induction left generalizing i with
  | zero =>
    rw [firstAt_short (by rw [Cells.length_read]; omega)]
    rfl
  | succ left ih =>
    have here : matchesAt mem i fnd = true ↔ fnd <+: mem.read i (left + 1 + (fnd.length - 1)) := by
      rw [matchesAt_iff, ← Cells.take_read mem i (show fnd.length ≤ left + 1 + (fnd.length - 1) by omega),
        List.prefix_iff_eq_take, eq_comm]
    have longer : left + 1 + (fnd.length - 1) = left + (fnd.length - 1) + 1 := by omega
    rw [longer, Cells.read] at here ⊢
    rw [searchFrom, firstAt]
    by_cases found : matchesAt mem i fnd = true
    · rw [if_pos found, if_pos (here.mp found)]
      rfl
    · rw [if_neg found, if_neg fun at_ => found (here.mpr at_), ih, Option.map_map]
      congr 1
      funext j
      simp only [Function.comp_apply]
      omega

theorem memFind_eq (mem : Cells α) {fnd : List α} (some_ : fnd ≠ []) (max : Nat) :
    memFind mem fnd max = firstAt fnd (mem.read 0 max) := by
  have positive : 0 < fnd.length := List.length_pos_iff.mpr some_
  rw [memFind]
  by_cases short : fnd.length > max
  · rw [if_pos short, firstAt_short (by rw [Cells.length_read]; exact short)]
  · rw [if_neg short, searchFrom_eq mem some_,
      show max - fnd.length + 1 + (fnd.length - 1) = max by omega]
    simp

end Search

def memstr (mem : Cells CHAR) (place : Nat) (fnd : List CHAR) (max : Nat) : Option Nat :=
  memFind (fun i => mem (place + i)) fnd max

/-- The search counts in units of two bytes. -/
def memwcs (mem : Cells CHAR) (place : Nat) (fnd : List WCHAR) (max : Nat) : Option Nat :=
  memFind (fun i => mem (place + 2 * i + 1) ++ mem (place + 2 * i)) fnd max

theorem memstr_eq (mem : Cells CHAR) (place : Nat) {fnd : List CHAR} (some_ : fnd ≠ []) (max : Nat) :
    memstr mem place fnd max = firstAt fnd (mem.read place max) := by
  rw [memstr, memFind_eq _ some_, ← Cells.read_shift, Nat.add_zero]

theorem memwcs_eq (mem : Cells CHAR) (place : Nat) {fnd : List WCHAR} (some_ : fnd ≠ []) (size : Nat) :
    memwcs mem place fnd (size / 2) = firstAt fnd (units (mem.read place size)) := by
  rw [memwcs, memFind_eq _ some_, read_units]

/-- What the two loops for REG_BINARY differ in. The search answers how many of the bytes at a place
    are in front of the first occurrence, `first` is what it finds in a text, and the length
    `iToLen` that the room is checked for need not be that of what is copied. -/
structure Search where
  find : Cells CHAR → Nat → Nat → Option Nat
  first : List CHAR → Option Nat
  skipped : Nat
  copied : List CHAR
  iToLen : Nat
  find_eq : ∀ mem place size, find mem place size = first (mem.read place size)
  inside : ∀ {s i}, first s = some i → i < s.length
  passes : 0 < skipped
  counts : iToLen ≤ copied.length

def memstrSearch (t : Texts) : Search where
  find mem place size := memstr mem place t.cFrom size
  first := firstAt t.cFrom
  skipped := t.cFrom.length
  copied := t.cTo
  iToLen := t.cTo.length
  find_eq mem place size := memstr_eq mem place t.nonempty size
  inside found := by
    have positive : 0 < t.cFrom.length := List.length_pos_iff.mpr t.nonempty
    have le := firstAt_inside t.nonempty found
    omega
  passes := List.length_pos_iff.mpr t.nonempty
  counts := Nat.le_refl _

variable {t : Texts}

/-- The first aligned occurrence of the wide search text, in bytes. -/
def WideTexts.first (w : WideTexts t) (s : List CHAR) : Option Nat :=
  (firstAt w.wcFrom (units s)).map (2 * ·)

def memwcsSearch (w : WideTexts t) : Search where
  find mem place size := (memwcs mem place w.wcFrom (size / 2)).map (2 * ·)
  first := w.first
  skipped := t.cFrom.length * 2
  copied := bytes w.wcTo
  iToLen := t.cTo.length
  find_eq mem place size := by rw [memwcs_eq mem place w.nonempty, WideTexts.first]
  inside found := by
    obtain ⟨j, at_, rfl⟩ := Option.map_eq_some_iff.mp found
    have positive : 0 < w.wcFrom.length := List.length_pos_iff.mpr w.nonempty
    have le := firstAt_inside w.nonempty at_
    rw [length_units] at le
    omega
  passes := by
    have positive : 0 < t.cFrom.length := List.length_pos_iff.mpr t.nonempty
    omega
  counts := by rw [length_bytes, w.copied]; omega

/-- The bytes that are searched. Behind the data the source's difference is negative, and the
    search has no end but that of the buffer. -/
def searchSize (value : Value) (oldplace : Nat) : Nat :=
  if oldplace ≤ value.data.length then value.data.length - oldplace else valueDataSize - oldplace

/-- The state behind an occurrence, with what is in front of it and the replacement copied. -/
def Scan.copy (s : Scan) (search : Search) (iLen : Nat) : Scan :=
  { cValueData := s.cValueData
    cNewData :=
      (s.cNewData.write s.newplace (s.cValueData.read s.oldplace iLen)).write (s.newplace + iLen)
        search.copied
    bDone := true
    oldplace := s.oldplace + iLen + search.skipped
    newplace := s.newplace + iLen + search.copied.length }

/-- The loop for REG_BINARY. -/
def binaryLoop (search : Search) (cKeyPath : List CHAR) (value : Value) : Nat → Scan → Option Outcome
  | 0, _ => none
  | fuel + 1, s =>
    match search.find s.cValueData s.oldplace (searchSize value s.oldplace) with
    | none =>
      if value.data.length < s.oldplace then some (s.outcome [] .overread)
      else if s.bDone = false then some (s.outcome [] .finished)
      else
        let iBufSizeLeft := newDataSize - s.newplace
        let iLen := value.data.length - s.oldplace
        if iLen > iBufSizeLeft then
          some ((s.tooBig cKeyPath value.cValueName).outcome [.tooBig] .finished)
        else
          let cNewData := s.cNewData.write s.newplace (s.cValueData.read s.oldplace iLen)
          let newplace := s.newplace + iLen
          some (({ s with cNewData := cNewData }).outcome
            [.regSetValueEx value.cValueName value.dwType (cNewData.read 0 newplace) newplace] .finished)
    | some iLen =>
      let iBufSizeLeft := newDataSize - s.newplace
      if iLen + search.iToLen > iBufSizeLeft then
        some ((s.tooBig cKeyPath value.cValueName).outcome [.tooBig] .finished)
      else
        let s := s.copy search iLen
        if s.newplace > newDataSize then some (s.outcome [] .overrun)
        else binaryLoop search cKeyPath value fuel s

def Buffers.scan (b : Buffers) : Scan := ⟨b.cValueData, b.cNewData, false, 0, 0⟩

/-- ReplaceInString for REG_BINARY, where `wide` is what the texts are converted to, if they can be. -/
def replaceInBinary (t : Texts) (wide : Option (WideTexts t)) (cKeyPath : List CHAR) (value : Value)
    (b : Buffers) : Option Outcome :=
  match memstr b.cValueData 0 t.cFrom value.data.length with
  | none =>
    match wide with
    | none => some (b.scan.outcome [] .finished)
    | some w => binaryLoop (memwcsSearch w) cKeyPath value (valueDataSize + 2) b.scan
  | some _ => binaryLoop (memstrSearch t) cKeyPath value (valueDataSize + 2) b.scan

/-- The loop for REG_MULTI_SZ. -/
def multiLoop (t : Texts) (cKeyPath : List CHAR) (value : Value) : Nat → Scan → Option Outcome
  | 0, _ => none
  | fuel + 1, s =>
    match strstr s.cValueData s.oldplace t.cFrom with
    | none =>
      if 0 ∉ s.cValueData.read s.oldplace (valueDataSize - s.oldplace) then
        some (s.outcome [] .overread)
      else
        let iBufSizeLeft := newDataSize - s.newplace
        let iLen := strlen s.cValueData s.oldplace
        if iLen ≥ iBufSizeLeft - 1 then
          some ((s.tooBig cKeyPath value.cValueName).outcome [.tooBig] .finished)
        else
          let s := { s with
            cNewData := strcpy s.cNewData s.newplace (s.cValueData.textAt valueDataSize s.oldplace)
            oldplace := s.oldplace + iLen + 1
            newplace := s.newplace + iLen + 1 }
          if s.cValueData s.oldplace = 0 then
            if s.bDone = false then some (s.outcome [] .finished)
            else
              let cNewData := (s.cNewData.write (newDataSize - 2) [0]).write (newDataSize - 1) [0]
              some (({ s with cNewData := cNewData }).outcome
                [.regSetValueEx value.cValueName value.dwType (cNewData.read 0 (s.newplace + 1))
                  (s.newplace + 1)] .finished)
          else multiLoop t cKeyPath value fuel s
    | some nextplace =>
      let s := { s with bDone := true, cValueData := s.cValueData.write nextplace [0] }
      let iBufSizeLeft := newDataSize - s.newplace
      let iLen := strlen s.cValueData s.oldplace
      if iLen + t.cTo.length ≥ iBufSizeLeft - 1 then
        some ((s.tooBig cKeyPath value.cValueName).outcome [.tooBig] .finished)
      else
        let cNewData := strcpy s.cNewData s.newplace (s.cValueData.textAt valueDataSize s.oldplace)
        let newplace := s.newplace + iLen
        let cNewData := strcpy cNewData newplace t.cTo
        multiLoop t cKeyPath value fuel
          { s with
            cNewData := cNewData
            newplace := newplace + t.cTo.length
            oldplace := s.oldplace + iLen + t.cFrom.length }

def Event.call : Event → Call
  | .regSetValueEx cValueName dwType lpData cbData =>
    .regSetValueEx cValueName (.string dwType) lpData cbData
  | .tooBig => .tooBig

/-- ReplaceInString. A string is what the buffer has up to the first NUL, wherever the data ends. -/
def replaceInValue (t : Texts) (wide : Option (WideTexts t)) (cKeyPath : List CHAR) (value : Value)
    (b : Buffers) : Option Outcome :=
  match value.dwType with
  | .string dwType =>
    if terminated : 0 ∈ b.cValueData.read 0 valueDataSize then
      (replaceInString t cKeyPath
        ⟨value.cValueName, dwType, _, terminated, Nat.le_of_eq (Cells.length_read ..)⟩ b).map
        fun done => ⟨done.1, done.2.map Event.call, .finished⟩
    else some ⟨b, [], .overread⟩
  | .REG_BINARY => replaceInBinary t wide cKeyPath value b
  | .REG_MULTI_SZ => multiLoop t cKeyPath value (valueDataSize + 1) b.scan
  | .other _ => some ⟨b, [], .finished⟩

def doValue (t : Texts) (wide : Option (WideTexts t)) (cKeyPath : List CHAR) (value : Value)
    (b : Buffers) : Option Outcome :=
  let b := { b with cValueData := b.cValueData.write 0 value.data }
  if value.data.length > t.cFrom.length then replaceInValue t wide cKeyPath value b
  else some ⟨b, [], .finished⟩

def letters : Texts where
  cFrom := chars "A"
  cTo := chars "B"
  nonempty := by decide
  cleanFrom := by decide
  cleanTo := by decide

end Regrepl
