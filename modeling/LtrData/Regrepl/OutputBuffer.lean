import LtrData.Regrepl.BinaryLoop
import LtrData.Regrepl.MultiString

namespace Regrepl

open Occurrences WideText

variable {t : Texts} {wide : Option (WideTexts t)} {cKeyPath : List CHAR}

/-- ReplaceInString leaves what is behind `cNewData` as it is, whatever that and the buffer have
    been. -/
def StaysInside (t : Texts) (wide : Option (WideTexts t)) (cKeyPath : List CHAR) (value : Value)
    (cValueData : Cells CHAR) : Prop :=
  ∀ cNewData, ∃ outcome,
    replaceInValue t wide cKeyPath value ⟨cValueData.write 0 value.data, cNewData⟩ = some outcome ∧
      ∀ i, newDataSize ≤ i → outcome.buffers.cNewData i = cNewData i

theorem strcpy_outside {m : Cells CHAR} {text : List CHAR} {place : Nat}
    (inside : place + text.length < newDataSize) :
    ∀ i, newDataSize ≤ i → strcpy m place text i = m i := by
  intro i outside
  rw [strcpy, Cells.write_after _ _ (by rw [List.length_append, List.length_singleton]; omega)]

/-- The state behind an occurrence that is cut off at `nextplace`, whatever the buffer holds. -/
def Scan.cutOff (s : Scan) (t : Texts) (nextplace : Nat) : Scan :=
  let cValueData := s.cValueData.write nextplace [0]
  let iLen := strlen cValueData s.oldplace
  { cValueData := cValueData
    cNewData := strcpy (strcpy s.cNewData s.newplace (cValueData.textAt valueDataSize s.oldplace))
      (s.newplace + iLen) t.cTo
    bDone := true
    oldplace := s.oldplace + iLen + t.cFrom.length
    newplace := s.newplace + iLen + t.cTo.length }

theorem cutOff_outside {s : Scan} {nextplace : Nat}
    (inside : (s.cutOff t nextplace).newplace < newDataSize) :
    ∀ i, newDataSize ≤ i → (s.cutOff t nextplace).cNewData i = s.cNewData i := by
  intro i outside
  simp only [Scan.cutOff, strlen] at inside ⊢
  rw [strcpy_outside inside i outside, strcpy_outside (by omega) i outside]

theorem replaceLoop_inside {value : StringValue} (fuel : Nat) {s s' : Scan} {events : List Event}
    (run : replaceLoop t cKeyPath value fuel s = some (s', events)) (room : s.newplace < newDataSize) :
    ∀ i, newDataSize ≤ i → s'.cNewData i = s.cNewData i := by
  induction fuel generalizing s with
  | zero => cases run
  | succ fuel ih =>
    intro i outside
    have size : newDataSize = 65536 := rfl
    rw [replaceLoop] at run
    cases found : strstr s.cValueData s.oldplace t.cFrom with
    | none =>
      rw [found] at run
      dsimp only at run
      split at run
      · obtain ⟨rfl, -⟩ := Prod.mk.inj (Option.some.inj run)
        rfl
      split at run
      · obtain ⟨rfl, -⟩ := Prod.mk.inj (Option.some.inj run)
        rfl
      · next fits =>
        obtain ⟨rfl, -⟩ := Prod.mk.inj (Option.some.inj run)
        rw [strlen] at fits
        dsimp only
        rw [Cells.write_one, if_neg (by omega), strcpy_outside (by omega) i outside]
    | some nextplace =>
      rw [found] at run
      dsimp only at run
      split at run
      · obtain ⟨rfl, -⟩ := Prod.mk.inj (Option.some.inj run)
        rfl
      · next fits =>
        have room : (s.cutOff t nextplace).newplace < newDataSize := by
          simp only [Scan.cutOff]
          omega
        exact (ih run room i outside).trans (cutOff_outside room i outside)

theorem strstr_inside {m : Cells CHAR} {place nextplace : Nat}
    (found : strstr m place t.cFrom = some nextplace) : place < valueDataSize := by
  obtain ⟨i, at_, -⟩ := Option.map_eq_some_iff.mp found
  have positive : 0 < t.cFrom.length := List.length_pos_iff.mpr t.nonempty
  have inside := firstAt_inside t.nonempty at_
  have shorter : (m.textAt valueDataSize place).length ≤ valueDataSize - place := by
    rw [Cells.textAt]
    exact Nat.le_trans (List.takeWhile_sublist _).length_le (Nat.le_of_eq (Cells.length_read ..))
  omega

theorem multiLoop_inside (value : Value) (fuel : Nat) {s : Scan} (room : s.newplace < newDataSize)
    (enough : valueDataSize - s.oldplace < fuel) :
    ∃ outcome, multiLoop t cKeyPath value fuel s = some outcome ∧
      ∀ i, newDataSize ≤ i → outcome.buffers.cNewData i = s.cNewData i := by
  induction fuel generalizing s with
  | zero => omega
  | succ fuel ih =>
    have size : newDataSize = 65536 := rfl
    rw [multiLoop]
    cases found : strstr s.cValueData s.oldplace t.cFrom with
    | none =>
      dsimp only
      split
      · exact ⟨_, rfl, fun i _ => rfl⟩
      · next terminated =>
        have holds := Cells.holds_textAt (not_not.mp terminated)
        have inside := holds.inside
        split
        · exact ⟨_, rfl, fun i _ => rfl⟩
        next fits =>
        rw [strlen] at fits ⊢
        have kept := strcpy_outside (m := s.cNewData)
          (show s.newplace + (s.cValueData.textAt valueDataSize s.oldplace).length < newDataSize by omega)
        split
        · split
          · exact ⟨_, rfl, kept⟩
          · refine ⟨_, rfl, fun i outside => ?_⟩
            simp only [Scan.outcome]
            rw [Cells.write_one, if_neg (by omega), Cells.write_one, if_neg (by omega), kept i outside]
        · obtain ⟨outcome, run, same⟩ := ih
            (s := s.passed (s.cValueData.textAt valueDataSize s.oldplace))
            (by simp only [Scan.passed]; omega) (by simp only [Scan.passed]; omega)
          exact ⟨outcome, run, fun i outside => (same i outside).trans (kept i outside)⟩
    | some nextplace =>
      have inside := strstr_inside found
      have positive : 0 < t.cFrom.length := List.length_pos_iff.mpr t.nonempty
      dsimp only
      split
      · exact ⟨_, rfl, fun i _ => rfl⟩
      · next fits =>
        have room : (s.cutOff t nextplace).newplace < newDataSize := by
          simp only [Scan.cutOff]
          omega
        obtain ⟨outcome, run, same⟩ := ih room (by simp only [Scan.cutOff]; omega)
        exact ⟨outcome, run, fun i outside => (same i outside).trans (cutOff_outside room i outside)⟩

theorem string_inside (t : Texts) (cKeyPath : List CHAR) (value : StringValue) {b : Buffers} (terminated : 0 ∈ b.cValueData.read 0 valueDataSize)
    (text : value.text = b.cValueData.textAt valueDataSize 0) :
    ∃ result, replaceInString t cKeyPath value b = some result ∧
      ∀ i, newDataSize ≤ i → result.1.cNewData i = b.cNewData i := by
  have holds : b.cValueData.Holds valueDataSize 0 (b.cValueData.textAt valueDataSize 0) :=
    Cells.holds_textAt terminated
  rw [← text] at holds
  obtain ⟨s, events, run, -⟩ := replaceLoop_expected cKeyPath (valueDataSize + 1)
    (at_start (t := t) b holds) (by have inside := holds.inside; omega)
  refine ⟨(⟨s.cValueData, s.cNewData⟩, events), ?_, replaceLoop_inside _ run (Nat.zero_lt_succ _)⟩
  rw [replaceInString, run]
  rfl

theorem binary_inside {value : Value} {b : Buffers}
    (within : ¬ t.cFrom <:+: value.data → ∀ w, wide = some w →
      ¬ w.RunsOver (searched value (b.cValueData.write 0 value.data))) :
    ∃ outcome, replaceInBinary t wide cKeyPath value ⟨b.cValueData.write 0 value.data, b.cNewData⟩ =
        some outcome ∧
      ∀ i, newDataSize ≤ i → outcome.buffers.cNewData i = b.cNewData i := by
  unfold replaceInBinary
  rw [memstr_data]
  cases found : firstAt t.cFrom value.data with
  | some i =>
    exact binaryLoop_inside cKeyPath _ (Nat.zero_le _) (Nat.lt_succ_self _)
      fun e _ => not_crosses_memstr t e
  | none =>
    cases wide with
    | none => exact ⟨_, rfl, fun i _ => rfl⟩
    | some w =>
      have safe := within (firstAt_eq_none.mp found) w rfl
      rw [WideTexts.runsOver_iff] at safe
      exact binaryLoop_inside cKeyPath _ (Nat.zero_le _) (Nat.lt_succ_self _)
        fun e mem crosses => safe ⟨e, mem, crosses⟩

theorem not_staysInside {value : Value} {cValueData : Cells CHAR} {w : WideTexts t}
    (binary : value.dwType = .REG_BINARY) (absent : ¬ t.cFrom <:+: value.data)
    (beyond : w.RunsOver (searched value (cValueData.write 0 value.data))) :
    ¬ StaysInside t (some w) cKeyPath value cValueData := by
  intro inside
  rw [WideTexts.runsOver_iff] at beyond
  obtain ⟨behind, runs⟩ := binaryLoop_crosses cKeyPath (valueDataSize + 2)
    (s := Buffers.scan ⟨cValueData.write 0 value.data, cValueData⟩) (Nat.zero_le _) beyond
  -- the byte behind the buffer is not the one that is written there
  obtain ⟨outcome, run, kept⟩ := inside fun _ => behind + 1
  obtain ⟨outcome', run', -, overwritten⟩ := runs fun _ => behind + 1
  rw [replaceInValue, binary] at run
  dsimp only at run
  rw [replaceInBinary, memstr_data, firstAt_eq_none.mpr absent] at run
  obtain rfl := Option.some.inj (run.symm.trans run')
  have same := (kept newDataSize (Nat.le_refl _)).symm.trans overwritten
  have value_ := congrArg BitVec.toNat same
  rw [BitVec.toNat_add] at value_
  have bound := behind.isLt
  simp only [BitVec.ofNat_eq_ofNat, BitVec.toNat_ofNat] at value_
  omega

/-- Nothing is written behind `cNewData` unless a binary value has the search text as 16-bit units
    only, and a replacement among these runs over its end. -/
theorem staysInside_iff (t : Texts) (wide : Option (WideTexts t)) (cKeyPath : List CHAR) (value : Value)
    (cValueData : Cells CHAR) :
    StaysInside t wide cKeyPath value cValueData ↔
      (value.dwType = .REG_BINARY → ¬ t.cFrom <:+: value.data → ∀ w, wide = some w →
        ¬ w.RunsOver (searched value (cValueData.write 0 value.data))) := by
  constructor
  · intro inside binary absent w some_ beyond
    rw [some_] at inside
    exact not_staysInside binary absent beyond inside
  · intro within cNewData
    rw [replaceInValue]
    cases type : value.dwType with
    | string dwType =>
      dsimp only
      split
      · next terminated =>
        obtain ⟨result, run, kept⟩ := string_inside t cKeyPath
          ⟨value.cValueName, dwType, _, terminated, Nat.le_of_eq (Cells.length_read ..)⟩
          (b := ⟨cValueData.write 0 value.data, cNewData⟩) terminated rfl
        rw [run]
        exact ⟨_, rfl, kept⟩
      · exact ⟨_, rfl, fun i _ => rfl⟩
    | REG_BINARY => exact binary_inside (b := ⟨cValueData, cNewData⟩) (within type)
    | REG_MULTI_SZ => exact multiLoop_inside value _ (Nat.zero_lt_succ _) (Nat.lt_succ_self _)
    | other dwType => exact ⟨_, rfl, fun i _ => rfl⟩

section Example

/-- In a text of characters below 256 every other byte is zero. -/
theorem absent_in_narrow {a b : CHAR} (aClean : a ≠ 0) (bClean : b ≠ 0) {text : List WCHAR}
    (narrow : ∀ unit ∈ text, unit.extractLsb' 8 8 = 0) : ¬ [a, b] <:+: bytes text := by
  induction text with
  | nil => simp
  | cons unit text ih =>
    have high := narrow unit List.mem_cons_self
    have rest := ih fun other mem => narrow other (List.mem_cons_of_mem _ mem)
    rw [bytes_cons, high, List.infix_cons_iff, List.infix_cons_iff]
    simp only [List.cons_prefix_cons, rest, or_false]
    rintro (⟨-, zero, -⟩ | ⟨zero, -⟩)
    · exact bClean zero
    · exact aClean zero

theorem firstAt_replicate {a b x : WCHAR} (other : x ≠ a) (n : Nat) :
    firstAt [a, b] (List.replicate n x ++ [a, b]) = some n := by
  induction n with
  | zero => simp [firstAt]
  | succ n ih =>
    rw [List.replicate_succ, List.cons_append, firstAt, ih, if_neg (by simp [Ne.symm other])]
    rfl

/-- "ab" is to become the longest text there is room for in the dialog. -/
def longReplacement : Texts where
  cFrom := chars "ab"
  cTo := List.replicate 259 0x63
  nonempty := by decide
  cleanFrom := by decide
  cleanTo c mem := by
    rw [(List.mem_replicate.mp mem).2]
    decide

def longWide : WideTexts longReplacement where
  wcFrom := [0x61, 0x62]
  wcTo := List.replicate 259 0x63
  nonempty := by decide
  copied := by rw [List.length_replicate, longReplacement, List.length_replicate]

def wideText : List WCHAR := List.replicate 32600 0x78 ++ [0x61, 0x62]

def wideTextValue : Value where
  cValueName := []
  dwType := .REG_BINARY
  data := bytes wideText
  fits := by
    rw [length_bytes, wideText, List.length_append, List.length_replicate]
    decide

theorem wideText_runsOver (m : Cells CHAR) :
    longWide.RunsOver (searched wideTextValue (m.write 0 wideTextValue.data)) := by
  have found : (memwcsSearch longWide).first (searched wideTextValue (m.write 0 wideTextValue.data) 0) =
      some 65200 := by
    rw [show (memwcsSearch longWide).first = longWide.first from rfl, searched_data (Cells.read_write_same ..) (Nat.zero_le _), List.drop_zero, WideTexts.first,
      show wideTextValue.data = bytes wideText from rfl, units_bytes, wideText,
      show longWide.wcFrom = [0x61, 0x62] from rfl, firstAt_replicate (by decide)]
    rfl
  have copied : (memwcsSearch longWide).copied.length = 518 := by
    rw [show (memwcsSearch longWide).copied = bytes (List.replicate 259 0x63) from rfl, length_bytes,
      List.length_replicate]
  have cTo : longReplacement.cTo.length = 259 := List.length_replicate
  refine ⟨65718, ?_, by decide, ?_⟩
  · rw [Search.ends, found]
    dsimp only
    rw [copied]
    exact List.mem_cons_self
  · rw [cTo]
    decide

/-- The check counts the 259 units of the replacement as 259 bytes. -/
theorem wideText_written_outside :
    ¬ ∀ (t : Texts) (wide : Option (WideTexts t)) (cKeyPath : List CHAR) (value : Value)
      (cValueData : Cells CHAR), StaysInside t wide cKeyPath value cValueData := by
  intro all
  have absent : ¬ longReplacement.cFrom <:+: wideTextValue.data := by
    refine absent_in_narrow (by decide) (by decide) fun unit mem => ?_
    rcases List.mem_append.mp mem with front | back
    · rw [(List.mem_replicate.mp front).2]
      decide
    · rcases List.mem_pair.mp back with rfl | rfl <;> decide
  have inside := all longReplacement (some longWide) [] wideTextValue fun _ => 0
  exact not_staysInside (w := longWide) rfl absent (wideText_runsOver _) inside

end Example

end Regrepl
