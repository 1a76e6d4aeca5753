import LtrData.Regrepl.Values

namespace Regrepl

open Occurrences WideText

/-- Where the new data stands behind each of the replacements, with `rest` for what is searched at
    a place. -/
def Search.ends (search : Search) (rest : Nat → List CHAR) : Nat → Nat → Nat → List Nat
  | 0, _, _ => []
  | fuel + 1, oldplace, newplace =>
    match search.first (rest oldplace) with
    | none => []
    | some iLen =>
      let newplace := newplace + iLen + search.copied.length
      newplace :: search.ends rest fuel (oldplace + iLen + search.skipped) newplace

/-- The end of a replacement that passes the check of the room and does not fit in `cNewData`. -/
def Search.Crosses (search : Search) (newplace : Nat) : Prop :=
  newDataSize < newplace ∧ newplace + search.iToLen ≤ newDataSize + search.copied.length

/-- What is searched at a place: the rest of the data, or behind it that of the buffer. -/
def searched (value : Value) (m : Cells CHAR) (place : Nat) : List CHAR :=
  m.read place (searchSize value place)

variable {search : Search} {value : Value} {s : Scan} {rest : Nat → List CHAR}
  {oldplace newplace fuel iLen e : Nat}

theorem Search.le_of_mem_ends (mem : e ∈ search.ends rest fuel oldplace newplace) :
    newplace + search.copied.length ≤ e := by
  induction fuel generalizing oldplace newplace with
  | zero => simp [Search.ends] at mem
  | succ fuel ih =>
    rw [Search.ends] at mem
    split at mem
    · simp at mem
    · rcases List.mem_cons.mp mem with rfl | behind
      · omega
      · have le := ih behind
        omega

theorem searchSize_le (value : Value) (place : Nat) : searchSize value place ≤ valueDataSize - place := by
  have fits := value.fits
  rw [searchSize]
  split <;> omega

theorem found_inside {m : Cells CHAR} (found : search.first (searched value m oldplace) = some iLen) :
    oldplace + iLen < valueDataSize := by
  have inside := search.inside found
  have le := searchSize_le value oldplace
  rw [searched, Cells.length_read] at inside
  omega

theorem searched_data {m : Cells CHAR} {place : Nat} (data : m.read 0 value.data.length = value.data)
    (within : place ≤ value.data.length) : searched value m place = value.data.drop place := by
  rw [searched, searchSize, if_pos within]
  conv_rhs => rw [← data]
  rw [Cells.drop_read m 0 within, Nat.zero_add]

theorem Scan.find_eq (s : Scan) (search : Search) (value : Value) :
    search.find s.cValueData s.oldplace (searchSize value s.oldplace) =
      search.first (searched value s.cValueData s.oldplace) := search.find_eq ..

theorem write_outside {m : Cells CHAR} {values : List CHAR} {offset size : Nat}
    (le : offset + values.length ≤ size) :
    ∀ i, size ≤ i → m.write offset values i = m i :=
  fun _ outside => Cells.write_after m values (Nat.le_trans le outside)

theorem copy_outside (inside : (s.copy search iLen).newplace ≤ newDataSize) :
    ∀ i, newDataSize ≤ i → (s.copy search iLen).cNewData i = s.cNewData i := by
  intro i outside
  simp only [Scan.copy] at inside ⊢
  rw [Cells.write_after _ _ (by omega), Cells.write_after _ _ (by rw [Cells.length_read]; omega)]

/-- While no replacement crosses the end of `cNewData`, nothing is written behind it. -/
theorem binaryLoop_inside (cKeyPath : List CHAR) (fuel : Nat) {s : Scan}
    (room : s.newplace ≤ newDataSize) (enough : valueDataSize + 1 - s.oldplace < fuel)
    (within : ∀ e ∈ search.ends (searched value s.cValueData) fuel s.oldplace s.newplace,
      ¬ search.Crosses e) :
    ∃ outcome, binaryLoop search cKeyPath value fuel s = some outcome ∧
      ∀ i, newDataSize ≤ i → outcome.buffers.cNewData i = s.cNewData i := by
  induction fuel generalizing s with
  | zero => omega
  | succ fuel ih =>
    rw [binaryLoop, s.find_eq]
    rw [Search.ends] at within
    cases found : search.first (searched value s.cValueData s.oldplace) with
    | none =>
      dsimp only
      split
      · exact ⟨_, rfl, fun i _ => rfl⟩
      split
      · exact ⟨_, rfl, fun i _ => rfl⟩
      split
      · exact ⟨_, rfl, fun i _ => rfl⟩
      · next fits => exact ⟨_, rfl, write_outside (by rw [Cells.length_read]; omega)⟩
    | some iLen =>
      rw [found] at within
      dsimp only at within ⊢
      have inside := found_inside found
      have passes := search.passes
      split
      · exact ⟨_, rfl, fun i _ => rfl⟩
      · next fits =>
        have small : (s.copy search iLen).newplace ≤ newDataSize := by
          have first := within _ List.mem_cons_self
          simp only [Search.Crosses] at first
          simp only [Scan.copy]
          omega
        rw [if_neg (Nat.not_lt.mpr small)]
        obtain ⟨outcome, run, same⟩ := ih small (by simp only [Scan.copy]; omega)
          fun e mem => within e (List.mem_cons_of_mem _ mem)
        refine ⟨outcome, run, fun i outside => ?_⟩
        rw [same i outside, copy_outside small i outside]

theorem copy_crosses (fits : iLen + search.iToLen ≤ newDataSize - s.newplace) (room : s.newplace ≤ newDataSize)
    (crosses : newDataSize < (s.copy search iLen).newplace) (cNewData : Cells CHAR) :
    (({ s with cNewData := cNewData }).copy search iLen).cNewData newDataSize =
      search.copied.getD (newDataSize - (s.newplace + iLen)) 0 := by
  simp only [Scan.copy] at crosses ⊢
  have inside : newDataSize - (s.newplace + iLen) < search.copied.length := by omega
  have above : ¬ newDataSize < s.newplace + iLen := by omega
  simp [Cells.write, above, inside]

/-- The first replacement that crosses the end of `cNewData` is written, with the same byte behind
    the end whatever the buffer has. -/
theorem binaryLoop_crosses (cKeyPath : List CHAR) (fuel : Nat) {s : Scan}
    (room : s.newplace ≤ newDataSize)
    (crosses : ∃ e ∈ search.ends (searched value s.cValueData) fuel s.oldplace s.newplace,
      search.Crosses e) :
    ∃ behind, ∀ cNewData, ∃ outcome,
      binaryLoop search cKeyPath value fuel { s with cNewData := cNewData } = some outcome ∧
        outcome.ended = .overrun ∧ outcome.buffers.cNewData newDataSize = behind := by
  induction fuel generalizing s with
  | zero =>
    obtain ⟨e, mem, -⟩ := crosses
    simp [Search.ends] at mem
  | succ fuel ih =>
    obtain ⟨e, mem, crosses⟩ := crosses
    rw [Search.ends] at mem
    cases found : search.first (searched value s.cValueData s.oldplace) with
    | none => simp [found] at mem
    | some iLen =>
      rw [found] at mem
      dsimp only at mem
      have fits : iLen + search.iToLen ≤ newDataSize - s.newplace := by
        simp only [Search.Crosses] at crosses
        rcases List.mem_cons.mp mem with rfl | later
        · omega
        · have le := Search.le_of_mem_ends later
          omega
      have run : ∀ cNewData, binaryLoop search cKeyPath value (fuel + 1) { s with cNewData := cNewData } =
          let s := ({ s with cNewData := cNewData }).copy search iLen
          if s.newplace > newDataSize then some (s.outcome [] .overrun)
          else binaryLoop search cKeyPath value fuel s := by
        intro cNewData
        rw [binaryLoop, Scan.find_eq]
        simp only [found]
        rw [if_neg (Nat.not_lt.mpr fits)]
      by_cases beyond : newDataSize < (s.copy search iLen).newplace
      · refine ⟨_, fun cNewData => ⟨(({ s with cNewData := cNewData }).copy search iLen).outcome [] .overrun,
          ?_, rfl, copy_crosses fits room beyond cNewData⟩⟩
        rw [run]
        exact if_pos beyond
      · have later : e ∈ search.ends (searched value s.cValueData) fuel (s.copy search iLen).oldplace
            (s.copy search iLen).newplace := by
          rcases List.mem_cons.mp mem with rfl | later
          · exact (beyond crosses.1).elim
          · exact later
        obtain ⟨behind, rest⟩ := ih (Nat.not_lt.mp beyond) ⟨e, later, crosses⟩
        refine ⟨behind, fun cNewData => ?_⟩
        have keep : ¬ (({ s with cNewData := cNewData }).copy search iLen).newplace > newDataSize := beyond
        rw [run]
        dsimp only
        rw [if_neg keep]
        exact rest _

section memwcsSearch

variable {t : Texts}

/-- Some wide replacement ends behind `cNewData`, and would not if the replacement had one byte for
    each of its characters. -/
def WideTexts.RunsOver (w : WideTexts t) (rest : Nat → List CHAR) : Prop :=
  ∃ e ∈ (memwcsSearch w).ends rest (valueDataSize + 2) 0 0,
    newDataSize < e ∧ e ≤ newDataSize + t.cTo.length

theorem crosses_memwcs (w : WideTexts t) (e : Nat) :
    (memwcsSearch w).Crosses e ↔ newDataSize < e ∧ e ≤ newDataSize + t.cTo.length := by
  have copied : (memwcsSearch w).copied.length = t.cTo.length * 2 := by
    rw [← w.copied]
    exact length_bytes w.wcTo
  have iToLen : (memwcsSearch w).iToLen = t.cTo.length := rfl
  rw [Search.Crosses, copied, iToLen]
  omega

theorem WideTexts.runsOver_iff (w : WideTexts t) (rest : Nat → List CHAR) : w.RunsOver rest ↔
    ∃ e ∈ (memwcsSearch w).ends rest (valueDataSize + 2) 0 0, (memwcsSearch w).Crosses e := by
  simp only [crosses_memwcs]
  rfl

theorem memstr_data (t : Texts) (m : Cells CHAR) (data : List CHAR) :
    memstr (m.write 0 data) 0 t.cFrom data.length = firstAt t.cFrom data := by
  rw [memstr_eq _ _ t.nonempty, Cells.read_write_same]

theorem not_crosses_memstr (t : Texts) (e : Nat) : ¬ (memstrSearch t).Crosses e := by
  have copied : (memstrSearch t).copied.length = (memstrSearch t).iToLen := rfl
  rw [Search.Crosses, copied]
  omega

end memwcsSearch

end Regrepl
