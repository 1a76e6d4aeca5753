import LtrData.Lab3.GameGrid

namespace Lab3

def previewCheckWinner (matrix : GameMatrix) (column row : Int) (playerColor : Nat) : Nat :=
  let verticals := verticalMarkers matrix column row playerColor
  let horizontals := horizontalMarkers matrix column row playerColor
  let forwards := forwardLeaningMarkers matrix column row playerColor
  let backwards := backwardsLeaningMarkers matrix column row playerColor
  if verticals ≥ 3 then verticals
  else if horizontals ≥ 3 then horizontals
  else if forwards ≥ 3 then forwards
  else if backwards ≥ 3 then backwards
  else if verticals = 2 then verticals
  else if horizontals = 2 then horizontals
  else if forwards = 2 then forwards
  else if backwards = 2 then backwards
  else 0

/-- One pass over columns of the board: the first one whose value is high enough, or the values.
    A full column keeps the value it had. -/
def previewLoop (matrix : GameMatrix) (color : Nat) :
    List (Fin 7) → (columnValue : Fin 7 → Nat) → Fin 7 ⊕ (Fin 7 → Nat)
  | [], columnValue => .inr columnValue
  | column :: columns, columnValue =>
    match lookupPosition matrix column with
    | none => previewLoop matrix color columns columnValue
    | some row =>
      let value := previewCheckWinner matrix column row color
      if value ≥ 3 then .inl column
      else previewLoop matrix color columns (Function.update columnValue column value)

/-- The last strategy, where `coins i` is the outcome of `Math.random() < 0.5` in the round `i`. -/
def middleLoop (matrix : GameMatrix) (coins : Fin 4 → Bool) (lastRandom : Fin 7) :
    List (Fin 4) → Fin 7
  | [] => lastRandom
  | i :: rounds =>
    let right : Fin 7 := ⟨3 + i, by omega⟩
    let left : Fin 7 := ⟨3 - i, by omega⟩
    let checkColumn1 := if coins i then right else left
    let checkColumn2 := if coins i then left else right
    if (lookupPosition matrix checkColumn1).isSome then checkColumn1
    else if (lookupPosition matrix checkColumn2).isSome then checkColumn2
    else middleLoop matrix coins lastRandom rounds

def testInsert (matrix : GameMatrix) (playerColor : Nat) (coins : Fin 4 → Bool)
    (lastRandom : Fin 7) : Fin 7 :=
  match previewLoop matrix playerColor (List.finRange 7) (fun _ => 0) with
  | .inl column => column
  | .inr columnValue =>
    match previewLoop matrix (oponentColor playerColor) (List.finRange 7) columnValue with
    | .inl column => column
    | .inr columnValue =>
      match (List.finRange 7).find? (fun column => columnValue column = 2) with
      | some column => column
      | none => middleLoop matrix coins lastRandom (List.finRange 4)

/-- A move into the column wins at once. -/
def Wins (matrix : GameMatrix) (column : Fin 7) (color : Nat) : Prop :=
  (doMove matrix column color).1 = .ok win

section previews

variable {matrix : GameMatrix} {column : Fin 7} {row : Fin 6} {color : Nat}

/-- The counts do not look at the cell that they start from. -/
theorem outward_insertMarker (color : Nat) {dx dy : Int} (moves : dx ≠ 0 ∨ dy ≠ 0) (steps s : Nat) :
    outward (insertMarker matrix column row color) color dx dy steps
        (column + s * dx) (row + s * dy) =
      outward matrix color dx dy steps (column + s * dx) (row + s * dy) := by
  induction steps generalizing s with
  | zero => rfl
  | succ steps ih =>
    have next : ∀ z dz : Int, z + s * dz + dz = z + (s + 1 : Nat) * dz := by
      intro z dz
      have twice := @moved_twice z dz s 1 (s + 1 : Nat) (by omega)
      rwa [Int.one_mul] at twice
    have away : ∀ z dz : Int, z + (s + 1 : Nat) * dz = z → dz = 0 := by
      intro z dz same
      have product : ((s + 1 : Nat) : Int) * dz = 0 := by omega
      exact (Int.mul_eq_zero.mp product).resolve_left (by omega)
    have cell : checkBounds (insertMarker matrix column row color) (column + (s + 1 : Nat) * dx)
          (row + (s + 1 : Nat) * dy) =
        checkBounds matrix (column + (s + 1 : Nat) * dx) (row + (s + 1 : Nat) * dy) := by
      rw [checkBounds, checkBounds]
      split
      · next inside =>
        apply insertMarker_of_ne
        intro same
        have first := congrArg (fun c : Fin 7 => (c.val : Int)) same.1
        have second := congrArg (fun r : Fin 6 => (r.val : Int)) same.2
        simp only [Int.toNat_of_nonneg inside.1.1, Int.toNat_of_nonneg inside.2.1] at first second
        rcases moves with moves | moves
        · exact moves (away _ _ first)
        · exact moves (away _ _ second)
      · rfl
    rw [outward, outward, next, next, cell, ih]

theorem outward_insertMarker_start (color : Nat) {dx dy : Int} (moves : dx ≠ 0 ∨ dy ≠ 0)
    (steps : Nat) :
    outward (insertMarker matrix column row color) color dx dy steps column row =
      outward matrix color dx dy steps column row := by
  have start := @outward_insertMarker matrix column row color dx dy moves steps 0
  simpa using start

/-- Three markers or more in one of the four lines. -/
def Three (matrix : GameMatrix) (column row : Int) (color : Nat) : Prop :=
  3 ≤ verticalMarkers matrix column row color ∨ 3 ≤ horizontalMarkers matrix column row color ∨
    3 ≤ forwardLeaningMarkers matrix column row color ∨
    3 ≤ backwardsLeaningMarkers matrix column row color

theorem three_insertMarker :
    Three (insertMarker matrix column row color) column row color ↔ Three matrix column row color := by
  simp only [Three, verticalMarkers, horizontalMarkers, forwardLeaningMarkers,
    backwardsLeaningMarkers]
  rw [outward_insertMarker_start color (by decide), outward_insertMarker_start color (by decide),
    outward_insertMarker_start color (by decide), outward_insertMarker_start color (by decide),
    outward_insertMarker_start color (by decide), outward_insertMarker_start color (by decide),
    outward_insertMarker_start color (by decide), outward_insertMarker_start color (by decide)]

theorem checkWinner_eq_win_iff :
    checkWinner matrix column row = win ↔ Three matrix column row (matrix column row) := by
  rw [checkWinner, Three]
  by_cases vertical : verticalMarkers matrix column row (matrix column row) ≥ 3
  · simp [vertical]
  by_cases horizontal : horizontalMarkers matrix column row (matrix column row) ≥ 3
  · simp [horizontal]
  by_cases forward : forwardLeaningMarkers matrix column row (matrix column row) ≥ 3
  · simp [forward]
  by_cases backwards : backwardsLeaningMarkers matrix column row (matrix column row) ≥ 3
  · simp [backwards]
  rw [if_neg vertical, if_neg horizontal, if_neg forward, if_neg backwards]
  have other : (if ∃ c r, matrix c r = 0 then noWinner else drawn) ≠ win := by split <;> decide
  exact iff_of_false other fun three => three.elim vertical fun three =>
    three.elim horizontal fun three => three.elim forward backwards

theorem three_le_previewCheckWinner_iff {x y : Int} :
    3 ≤ previewCheckWinner matrix x y color ↔ Three matrix x y color := by
  rw [previewCheckWinner, Three]
  split_ifs <;> omega

theorem wins_iff (found : lookupPosition matrix column = some row) :
    Wins matrix column color ↔ 3 ≤ previewCheckWinner matrix column row color := by
  rw [Wins, doMove_eq, found, three_le_previewCheckWinner_iff, ← three_insertMarker]
  dsimp only
  rw [Except.ok.injEq, checkWinner_eq_win_iff, insertMarker_same]

theorem not_wins_of_full (found : lookupPosition matrix column = none) :
    ¬ Wins matrix column color := by
  intro wins
  rw [Wins, doMove_eq, found] at wins
  cases wins

/-- As long as the player has no line, to win is to make one. -/
theorem wins_iff_hasLine (no_line : ¬ HasLine matrix color) (color_ne : color ≠ 3) :
    Wins matrix column color ↔
      ∃ row, LowestFree matrix column row ∧ HasLine (insertMarker matrix column row color) color := by
  by_cases some_ : ∃ row, matrix column row = 0
  · obtain ⟨row, lowest, moved⟩ := doMove_of_free no_line color_ne some_
    rw [Wins, moved]
    constructor
    · intro verdict
      by_contra none_
      rw [if_neg fun line => none_ ⟨row, lowest, line⟩] at verdict
      split at verdict <;> cases verdict
    · intro line
      obtain ⟨row', lowest', line⟩ := line
      have same : row' = row := by
        rcases Nat.lt_trichotomy row' row with less | same | more
        · exact absurd lowest.1 (lowest'.2 row less)
        · exact Fin.ext same
        · exact absurd lowest'.1 (lowest.2 row' more)
      rw [same] at line
      rw [if_pos line]
  · have full : ∀ row, matrix column row ≠ 0 := fun row free => some_ ⟨row, free⟩
    refine iff_of_false ?_ fun line => ?_
    · rw [Wins, doMove_of_full full]
      intro verdict
      cases verdict
    · obtain ⟨row, lowest, -⟩ := line
      exact full row lowest.1

end previews

section choices

variable {matrix : GameMatrix} {column : Fin 7} {color : Nat} {columns : List (Fin 7)}
  {columnValue columnValue' : Fin 7 → Nat} {coins : Fin 4 → Bool} {lastRandom : Fin 7}

theorem free_of_wins (wins : Wins matrix column color) : ∃ row, matrix column row = 0 := by
  cases found : lookupPosition matrix column with
  | none => exact absurd wins (not_wins_of_full found)
  | some row => exact ⟨row, (lookupPosition_some found).1⟩

theorem previewLoop_inl (found : previewLoop matrix color columns columnValue = .inl column) :
    Wins matrix column color := by
  induction columns generalizing columnValue with
  | nil => cases found
  | cons first columns ih =>
    rw [previewLoop] at found
    split at found
    · exact ih found
    · next row position =>
      dsimp only at found
      split at found
      · next three =>
        obtain rfl := Sum.inl.inj found
        exact (wins_iff position).mpr three
      · exact ih found

/-- A pass that goes through: nobody wins in its columns, and full columns keep their values. -/
theorem previewLoop_inr (found : previewLoop matrix color columns columnValue = .inr columnValue') :
    (∀ column ∈ columns, ¬ Wins matrix column color) ∧
      ∀ column, lookupPosition matrix column = none → columnValue' column = columnValue column := by
  induction columns generalizing columnValue with
  | nil =>
    obtain rfl := Sum.inr.inj found
    exact ⟨fun column mem => absurd mem List.not_mem_nil, fun _ _ => rfl⟩
  | cons first columns ih =>
    rw [previewLoop] at found
    split at found
    · next full =>
      obtain ⟨no_wins, kept⟩ := ih found
      refine ⟨fun column mem => ?_, kept⟩
      rcases List.mem_cons.mp mem with rfl | mem
      · exact not_wins_of_full full
      · exact no_wins column mem
    · next row position =>
      dsimp only at found
      split at found
      · cases found
      · next less =>
        obtain ⟨no_wins, kept⟩ := ih found
        refine ⟨fun column mem => ?_, fun column full => ?_⟩
        · rcases List.mem_cons.mp mem with rfl | mem
          · exact mt (wins_iff position).mp less
          · exact no_wins column mem
        · have other : column ≠ first := fun same => by
            rw [same, position] at full
            cases full
          rw [kept column full, Function.update_of_ne other]

/-- A round chooses a free column if it checks one, and else leaves the choice to the next one. -/
theorem round_free {first second rest : Fin 7} (some_ : (lookupPosition matrix first).isSome ∨
      (lookupPosition matrix second).isSome ∨ (lookupPosition matrix rest).isSome) :
    (lookupPosition matrix
      (if (lookupPosition matrix first).isSome then first
        else if (lookupPosition matrix second).isSome then second else rest)).isSome := by
  by_cases free : (lookupPosition matrix first).isSome
  · rwa [if_pos free]
  · by_cases free' : (lookupPosition matrix second).isSome
    · rwa [if_neg free, if_pos free']
    · rw [if_neg free, if_neg free']
      exact (some_.resolve_left free).resolve_left free'

theorem middleLoop_free {rounds : List (Fin 4)} (some_ : ∃ i ∈ rounds,
      (lookupPosition matrix ⟨3 + i, by omega⟩).isSome ∨
        (lookupPosition matrix ⟨3 - i, by omega⟩).isSome) :
    (lookupPosition matrix (middleLoop matrix coins lastRandom rounds)).isSome := by
  induction rounds with
  | nil =>
    obtain ⟨i, mem, -⟩ := some_
    cases mem
  | cons round rounds ih =>
    obtain ⟨i, mem, free⟩ := some_
    apply round_free
    rcases List.mem_cons.mp mem with rfl | mem
    · cases coins i with
      | true => exact free.elim Or.inl fun left => Or.inr (Or.inl left)
      | false => exact free.elim (fun right => Or.inr (Or.inl right)) Or.inl
    · exact Or.inr (Or.inr (ih ⟨i, mem, free⟩))

/-- The rounds get to every column. -/
theorem middle_covers (column : Fin 7) :
    ∃ i ∈ List.finRange 4, column = ⟨3 + i, by omega⟩ ∨ column = ⟨3 - i, by omega⟩ := by
  have bound := column.isLt
  by_cases right : 3 ≤ column.val
  · exact ⟨⟨column - 3, by omega⟩, List.mem_finRange _, Or.inl (Fin.ext (by simp only; omega))⟩
  · exact ⟨⟨3 - column, by omega⟩, List.mem_finRange _, Or.inr (Fin.ext (by simp only; omega))⟩

/-- Whatever the random numbers are, the chosen column is free, wins if some column does, and else
    blocks a column where the oponent would win. -/
theorem testInsert_chooses (playerColor : Nat) (coins : Fin 4 → Bool) (lastRandom : Fin 7)
    (some_ : ∃ column row, matrix column row = 0) :
    (∃ row, matrix (testInsert matrix playerColor coins lastRandom) row = 0) ∧
    ((∃ column, Wins matrix column playerColor) →
      Wins matrix (testInsert matrix playerColor coins lastRandom) playerColor) ∧
    ((¬ ∃ column, Wins matrix column playerColor) →
      (∃ column, Wins matrix column (oponentColor playerColor)) →
      Wins matrix (testInsert matrix playerColor coins lastRandom) (oponentColor playerColor)) := by
  rw [testInsert]
  split
  · next column first =>
    have wins := previewLoop_inl first
    exact ⟨free_of_wins wins, fun _ => wins, fun none_ => absurd ⟨column, wins⟩ none_⟩
  · next columnValue first =>
    obtain ⟨no_wins, kept⟩ := previewLoop_inr first
    split
    · next column second =>
      have blocks := previewLoop_inl second
      exact ⟨free_of_wins blocks,
        fun wins => absurd wins.choose_spec (no_wins _ (List.mem_finRange _)), fun _ _ => blocks⟩
    · next columnValue' second =>
      obtain ⟨no_blocks, kept'⟩ := previewLoop_inr second
      refine ⟨?_, fun wins => absurd wins.choose_spec (no_wins _ (List.mem_finRange _)),
        fun _ blocks => absurd blocks.choose_spec (no_blocks _ (List.mem_finRange _))⟩
      have free : ∀ column, (lookupPosition matrix column).isSome → ∃ row, matrix column row = 0 := by
        intro column position
        obtain ⟨row, position⟩ := Option.isSome_iff_exists.mp position
        exact ⟨row, (lookupPosition_some position).1⟩
      apply free
      split
      · next column third =>
        -- a full column still has the value 0 that it had at first
        have two := List.find?_some third
        rw [Option.isSome_iff_ne_none]
        intro full
        rw [kept' column full, kept column full] at two
        cases two
      · obtain ⟨column, row, cell⟩ := some_
        have position : (lookupPosition matrix column).isSome := by
          rw [Option.isSome_iff_ne_none]
          exact fun full => lookupPosition_none full row cell
        obtain ⟨i, mem, same⟩ := middle_covers column
        refine middleLoop_free ⟨i, mem, ?_⟩
        rcases same with rfl | rfl
        · exact Or.inl position
        · exact Or.inr position

/-- Three markers of the color 2 in the lowest row. -/
def threatened : GameMatrix := fun column row => if column.val < 3 ∧ row.val = 5 then 2 else 0

theorem threatened_chooses :
    (∃ row, threatened (testInsert threatened 1 (fun _ => true) 0) row = 0) ∧
    ((∃ column, Wins threatened column 1) →
      Wins threatened (testInsert threatened 1 (fun _ => true) 0) 1) ∧
    ((¬ ∃ column, Wins threatened column 1) → (∃ column, Wins threatened column (oponentColor 1)) →
      Wins threatened (testInsert threatened 1 (fun _ => true) 0) (oponentColor 1)) :=
  testInsert_chooses 1 (fun _ => true) 0 ⟨0, 0, rfl⟩

example : testInsert threatened 1 (fun _ => true) 0 = 3 := by decide +kernel

end choices

end Lab3
