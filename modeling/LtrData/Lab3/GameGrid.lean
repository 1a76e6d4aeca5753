import Mathlib.Data.Fintype.Basic
import Mathlib.Logic.Function.Basic
import Mathlib.Tactic.Common

namespace Lab3

/-- The columns from the left, with the cells of each from the top. A free cell has the color 0. -/
abbrev GameMatrix := Fin 7 → Fin 6 → Nat

inductive MoveException
  | invalidMove
  | indexOutOfBounds
deriving DecidableEq

def clear : GameMatrix := fun _ _ => 0

def lookupLoop (cells : Fin 6 → Nat) : Nat → Option (Fin 6)
  | 0 => none
  | i + 1 =>
    if inside : i < 6 then
      if cells ⟨i, inside⟩ = 0 then some ⟨i, inside⟩ else lookupLoop cells i
    else none

/-- The lowest free row of a column, or none, where the source throws InvalidMoveException. -/
def lookupPosition (matrix : GameMatrix) (column : Fin 7) : Option (Fin 6) :=
  lookupLoop (matrix column) 6

def insertMarker (matrix : GameMatrix) (column : Fin 7) (row : Fin 6) (playerColor : Nat) :
    GameMatrix :=
  Function.update matrix column (Function.update (matrix column) row playerColor)

/-- The color of a cell, and 3 outside the board. -/
def checkBounds (matrix : GameMatrix) (column row : Int) : Nat :=
  if inside : (0 ≤ column ∧ column < 7) ∧ 0 ≤ row ∧ row < 6 then
    matrix ⟨column.toNat, by omega⟩ ⟨row.toNat, by omega⟩
  else 3

/-- The counting loop of the four functions below: the cells of the color on the way from `x`, `y`
    in one direction, without that cell. -/
def outward (matrix : GameMatrix) (playerColor : Nat) (dx dy : Int) : Nat → (x y : Int) → Nat
  | 0, _, _ => 0
  | steps + 1, x, y =>
    if checkBounds matrix (x + dx) (y + dy) ≠ playerColor then 0
    else outward matrix playerColor dx dy steps (x + dx) (y + dy) + 1

def verticalMarkers (matrix : GameMatrix) (x y : Int) (playerColor : Nat) : Nat :=
  outward matrix playerColor 0 1 (5 - y).toNat x y + outward matrix playerColor 0 (-1) y.toNat x y

def horizontalMarkers (matrix : GameMatrix) (x y : Int) (playerColor : Nat) : Nat :=
  outward matrix playerColor 1 0 (6 - x).toNat x y + outward matrix playerColor (-1) 0 x.toNat x y

def forwardLeaningMarkers (matrix : GameMatrix) (x y : Int) (playerColor : Nat) : Nat :=
  outward matrix playerColor 1 1 6 x y + outward matrix playerColor (-1) (-1) 6 x y

def backwardsLeaningMarkers (matrix : GameMatrix) (x y : Int) (playerColor : Nat) : Nat :=
  outward matrix playerColor 1 (-1) 6 x y + outward matrix playerColor (-1) 1 6 x y

def noWinner : Nat := 0

def win : Nat := 1

def drawn : Nat := 2

def checkWinner (matrix : GameMatrix) (column : Fin 7) (row : Fin 6) : Nat :=
  if verticalMarkers matrix column row (matrix column row) ≥ 3 then win
  else if horizontalMarkers matrix column row (matrix column row) ≥ 3 then win
  else if forwardLeaningMarkers matrix column row (matrix column row) ≥ 3 then win
  else if backwardsLeaningMarkers matrix column row (matrix column row) ≥ 3 then win
  else if ∃ c r, matrix c r = 0 then noWinner
  else drawn

/-- The result or the exception of a move, and the board behind it. -/
def doMove (matrix : GameMatrix) (column : Int) (playerColor : Nat) :
    Except MoveException Nat × GameMatrix :=
  if column < 7 then
    if inside : 0 ≤ column ∧ column < 7 then
      match lookupPosition matrix ⟨column.toNat, by omega⟩ with
      | none => (.error .invalidMove, matrix)
      | some row =>
        let matrix := insertMarker matrix ⟨column.toNat, by omega⟩ row playerColor
        (.ok (checkWinner matrix ⟨column.toNat, by omega⟩ row), matrix)
    else (.error .indexOutOfBounds, matrix)
  else (.error .invalidMove, matrix)

def oponentColor (playerColor : Nat) : Nat := if playerColor = 1 then 2 else 1

def IsPlayer (color : Nat) : Prop := color = 1 ∨ color = 2

/-- The boards that alternating moves lead to, with the color that has the next move. -/
inductive Reachable : GameMatrix → Nat → Prop
  | clear {color : Nat} (player : IsPlayer color) : Reachable clear color
  | move {matrix matrix' : GameMatrix} {color verdict : Nat} {column : Int}
      (before : Reachable matrix color) (moved : doMove matrix column color = (.ok verdict, matrix')) :
      Reachable matrix' (oponentColor color)

/-- The cell is on the board and has the color. -/
def Marked (matrix : GameMatrix) (color : Nat) (x y : Int) : Prop :=
  ∃ (column : Fin 7) (row : Fin 6), (column : Int) = x ∧ (row : Int) = y ∧ matrix column row = color

instance (matrix : GameMatrix) (color : Nat) (x y : Int) : Decidable (Marked matrix color x y) :=
  inferInstanceAs (Decidable (∃ (_ : Fin 7) (_ : Fin 6), _))

def directions : List (Int × Int) := [(0, 1), (1, 0), (1, 1), (1, -1)]

/-- Somewhere on the board the player has four markers in a line. -/
def HasLine (matrix : GameMatrix) (color : Nat) : Prop :=
  ∃ (x : Fin 7) (y : Fin 6), ∃ d ∈ directions,
    ∀ k : Fin 4, Marked matrix color (x + k * d.1) (y + k * d.2)

instance (matrix : GameMatrix) (color : Nat) : Decidable (HasLine matrix color) :=
  inferInstanceAs (Decidable (∃ (_ : Fin 7) (_ : Fin 6), ∃ d ∈ directions, _))

/-- The free cell of the column that has the others of the column below it. -/
def LowestFree (matrix : GameMatrix) (column : Fin 7) (row : Fin 6) : Prop :=
  matrix column row = 0 ∧ ∀ below, row < below → matrix column below ≠ 0

/-- Markers lie on markers. -/
def Supported (matrix : GameMatrix) : Prop :=
  ∀ column row below, row < below → matrix column row ≠ 0 → matrix column below ≠ 0

section positions

variable {matrix : GameMatrix} {column c : Fin 7} {row r : Fin 6} {color : Nat} {cells : Fin 6 → Nat}

theorem lookupLoop_some {n : Nat} (found : lookupLoop cells n = some row) :
    cells row = 0 ∧ ∀ below, row < below → below.val < n → cells below ≠ 0 := by
  induction n with
  | zero => cases found
  | succ n ih =>
    rw [lookupLoop] at found
    split at found
    · next inside =>
      split at found
      · next free =>
        obtain rfl := Option.some.inj found
        exact ⟨free, fun below lower upper => absurd (Fin.lt_def.mp lower) (by simp only; omega)⟩
      · next taken =>
        obtain ⟨free, below_taken⟩ := ih found
        refine ⟨free, fun below lower upper => ?_⟩
        rcases Nat.lt_or_eq_of_le (Nat.le_of_lt_succ upper) with less | same
        · exact below_taken below lower less
        · have here : below = ⟨n, inside⟩ := Fin.ext same
          rw [here]
          exact taken
    · cases found

theorem lookupLoop_none {n : Nat} (le : n ≤ 6) (found : lookupLoop cells n = none) :
    ∀ row, row.val < n → cells row ≠ 0 := by
  induction n with
  | zero => exact fun row below => absurd below (Nat.not_lt_zero _)
  | succ n ih =>
    rw [lookupLoop, dif_pos (show n < 6 by omega)] at found
    split at found
    · cases found
    · next taken =>
      intro row below
      rcases Nat.lt_or_eq_of_le (Nat.le_of_lt_succ below) with less | same
      · exact ih (by omega) found row less
      · have here : row = ⟨n, by omega⟩ := Fin.ext same
        rw [here]
        exact taken

theorem lookupPosition_some (found : lookupPosition matrix column = some row) :
    LowestFree matrix column row := by
  obtain ⟨free, below_taken⟩ := lookupLoop_some found
  exact ⟨free, fun below lower => below_taken below lower below.isLt⟩

theorem lookupPosition_none (found : lookupPosition matrix column = none) :
    ∀ row, matrix column row ≠ 0 :=
  fun row => lookupLoop_none (Nat.le_refl 6) found row row.isLt

theorem lookupPosition_of_full (full : ∀ row, matrix column row ≠ 0) :
    lookupPosition matrix column = none := by
  cases found : lookupPosition matrix column with
  | none => rfl
  | some row => exact absurd (lookupPosition_some found).1 (full row)

@[simp] theorem insertMarker_same (matrix : GameMatrix) (column : Fin 7) (row : Fin 6) (color : Nat) :
    insertMarker matrix column row color column row = color := by simp [insertMarker]

theorem insertMarker_of_ne (other : ¬ (c = column ∧ r = row)) :
    insertMarker matrix column row color c r = matrix c r := by
  rw [insertMarker]
  by_cases same : c = column
  · subst same
    rw [Function.update_self, Function.update_of_ne fun here => other ⟨rfl, here⟩]
  · rw [Function.update_of_ne same]

theorem doMove_eq (matrix : GameMatrix) (column : Fin 7) (color : Nat) :
    doMove matrix column color =
      match lookupPosition matrix column with
      | none => (.error .invalidMove, matrix)
      | some row => (.ok (checkWinner (insertMarker matrix column row color) column row),
          insertMarker matrix column row color) := by
  have upper := column.isLt
  have inside : (0 : Int) ≤ (column : Int) ∧ (column : Int) < 7 := by omega
  have same : (⟨(column : Int).toNat, by omega⟩ : Fin 7) = column := Fin.ext (by simp)
  rw [doMove, if_pos inside.2, dif_pos inside]
  simp only [same]

theorem doMove_ok {matrix' : GameMatrix} {column : Int} {verdict : Nat}
    (moved : doMove matrix column color = (.ok verdict, matrix')) :
    ∃ (c : Fin 7) (row : Fin 6), column = c ∧ LowestFree matrix c row ∧
      matrix' = insertMarker matrix c row color ∧ verdict = checkWinner matrix' c row := by
  rw [doMove] at moved
  split at moved
  · split at moved
    · next inside =>
      split at moved
      · cases (Prod.mk.inj moved).1
      · next row found =>
        obtain ⟨first, second⟩ := Prod.mk.inj moved
        refine ⟨⟨column.toNat, by omega⟩, row, by simp only; omega, lookupPosition_some found,
          second.symm, ?_⟩
        rw [← second]
        exact (Except.ok.inj first).symm
    · cases (Prod.mk.inj moved).1
  · cases (Prod.mk.inj moved).1

theorem Supported.insertMarker (supported : Supported matrix) (lowest : LowestFree matrix column row)
    (marker : color ≠ 0) : Supported (insertMarker matrix column row color) := by
  intro c r below lower taken
  by_cases here : c = column ∧ below = row
  · rw [here.1, here.2, insertMarker_same]
    exact marker
  · rw [insertMarker_of_ne here]
    by_cases same : c = column ∧ r = row
    · obtain ⟨rfl, rfl⟩ := same
      exact lowest.2 below lower
    · rw [insertMarker_of_ne same] at taken
      exact supported c r below lower taken

theorem IsPlayer.oponent (player : IsPlayer color) : IsPlayer (oponentColor color) := by
  rcases player with rfl | rfl
  · exact Or.inr rfl
  · exact Or.inl rfl

theorem Reachable.player (reachable : Reachable matrix color) : IsPlayer color := by
  induction reachable with
  | clear player => exact player
  | move _ _ ih => exact ih.oponent

theorem Reachable.supported (reachable : Reachable matrix color) : Supported matrix := by
  induction reachable with
  | clear player => exact fun column row below lower taken => absurd rfl taken
  | move before moved ih =>
    obtain ⟨c, row, -, lowest, rfl, -⟩ := doMove_ok moved
    apply ih.insertMarker lowest
    rcases before.player with rfl | rfl <;> decide

end positions

section lines

variable {matrix : GameMatrix} {color : Nat} {x y dx dy : Int} {k n m : Nat}

theorem checkBounds_eq_iff (color_ne : color ≠ 3) :
    checkBounds matrix x y = color ↔ Marked matrix color x y := by
  rw [checkBounds]
  split
  · next inside =>
    constructor
    · intro same
      exact ⟨_, _, by simp only; omega, by simp only; omega, same⟩
    · intro marked
      obtain ⟨column, row, rfl, rfl, same⟩ := marked
      simpa using same
  · next outside =>
    refine iff_of_false (fun same => color_ne same.symm) fun marked => outside ?_
    obtain ⟨column, row, rfl, rfl, -⟩ := marked
    have upper := column.isLt
    have lower := row.isLt
    omega

theorem Marked.inside (marked : Marked matrix color x y) : (0 ≤ x ∧ x ≤ 6) ∧ 0 ≤ y ∧ y ≤ 5 := by
  obtain ⟨column, row, rfl, rfl, -⟩ := marked
  have upper := column.isLt
  have lower := row.isLt
  omega

theorem moved_twice (z dz : Int) {a b c : Int} (sum : a + b = c) :
    z + a * dz + b * dz = z + c * dz := by
  rw [Int.add_assoc, ← Int.add_mul, sum]

/-- The cells next to `x`, `y` in one direction have the color, `k` of them. -/
def Ahead (matrix : GameMatrix) (color : Nat) (x y dx dy : Int) (k : Nat) : Prop :=
  ∀ i : Nat, i < k → Marked matrix color (x + (i + 1) * dx) (y + (i + 1) * dy)

theorem Ahead.succ_iff : Ahead matrix color x y dx dy (k + 1) ↔
    Marked matrix color (x + dx) (y + dy) ∧ Ahead matrix color (x + dx) (y + dy) dx dy k := by
  have next : ∀ (z dz : Int) (i : Nat), z + ((i + 1 : Nat) + 1) * dz = z + dz + (i + 1) * dz := by
    intro z dz i
    have twice := @moved_twice z dz 1 (i + 1) ((i + 1 : Nat) + 1) (by omega)
    rw [Int.one_mul] at twice
    exact twice.symm
  constructor
  · intro ahead
    refine ⟨by simpa using ahead 0 (Nat.zero_lt_succ k), fun i below => ?_⟩
    have cell := ahead (i + 1) (Nat.succ_lt_succ below)
    rwa [next, next] at cell
  · intro facts i below
    rcases i with - | i
    · simpa using facts.1
    · rw [next, next]
      exact facts.2 i (Nat.lt_of_succ_lt_succ below)

theorem le_outward_iff (color_ne : color ≠ 3) :
    k ≤ outward matrix color dx dy n x y ↔ k ≤ n ∧ Ahead matrix color x y dx dy k := by
  induction n generalizing x y k with
  | zero =>
    rw [outward, Nat.le_zero]
    constructor
    · intro nothing
      subst nothing
      exact ⟨rfl, fun i below => absurd below (Nat.not_lt_zero i)⟩
    · exact fun facts => facts.1
  | succ n ih =>
    rcases k with - | k
    · exact iff_of_true (Nat.zero_le _) ⟨Nat.zero_le _, fun i below => absurd below (Nat.not_lt_zero i)⟩
    · rw [outward, Ahead.succ_iff, ← checkBounds_eq_iff color_ne]
      split
      · next other => exact iff_of_false (Nat.not_succ_le_zero k) fun facts => other facts.2.1
      · next same =>
        rw [Nat.add_le_add_iff_right, ih, Nat.add_le_add_iff_right]
        have here := Decidable.not_not.mp same
        exact ⟨fun facts => ⟨facts.1, here, facts.2⟩, fun facts => ⟨facts.1, facts.2.2⟩⟩

/-- Of four cells in a line `x`, `y` is one and the other three have the color. -/
def Through (matrix : GameMatrix) (color : Nat) (x y : Int) (d : Int × Int) : Prop :=
  ∃ j ≤ 3, Ahead matrix color x y d.1 d.2 (3 - j) ∧ Ahead matrix color x y (-d.1) (-d.2) j

theorem three_le_iff (color_ne : color ≠ 3)
    (forth : ∀ k ≤ 3, Ahead matrix color x y dx dy k → k ≤ n)
    (back : ∀ k ≤ 3, Ahead matrix color x y (-dx) (-dy) k → k ≤ m) :
    3 ≤ outward matrix color dx dy n x y + outward matrix color (-dx) (-dy) m x y ↔
      Through matrix color x y (dx, dy) := by
  constructor
  · intro enough
    let b := outward matrix color (-dx) (-dy) m x y
    have ahead : 3 - min b 3 ≤ outward matrix color dx dy n x y := by omega
    have behind : min b 3 ≤ b := Nat.min_le_left b 3
    exact ⟨min b 3, Nat.min_le_right b 3, ((le_outward_iff color_ne).mp ahead).2,
      ((le_outward_iff color_ne).mp behind).2⟩
  · intro through
    obtain ⟨j, le, ahead, behind⟩ := through
    have first : 3 - j ≤ outward matrix color dx dy n x y :=
      (le_outward_iff color_ne).mpr ⟨forth _ (Nat.sub_le 3 j) ahead, ahead⟩
    have second : j ≤ outward matrix color (-dx) (-dy) m x y :=
      (le_outward_iff color_ne).mpr ⟨back _ le behind, behind⟩
    omega

/-- The last of the cells is on the board. -/
theorem Ahead.inside (ahead : Ahead matrix color x y dx dy (k + 1)) :
    (0 ≤ x + (k + 1) * dx ∧ x + (k + 1) * dx ≤ 6) ∧ 0 ≤ y + (k + 1) * dy ∧ y + (k + 1) * dy ≤ 5 :=
  (ahead k (Nat.lt_succ_self k)).inside

/-- Cells on the board are no more than the loop takes steps, if it goes on to the edge. -/
theorem Ahead.le (ahead : Ahead matrix color x y dx dy k)
    (to_edge : ∀ k : Nat, (0 ≤ x + (k + 1) * dx ∧ x + (k + 1) * dx ≤ 6) ∧
      0 ≤ y + (k + 1) * dy ∧ y + (k + 1) * dy ≤ 5 → k < n) : k ≤ n := by
  rcases k with - | k
  · exact Nat.zero_le _
  · exact to_edge k ahead.inside

theorem verticalMarkers_iff (color_ne : color ≠ 3) (inside : 0 ≤ y ∧ y ≤ 5) :
    3 ≤ verticalMarkers matrix x y color ↔ Through matrix color x y (0, 1) := by
  rw [verticalMarkers]
  apply three_le_iff color_ne
  · exact fun k _ ahead => ahead.le fun k bound => by omega
  · exact fun k _ ahead => ahead.le fun k bound => by omega

theorem horizontalMarkers_iff (color_ne : color ≠ 3) (inside : 0 ≤ x ∧ x ≤ 6) :
    3 ≤ horizontalMarkers matrix x y color ↔ Through matrix color x y (1, 0) := by
  rw [horizontalMarkers]
  apply three_le_iff color_ne
  · exact fun k _ ahead => ahead.le fun k bound => by omega
  · exact fun k _ ahead => ahead.le fun k bound => by omega

theorem forwardLeaningMarkers_iff (color_ne : color ≠ 3) :
    3 ≤ forwardLeaningMarkers matrix x y color ↔ Through matrix color x y (1, 1) :=
  three_le_iff color_ne (fun _ le _ => Nat.le_trans le (by decide))
    fun _ le _ => Nat.le_trans le (by decide)

theorem backwardsLeaningMarkers_iff (color_ne : color ≠ 3) :
    3 ≤ backwardsLeaningMarkers matrix x y color ↔ Through matrix color x y (1, -1) :=
  three_le_iff color_ne (fun _ le _ => Nat.le_trans le (by decide))
    fun _ le _ => Nat.le_trans le (by decide)

end lines

section verdicts

variable {matrix : GameMatrix} {column : Fin 7} {row : Fin 6} {color : Nat}

theorem IsPlayer.ne_zero (player : IsPlayer color) : color ≠ 0 := by
  rcases player with rfl | rfl <;> decide

theorem IsPlayer.ne_three (player : IsPlayer color) : color ≠ 3 := by
  rcases player with rfl | rfl <;> decide

theorem checkWinner_eq (color_ne : matrix column row ≠ 3) :
    (checkWinner matrix column row = win ∧
        ∃ d ∈ directions, Through matrix (matrix column row) column row d) ∨
      (checkWinner matrix column row = (if ∃ c r, matrix c r = 0 then noWinner else drawn) ∧
        ¬ ∃ d ∈ directions, Through matrix (matrix column row) column row d) := by
  have upper := column.isLt
  have lower := row.isLt
  have vertical := @verticalMarkers_iff matrix _ column row color_ne (by omega)
  have horizontal := @horizontalMarkers_iff matrix _ column row color_ne (by omega)
  have forward := @forwardLeaningMarkers_iff matrix _ column row color_ne
  have backwards := @backwardsLeaningMarkers_iff matrix _ column row color_ne
  by_cases some_ : ∃ d ∈ directions, Through matrix (matrix column row) column row d
  · refine Or.inl ⟨?_, some_⟩
    obtain ⟨d, mem, through⟩ := some_
    simp only [directions, List.mem_cons, List.not_mem_nil, or_false] at mem
    rw [checkWinner]
    rcases mem with rfl | rfl | rfl | rfl
    · rw [if_pos (vertical.mpr through)]
    · rw [if_pos (horizontal.mpr through), ite_self]
    · rw [if_pos (forward.mpr through), ite_self, ite_self]
    · rw [if_pos (backwards.mpr through), ite_self, ite_self, ite_self]
  · refine Or.inr ⟨?_, some_⟩
    rw [checkWinner, if_neg fun three => some_ ⟨_, by simp [directions], vertical.mp three⟩,
      if_neg fun three => some_ ⟨_, by simp [directions], horizontal.mp three⟩,
      if_neg fun three => some_ ⟨_, by simp [directions], forward.mp three⟩,
      if_neg fun three => some_ ⟨_, by simp [directions], backwards.mp three⟩]

theorem marked_insertMarker {x y : Int}
    (marked : Marked (insertMarker matrix column row color) color x y) :
    ((column : Int) = x ∧ (row : Int) = y) ∨ Marked matrix color x y := by
  obtain ⟨c, r, rfl, rfl, same⟩ := marked
  by_cases here : c = column ∧ r = row
  · exact Or.inl ⟨by rw [here.1], by rw [here.2]⟩
  · rw [insertMarker_of_ne here] at same
    exact Or.inr ⟨c, r, rfl, rfl, same⟩

/-- A line that a move makes goes through its cell. -/
theorem hasLine_insertMarker (no_line : ¬ HasLine matrix color) :
    HasLine (insertMarker matrix column row color) color ↔
      ∃ d ∈ directions, Through (insertMarker matrix column row color) color column row d := by
  constructor
  · intro line
    obtain ⟨x, y, d, mem, cells⟩ := line
    refine ⟨d, mem, ?_⟩
    by_cases here : ∃ j : Fin 4, (column : Int) = x + j * d.1 ∧ (row : Int) = y + j * d.2
    · obtain ⟨j, at_column, at_row⟩ := here
      have bound := j.isLt
      refine ⟨j, by omega, fun i below => ?_, fun i below => ?_⟩
      · have cell := cells ⟨j + 1 + i, by omega⟩
        rw [at_column, at_row]
        have shift : ∀ z dz : Int, z + j * dz + (i + 1) * dz = z + (j + 1 + i : Nat) * dz :=
          fun z dz => moved_twice z dz (by omega)
        rwa [shift, shift]
      · have cell := cells ⟨j - 1 - i, by omega⟩
        rw [at_column, at_row]
        have shift : ∀ z dz : Int, z + j * dz + (i + 1) * -dz = z + (j - 1 - i : Nat) * dz := by
          intro z dz
          rw [Int.mul_neg, ← Int.neg_mul]
          exact moved_twice z dz (by omega)
        rwa [shift, shift]
    · refine absurd ⟨x, y, d, mem, fun k => ?_⟩ no_line
      exact (marked_insertMarker (cells k)).resolve_left fun same => here ⟨k, same⟩
  · intro through
    obtain ⟨d, mem, j, le, ahead, behind⟩ := through
    have cells : ∀ k : Nat, k < 4 → Marked (insertMarker matrix column row color) color
        (column + ((k : Int) - j) * d.1) (row + ((k : Int) - j) * d.2) := by
      intro k below
      rcases Nat.lt_trichotomy k j with less | rfl | more
      · have cell := behind (j - 1 - k) (by omega)
        have shift : ∀ z dz : Int, z + ((j - 1 - k : Nat) + 1) * -dz = z + ((k : Int) - j) * dz := by
          intro z dz
          rw [Int.mul_neg, ← Int.neg_mul, show -(((j - 1 - k : Nat) : Int) + 1) = (k : Int) - j by omega]
        rwa [shift, shift] at cell
      · exact ⟨column, row, by simp, by simp, insertMarker_same _ _ _ _⟩
      · have cell := ahead (k - j - 1) (by omega)
        have shift : ∀ z dz : Int, z + ((k - j - 1 : Nat) + 1) * dz = z + ((k : Int) - j) * dz := by
          intro z dz
          rw [show ((k - j - 1 : Nat) : Int) + 1 = (k : Int) - j by omega]
        rwa [shift, shift] at cell
    obtain ⟨x, y, at_x, at_y, -⟩ := cells 0 (by decide)
    refine ⟨x, y, d, mem, fun k => ?_⟩
    have cell := cells k k.isLt
    have shift : ∀ z dz : Int, z + (((0 : Nat) : Int) - j) * dz + k * dz = z + ((k : Int) - j) * dz :=
      fun z dz => moved_twice z dz (by omega)
    rwa [at_x, at_y, shift, shift]

/-- doMove puts the marker on the lowest free cell and judges the board. -/
theorem doMove_of_free (no_line : ¬ HasLine matrix color) (color_ne : color ≠ 3)
    (some_ : ∃ row, matrix column row = 0) :
    ∃ row, LowestFree matrix column row ∧
      doMove matrix column color =
        (.ok (if HasLine (insertMarker matrix column row color) color then win
          else if ∃ c r, insertMarker matrix column row color c r = 0 then noWinner else drawn),
          insertMarker matrix column row color) := by
  cases found : lookupPosition matrix column with
  | none =>
    obtain ⟨row, free⟩ := some_
    exact absurd free (lookupPosition_none found row)
  | some row =>
    refine ⟨row, lookupPosition_some found, ?_⟩
    rw [doMove_eq, found]
    dsimp only
    have same := insertMarker_same matrix column row color
    have cases_ := @checkWinner_eq (insertMarker matrix column row color) column row (by rwa [same])
    rw [same, ← hasLine_insertMarker no_line] at cases_
    rcases cases_ with ⟨judged, line⟩ | ⟨judged, no_line⟩
    · rw [judged, if_pos line]
    · rw [judged, if_neg no_line]

theorem doMove_of_full (full : ∀ row, matrix column row ≠ 0) :
    doMove matrix column color = (.error .invalidMove, matrix) := by
  rw [doMove_eq, lookupPosition_of_full full]

theorem LowestFree.above_free (lowest : LowestFree matrix column row) (supported : Supported matrix) :
    ∀ above < row, matrix column above = 0 := by
  intro above upper
  by_contra taken
  exact supported column above row upper taken lowest.1

/-- A board on which nobody has won: a move goes to the lowest free cell, on top of the markers of
    its column, and its result is 1 for a line, 2 for a full board and 0 else. -/
theorem doMove_judges {next : Nat} (reachable : Reachable matrix next)
    (no_winner : ∀ color, IsPlayer color → ¬ HasLine matrix color) (player : IsPlayer color) :
    ((∀ row, matrix column row ≠ 0) →
      doMove matrix column color = (.error .invalidMove, matrix)) ∧
    ((∃ row, matrix column row = 0) → ∃ row matrix', LowestFree matrix column row ∧
      (∀ above < row, matrix column above = 0) ∧
      matrix' column row = color ∧
      (∀ c r, ¬ (c = column ∧ r = row) → matrix' c r = matrix c r) ∧
      doMove matrix column color =
        (.ok (if HasLine matrix' color then 1 else if ∀ c r, matrix' c r ≠ 0 then 2 else 0),
          matrix')) := by
  refine ⟨doMove_of_full, fun some_ => ?_⟩
  obtain ⟨row, lowest, moved⟩ := doMove_of_free (no_winner color player) player.ne_three some_
  refine ⟨row, insertMarker matrix column row color, lowest, lowest.above_free reachable.supported,
    insertMarker_same _ _ _ _, fun c r other => insertMarker_of_ne other, ?_⟩
  rw [moved]
  congr 3
  by_cases free : ∃ c r, insertMarker matrix column row color c r = 0
  · rw [if_pos free, if_neg (by simpa using free)]
    rfl
  · rw [if_neg free, if_pos (by simpa using free)]
    rfl

theorem no_line_clear {color : Nat} (player : IsPlayer color) : ¬ HasLine clear color := by
  intro line
  obtain ⟨x, y, d, -, cells⟩ := line
  obtain ⟨c, r, -, -, same⟩ := cells 0
  exact player.ne_zero same.symm

theorem first_move_judged :
    ((∀ row, clear 3 row ≠ 0) → doMove clear (3 : Fin 7) 1 = (.error .invalidMove, clear)) ∧
    ((∃ row, clear 3 row = 0) → ∃ row matrix', LowestFree clear 3 row ∧
      (∀ above < row, clear 3 above = 0) ∧
      matrix' 3 row = 1 ∧
      (∀ c r, ¬ (c = 3 ∧ r = row) → matrix' c r = clear c r) ∧
      doMove clear (3 : Fin 7) 1 =
        (.ok (if HasLine matrix' 1 then 1 else if ∀ c r, matrix' c r ≠ 0 then 2 else 0),
          matrix')) :=
  doMove_judges (Reachable.clear (Or.inl rfl)) (fun _ player => no_line_clear player) (Or.inl rfl)

/-- The boards of a game that goes on as long as a move gives 0. -/
inductive InPlay : GameMatrix → Nat → Prop
  | clear {color : Nat} (player : IsPlayer color) : InPlay clear color
  | move {matrix matrix' : GameMatrix} {color : Nat} {column : Int} (before : InPlay matrix color)
      (moved : doMove matrix column color = (.ok noWinner, matrix')) :
      InPlay matrix' (oponentColor color)

theorem InPlay.reachable (play : InPlay matrix color) : Reachable matrix color := by
  induction play with
  | clear player => exact Reachable.clear player
  | move _ moved ih => exact Reachable.move ih moved

theorem hasLine_of_other {other : Nat} (ne : other ≠ color)
    (line : HasLine (insertMarker matrix column row color) other) : HasLine matrix other := by
  obtain ⟨x, y, d, mem, cells⟩ := line
  refine ⟨x, y, d, mem, fun k => ?_⟩
  obtain ⟨c, r, at_x, at_y, same⟩ := cells k
  by_cases here : c = column ∧ r = row
  · rw [here.1, here.2, insertMarker_same] at same
    exact absurd same.symm ne
  · rw [insertMarker_of_ne here] at same
    exact ⟨c, r, at_x, at_y, same⟩

/-- While the moves give 0 nobody has won. -/
theorem InPlay.no_winner (play : InPlay matrix color) :
    ∀ other, IsPlayer other → ¬ HasLine matrix other := by
  induction play with
  | clear _ => exact fun other player => no_line_clear player
  | @move matrix matrix' color column before moved ih =>
    intro other player line
    obtain ⟨c, row, rfl, lowest, rfl, -⟩ := doMove_ok moved
    by_cases same : other = color
    · subst same
      obtain ⟨row', -, judged⟩ := doMove_of_free (ih other player) player.ne_three ⟨row, lowest.1⟩
      rw [judged] at moved
      obtain ⟨verdict, board⟩ := Prod.mk.inj moved
      rw [board, if_pos line] at verdict
      cases verdict
    · exact ih other player (hasLine_of_other same line)

end verdicts

end Lab3
