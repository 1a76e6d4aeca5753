import LtrData.Lab3.TestInsert
import LtrData.Library.Tokens
import LtrData.Library.TransitionSystem

namespace Lab3

/-- A Human has no sound where the constructor was refused it, as it is in an applet. -/
inductive PlayerKind
  | human (errorSound : Bool)
  | computer
deriving DecidableEq

/-- A move that getNextMove can return. The click of a human is looked at twice, so that it need
    not lie on the board; -1 is returned when the game is to be broken off. -/
def getNextMove (player : PlayerKind) (matrix : GameMatrix) (number : Nat) (breakGame : Bool)
    (move : Int) : Prop :=
  match player with
  | .human _ => breakGame = true ∧ move = -1 ∨ 0 ≤ move
  | .computer => ∃ coins lastRandom, move = testInsert matrix number coins lastRandom

/-- How a round of the loop in makeMove ends. -/
inductive Round
  | returns (result : Nat)
  | asksAgain
  | throws
deriving DecidableEq

def PlayerKind.invalidMove : PlayerKind → Round
  | human false => .throws
  | _ => .asksAgain

def makeMove (player : PlayerKind) (matrix : GameMatrix) (number : Nat) (move : Int) :
    Round × GameMatrix :=
  if move < 0 then (.returns 3, matrix)
  else
    match doMove matrix move number with
    | (.ok result, matrix) => (.returns result, matrix)
    | (.error .invalidMove, matrix) => (player.invalidMove, matrix)
    | (.error .indexOutOfBounds, matrix) => (.throws, matrix)

/-- Where playGame stands: at a move of one of the players, before the look at breakGame behind
    the move of the second one, or behind the return or the exception. -/
inductive GamePoint
  | move1
  | move2
  | checkBreak
  | won (number : Nat)
  | drawn
  | stopped
  | thrown
deriving DecidableEq

structure Game where
  matrix : GameMatrix
  breakGame : Bool
  point : GamePoint

/-- What GameManager.move makes of a round, where `next` is what follows a move. -/
def afterMove (number : Nat) (here next : GamePoint) : Round → GamePoint
  | .returns 1 => .won number
  | .returns 2 => .drawn
  | .returns 3 => .stopped
  | .returns _ => next
  | .asksAgain => here
  | .throws => .thrown

structure Players where
  player1 : PlayerKind
  player2 : PlayerKind

inductive GameStep (players : Players) : Game → Game → Prop
  | move1 {g : Game} {move : Int} (point : g.point = .move1)
    (chosen : getNextMove players.player1 g.matrix 1 g.breakGame move) :
    GameStep players g
      { g with
        matrix := (makeMove players.player1 g.matrix 1 move).2
        point := afterMove 1 .move1 .move2 (makeMove players.player1 g.matrix 1 move).1 }
  | move2 {g : Game} {move : Int} (point : g.point = .move2)
    (chosen : getNextMove players.player2 g.matrix 2 g.breakGame move) :
    GameStep players g
      { g with
        matrix := (makeMove players.player2 g.matrix 2 move).2
        point := afterMove 2 .move2 .checkBreak (makeMove players.player2 g.matrix 2 move).1 }
  | checkBreak {g : Game} (point : g.point = .checkBreak) :
    GameStep players g { g with point := if g.breakGame then .stopped else .move1 }
  /-- The button that breaks the game off. -/
  | restart {g : Game} (playing : g.breakGame = false) : GameStep players g { g with breakGame := true }

/-- A game from the call of playGame on, on a cleared board. -/
def playGame (players : Players) : TransitionSystem Game where
  start g := g = ⟨clear, false, .move1⟩
  step := GameStep players

/-! ### Counting markers -/

def columnMarkers (cells : Fin 6 → Nat) (color : Nat) : Nat :=
  ∑ row, if cells row = color then 1 else 0

def markers (matrix : GameMatrix) (color : Nat) : Nat := ∑ column, columnMarkers (matrix column) color

section markers

variable {matrix : GameMatrix} {column : Fin 7} {row : Fin 6} {color other : Nat}

theorem columnMarkers_update (cells : Fin 6 → Nat) (row : Fin 6) (color other : Nat) :
    columnMarkers (Function.update cells row color) other + (if cells row = other then 1 else 0) =
      columnMarkers cells other + (if color = other then 1 else 0) := by
  have change : columnMarkers (Function.update cells row color) other +
      (if cells row = other then 1 else 0) = columnMarkers cells other +
        (if Function.update cells row color row = other then 1 else 0) :=
    sum_change row (f := fun r => if cells r = other then 1 else 0)
      (g := fun r => if Function.update cells row color r = other then 1 else 0)
      fun r apart => by rw [Function.update_of_ne apart]
  rwa [Function.update_self] at change

theorem markers_insertMarker (matrix : GameMatrix) (column : Fin 7) (row : Fin 6) (color other : Nat) :
    markers (insertMarker matrix column row color) other +
        (if matrix column row = other then 1 else 0) =
      markers matrix other + (if color = other then 1 else 0) := by
  have change : markers (insertMarker matrix column row color) other +
      columnMarkers (matrix column) other = markers matrix other +
        columnMarkers (insertMarker matrix column row color column) other :=
    sum_change column (f := fun c => columnMarkers (matrix c) other)
      (g := fun c => columnMarkers (insertMarker matrix column row color c) other)
      fun c apart => by rw [insertMarker, Function.update_of_ne apart]
  rw [show insertMarker matrix column row color column = _ from Function.update_self ..] at change
  have own := columnMarkers_update (matrix column) row color other
  omega

/-- A move takes a free cell for the player. -/
theorem markers_move (lowest : LowestFree matrix column row) (player : IsPlayer color) :
    markers (insertMarker matrix column row color) color = markers matrix color + 1 ∧
      markers (insertMarker matrix column row color) 0 + 1 = markers matrix 0 ∧
      ∀ other, other ≠ color → other ≠ 0 →
        markers (insertMarker matrix column row color) other = markers matrix other := by
  have own := markers_insertMarker matrix column row color color
  have free := markers_insertMarker matrix column row color 0
  rw [lowest.1, if_neg (Ne.symm player.ne_zero), if_pos rfl, Nat.add_zero] at own
  rw [lowest.1, if_pos rfl, if_neg player.ne_zero, Nat.add_zero] at free
  refine ⟨own, free, ?_⟩
  intro other apart taken
  have others := markers_insertMarker matrix column row color other
  rw [lowest.1, if_neg (Ne.symm taken), if_neg (Ne.symm apart), Nat.add_zero, Nat.add_zero] at others
  exact others

theorem markers_clear (color : Nat) (player : IsPlayer color) : markers clear color = 0 :=
  Finset.sum_eq_zero fun _ _ => Finset.sum_eq_zero fun _ _ => if_neg (Ne.symm player.ne_zero)

end markers

/-! ### What a move does -/

section moves

variable {matrix matrix' : GameMatrix} {number other : Nat} {move : Int} {player : PlayerKind}

theorem InPlay.exists_free (play : InPlay matrix number) : ∃ column row, matrix column row = 0 := by
  cases play with
  | clear => exact ⟨0, 0, rfl⟩
  | @move before matrix color column play moved =>
    obtain ⟨c, row, rfl, lowest, -, -⟩ := doMove_ok moved
    have player := play.reachable.player
    have no_line := play.no_winner color player
    obtain ⟨row', -, judged⟩ := doMove_of_free no_line player.ne_three ⟨row, lowest.1⟩
    rw [moved] at judged
    obtain ⟨verdict, board⟩ := Prod.mk.inj judged
    rw [board]
    by_contra full
    rw [if_neg full] at verdict
    have never := Except.ok.inj verdict
    split at never <;> cases never

/-- A board behind the move of a player. -/
structure Moved (matrix matrix' : GameMatrix) (number : Nat) : Prop where
  reachable : Reachable matrix' (oponentColor number)
  own : markers matrix' number = markers matrix number + 1
  others : markers matrix' (oponentColor number) = markers matrix (oponentColor number)
  free : markers matrix' 0 + 1 = markers matrix 0
  no_line : ¬HasLine matrix' (oponentColor number)

theorem oponent_ne (player : IsPlayer number) : oponentColor number ≠ number := by
  rcases player with rfl | rfl <;> decide

theorem InPlay.moved (play : InPlay matrix number) {result : Nat}
    (moved : doMove matrix move number = (.ok result, matrix')) : Moved matrix matrix' number := by
  have player := play.reachable.player
  obtain ⟨c, row, rfl, lowest, board, -⟩ := doMove_ok moved
  obtain ⟨own, free, others⟩ := markers_move lowest player
  refine ⟨.move play.reachable moved, ?_, ?_, ?_, ?_⟩
  · rw [board, own]
  · rw [board, others _ (oponent_ne player) player.oponent.ne_zero]
  · rw [board, free]
  · rw [board]
    intro line
    exact play.no_winner _ player.oponent (hasLine_of_other (oponent_ne player) line)

/-- What a round of makeMove leaves: a board on which the game goes on, a line, a full board
    without one, or the board as it was. -/
inductive RoundEnds (player : PlayerKind) (matrix : GameMatrix) (number : Nat) (move : Int) :
    Round → GameMatrix → Prop
  | goesOn {matrix' : GameMatrix} (moved : Moved matrix matrix' number)
    (play : InPlay matrix' (oponentColor number)) :
    RoundEnds player matrix number move (.returns 0) matrix'
  | wins {matrix' : GameMatrix} (moved : Moved matrix matrix' number)
    (line : HasLine matrix' number) : RoundEnds player matrix number move (.returns 1) matrix'
  | draws {matrix' : GameMatrix} (moved : Moved matrix matrix' number)
    (no_line : ¬HasLine matrix' number) (full : ∀ column row, matrix' column row ≠ 0) :
    RoundEnds player matrix number move (.returns 2) matrix'
  | breaks (negative : move < 0) : RoundEnds player matrix number move (.returns 3) matrix
  | rejected (column : 0 ≤ move)
    (full : ∀ inside : move.toNat < 7, ∀ row, matrix ⟨move.toNat, inside⟩ row ≠ 0) :
    RoundEnds player matrix number move player.invalidMove matrix

theorem makeMove_ends (play : InPlay matrix number) (player : PlayerKind) (move : Int) :
    RoundEnds player matrix number move (makeMove player matrix number move).1
      (makeMove player matrix number move).2 := by
  have isPlayer := play.reachable.player
  have no_line := play.no_winner number isPlayer
  unfold makeMove
  by_cases negative : move < 0
  · rw [if_pos negative]
    exact .breaks negative
  rw [if_neg negative]
  by_cases inside : move < 7
  · obtain ⟨column, rfl⟩ : ∃ column : Fin 7, move = column :=
      ⟨⟨move.toNat, by omega⟩, by simp only; omega⟩
    by_cases free : ∃ row, matrix column row = 0
    · obtain ⟨row, lowest, judged⟩ := doMove_of_free no_line isPlayer.ne_three free
      have moved := play.moved judged
      rw [judged]
      dsimp only
      by_cases line : HasLine (insertMarker matrix column row number) number
      · rw [if_pos line]
        exact .wins moved line
      · rw [if_neg line] at judged ⊢
        by_cases some_ : ∃ c r, insertMarker matrix column row number c r = 0
        · rw [if_pos some_] at judged ⊢
          exact .goesOn moved (.move play judged)
        · rw [if_neg some_]
          push Not at some_
          exact .draws moved line some_
    · push Not at free
      rw [doMove_of_full free]
      exact .rejected (by omega) fun _ row => free row
  · rw [doMove, if_neg inside]
    exact .rejected (by omega) fun below => by omega

end moves

/-! ### A whole game -/

section games

variable {players : Players} {g g' : Game}

/-- The markers lie as alternating moves leave them, with this player at the next one. -/
structure Alternates (matrix : GameMatrix) (next : Nat) : Prop where
  reachable : Reachable matrix next
  counts : markers matrix 1 = markers matrix 2 + (if next = 1 then 0 else 1)

theorem Alternates.moved {matrix matrix' : GameMatrix} {number : Nat}
    (alternates : Alternates matrix number) (moved : Moved matrix matrix' number) :
    Alternates matrix' (oponentColor number) where
  reachable := moved.reachable
  counts := by
    have before := alternates.counts
    have own := moved.own
    have others := moved.others
    rcases alternates.reachable.player with rfl | rfl
    · change markers matrix' 2 = markers matrix 2 at others
      change markers matrix' 1 = markers matrix' 2 + 1
      rw [if_pos rfl] at before
      omega
    · change markers matrix' 1 = markers matrix 1 at others
      change markers matrix' 1 = markers matrix' 2 + 0
      change markers matrix 1 = markers matrix 2 + 1 at before
      omega

/-- Where the game stands and what that says of its board. -/
def Game.Sound (players : Players) (g : Game) : Prop :=
  match g.point with
  | .move1 | .checkBreak => InPlay g.matrix 1 ∧ Alternates g.matrix 1
  | .move2 => InPlay g.matrix 2 ∧ Alternates g.matrix 2
  | .won number => HasLine g.matrix number ∧ ¬HasLine g.matrix (oponentColor number) ∧
      IsPlayer number ∧ Alternates g.matrix (oponentColor number)
  | .drawn => (∀ column row, g.matrix column row ≠ 0) ∧
      (∀ color, IsPlayer color → ¬HasLine g.matrix color) ∧ ∃ next, Alternates g.matrix next
  | .stopped => g.breakGame = true ∧ ∃ next, InPlay g.matrix next ∧ Alternates g.matrix next
  | .thrown => (players.player1 = .human false ∨ players.player2 = .human false) ∧
      ∃ next, InPlay g.matrix next ∧ Alternates g.matrix next

theorem sound_afterMove {matrix : GameMatrix} {number : Nat} {breakGame : Bool}
    {player : PlayerKind} {move : Int} {here next : GamePoint} (play : InPlay matrix number)
    (alternates : Alternates matrix number)
    (isPlayer : players.player1 = player ∨ players.player2 = player)
    (chosen : getNextMove player matrix number breakGame move)
    (stays : Game.Sound players ⟨matrix, breakGame, here⟩)
    (goesOn : ∀ matrix', InPlay matrix' (oponentColor number) →
      Alternates matrix' (oponentColor number) → Game.Sound players ⟨matrix', breakGame, next⟩) :
    Game.Sound players ⟨(makeMove player matrix number move).2, breakGame,
      afterMove number here next (makeMove player matrix number move).1⟩ := by
  have ends := makeMove_ends play player move
  revert ends
  generalize (makeMove player matrix number move).1 = round
  generalize (makeMove player matrix number move).2 = matrix'
  intro ends
  have isNumber := alternates.reachable.player
  cases ends with
  | goesOn moved play' => exact goesOn _ play' (alternates.moved moved)
  | wins moved line => exact ⟨line, moved.no_line, isNumber, alternates.moved moved⟩
  | draws moved no_line full =>
    refine ⟨full, ?_, _, alternates.moved moved⟩
    intro color isColor
    by_cases own : color = number
    · rw [own]
      exact no_line
    · have other : color = oponentColor number := by
        rcases isNumber with rfl | rfl
        · exact isColor.resolve_left own
        · exact isColor.resolve_right own
      rw [other]
      exact moved.no_line
  | breaks negative =>
    refine ⟨?_, _, play, alternates⟩
    cases player with
    | human errorSound =>
      rcases chosen with ⟨breaks, _⟩ | inside
      · exact breaks
      · omega
    | computer =>
      obtain ⟨coins, lastRandom, same⟩ := chosen
      omega
  | rejected =>
    cases player with
    | human errorSound =>
      cases errorSound with
      | false => exact ⟨isPlayer, _, play, alternates⟩
      | true => exact stays
    | computer => exact stays

theorem sound_step (sound : g.Sound players) (step : GameStep players g g') : g'.Sound players := by
  obtain ⟨matrix, breakGame, point⟩ := g
  cases step with
  | move1 here chosen =>
    change point = .move1 at here
    subst here
    exact sound_afterMove sound.1 sound.2 (.inl rfl) chosen sound fun _ play alternates =>
      ⟨play, alternates⟩
  | move2 here chosen =>
    change point = .move2 at here
    subst here
    exact sound_afterMove sound.1 sound.2 (.inr rfl) chosen sound fun _ play alternates =>
      ⟨play, alternates⟩
  | checkBreak here =>
    change point = .checkBreak at here
    subst here
    cases breakGame with
    | false => exact sound
    | true => exact ⟨rfl, 1, sound⟩
  | restart playing =>
    change breakGame = false at playing
    subst playing
    cases point with
    | stopped =>
      have broken : false = true := sound.1
      cases broken
    | _ => exact sound

theorem alternates_clear : Alternates clear 1 where
  reachable := .clear (.inl rfl)
  counts := by
    rw [markers_clear 1 (.inl rfl), markers_clear 2 (.inr rfl)]
    rfl

theorem sound_reachable (reachable : (playGame players).Reachable g) : g.Sound players := by
  apply reachable.invariant
  · intro g start
    rw [show g = _ from start]
    exact ⟨.clear (.inl rfl), alternates_clear⟩
  · intro g g' _ sound step
    exact sound_step sound step

theorem Game.Sound.alternates (sound : g.Sound players) : ∃ next, Alternates g.matrix next := by
  unfold Game.Sound at sound
  split at sound
  · exact ⟨1, sound.2⟩
  · exact ⟨1, sound.2⟩
  · exact ⟨2, sound.2⟩
  · exact ⟨_, sound.2.2.2⟩
  · exact sound.2.2
  · obtain ⟨_, next, _, alternates⟩ := sound
    exact ⟨next, alternates⟩
  · obtain ⟨_, next, _, alternates⟩ := sound
    exact ⟨next, alternates⟩

def Game.isPlayed (g : Game) : Prop :=
  g.point = .move1 ∨ g.point = .move2 ∨ g.point = .checkBreak

theorem Game.Sound.played (sound : g.Sound players) (played : g.isPlayed) :
    ∃ next, InPlay g.matrix next := by
  unfold Game.Sound at sound
  rcases played with here | here | here <;> rw [here] at sound <;> exact ⟨_, sound.1⟩

/-- Whoever plays and however often the game is asked to be broken off: markers lie on markers and
    the first player is no more than one ahead; a winner has a line and the other one has none; a
    drawn board is full, without a line; and a game that is played on has a free cell and no line. -/
theorem playGame_sound (reachable : (playGame players).Reachable g) :
    Supported g.matrix ∧
      (markers g.matrix 1 = markers g.matrix 2 ∨ markers g.matrix 1 = markers g.matrix 2 + 1) ∧
      (∀ number, g.point = .won number → IsPlayer number ∧ HasLine g.matrix number ∧
        ¬HasLine g.matrix (oponentColor number)) ∧
      (g.point = .drawn → (∀ column row, g.matrix column row ≠ 0) ∧
        ∀ color, IsPlayer color → ¬HasLine g.matrix color) ∧
      (g.isPlayed → (∃ column row, g.matrix column row = 0) ∧
        ∀ color, IsPlayer color → ¬HasLine g.matrix color) := by
  have sound := sound_reachable reachable
  obtain ⟨next, alternates⟩ := sound.alternates
  refine ⟨alternates.reachable.supported, ?_, ?_, ?_, ?_⟩
  · have counts := alternates.counts
    split at counts
    · exact .inl counts
    · exact .inr counts
  · intro number won
    unfold Game.Sound at sound
    rw [won] at sound
    exact ⟨sound.2.2.1, sound.1, sound.2.1⟩
  · intro drawn
    unfold Game.Sound at sound
    rw [drawn] at sound
    exact ⟨sound.1, sound.2.1⟩
  · intro played
    obtain ⟨next, play⟩ := sound.played played
    exact ⟨play.exists_free, play.no_winner⟩

def afterFirst : Game := ⟨insertMarker clear 3 5 1, false, .move2⟩

theorem afterFirst_reachable (players : Players) (human : players.player1 = .human true) :
    (playGame players).Reachable afterFirst := by
  have start := TransitionSystem.reachable_start (m := playGame players)
    (s := ⟨clear, false, .move1⟩) rfl
  have chosen : getNextMove players.player1 clear 1 false 3 := by
    rw [human]
    exact .inr (by decide)
  have moved := start.step (.move1 rfl chosen)
  have result : makeMove players.player1 clear 1 3 = (.returns 0, insertMarker clear 3 5 1) := by
    rw [human]
    decide +kernel
  dsimp only at moved
  rwa [result] at moved

theorem playGame_sound_first :
    Supported afterFirst.matrix ∧
      (markers afterFirst.matrix 1 = markers afterFirst.matrix 2 ∨
        markers afterFirst.matrix 1 = markers afterFirst.matrix 2 + 1) ∧
      (∀ number, afterFirst.point = .won number → IsPlayer number ∧
        HasLine afterFirst.matrix number ∧ ¬HasLine afterFirst.matrix (oponentColor number)) ∧
      (afterFirst.point = .drawn → (∀ column row, afterFirst.matrix column row ≠ 0) ∧
        ∀ color, IsPlayer color → ¬HasLine afterFirst.matrix color) ∧
      (afterFirst.isPlayed → (∃ column row, afterFirst.matrix column row = 0) ∧
        ∀ color, IsPlayer color → ¬HasLine afterFirst.matrix color) :=
  playGame_sound (afterFirst_reachable ⟨.human true, .computer⟩ rfl)

/-! ### Games of two computers -/

def computers : Players := ⟨.computer, .computer⟩

/-- How many steps are left at most. -/
def Game.left (g : Game) : Nat :=
  2 * markers g.matrix 0 + (if g.point = .move1 ∨ g.point = .stopped then 0 else 1) +
    (if g.breakGame then 0 else 1)

theorem computer_moves {matrix : GameMatrix} {number : Nat} (play : InPlay matrix number)
    (coins : Fin 4 → Bool) (lastRandom : Fin 7) (here next : GamePoint) {round : Round}
    {matrix' : GameMatrix} (made :
      makeMove .computer matrix number (testInsert matrix number coins lastRandom) =
        (round, matrix')) :
    markers matrix' 0 + 1 = markers matrix 0 ∧
      (afterMove number here next round = next ∨ afterMove number here next round = .won number ∨
        afterMove number here next round = .drawn) := by
  have ends := makeMove_ends play .computer (testInsert matrix number coins lastRandom)
  rw [made] at ends
  dsimp only at ends
  cases ends with
  | goesOn moved play' => exact ⟨moved.free, .inl rfl⟩
  | wins moved line => exact ⟨moved.free, .inr (.inl rfl)⟩
  | draws moved no_line full => exact ⟨moved.free, .inr (.inr rfl)⟩
  | breaks negative => omega
  | rejected column full =>
    obtain ⟨row, free⟩ := (testInsert_chooses number coins lastRandom play.exists_free).1
    exact absurd free (full (testInsert matrix number coins lastRandom).isLt row)

theorem left_moved {g : Game} {matrix' : GameMatrix} {point next : GamePoint} {number : Nat}
    (free : markers matrix' 0 + 1 = markers g.matrix 0)
    (goes : point = next ∨ point = .won number ∨ point = .drawn)
    (other : next ≠ .move1 ∧ next ≠ .stopped) :
    Game.left { g with matrix := matrix', point := point } < g.left := by
  have behind : ¬(point = .move1 ∨ point = .stopped) := by
    rcases goes with rfl | rfl | rfl
    · exact not_or.mpr other
    · simp
    · simp
  unfold Game.left
  dsimp only
  rw [if_neg behind]
  split <;> omega

theorem left_step (sound : g.Sound computers) (step : GameStep computers g g') :
    g'.left < g.left := by
  cases step with
  | move1 here chosen =>
    obtain ⟨coins, lastRandom, rfl⟩ := chosen
    unfold Game.Sound at sound
    rw [here] at sound
    obtain ⟨free, goes⟩ := computer_moves sound.1 coins lastRandom .move1 .move2 rfl
    exact left_moved free goes (by decide)
  | move2 here chosen =>
    obtain ⟨coins, lastRandom, rfl⟩ := chosen
    unfold Game.Sound at sound
    rw [here] at sound
    obtain ⟨free, goes⟩ := computer_moves sound.1 coins lastRandom .move2 .checkBreak rfl
    exact left_moved free goes (by decide)
  | checkBreak here =>
    obtain ⟨matrix, breakGame, point⟩ := g
    change point = .checkBreak at here
    subst here
    cases breakGame <;> exact Nat.add_lt_add_right (Nat.lt_succ_self _) _
  | restart playing =>
    unfold Game.left
    dsimp only
    rw [playing, if_pos rfl, if_neg Bool.false_ne_true]
    exact Nat.lt_succ_self _

theorem exists_gameStep (players : Players) (played : g.isPlayed) :
    ∃ g', GameStep players g g' ∧ g'.breakGame = g.breakGame := by
  have choice : ∀ (player : PlayerKind) (number : Nat),
      ∃ move, getNextMove player g.matrix number g.breakGame move := by
    intro player number
    cases player with
    | human errorSound => exact ⟨0, .inr (Int.le_refl 0)⟩
    | computer => exact ⟨_, fun _ => true, 0, rfl⟩
  rcases played with here | here | here
  · obtain ⟨move, chosen⟩ := choice players.player1 1
    exact ⟨_, .move1 here chosen, rfl⟩
  · obtain ⟨move, chosen⟩ := choice players.player2 2
    exact ⟨_, .move2 here chosen, rfl⟩
  · exact ⟨_, .checkBreak here, rfl⟩

theorem markers_clear_free : markers clear 0 = 42 := by decide

end games

end Lab3
