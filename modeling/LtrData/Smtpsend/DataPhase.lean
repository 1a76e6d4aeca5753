import LtrData.Library.CrlfLines

namespace Smtpsend

open Octet

def MAX_LINE : Nat := 32768

/-- What a ReadFile on standard input gives. -/
structure Block where
  bytes : List Octet
  some : bytes ≠ []
  fits : bytes.length ≤ MAX_LINE

/-- Standard input, in the blocks it is read in. At its end a file gives no bytes, a pipe an error. -/
structure StdIn where
  blocks : List Block
  brokenPipe : Bool

def StdIn.message (hIn : StdIn) : List Octet := hIn.blocks.flatMap Block.bytes

/-- What is sent to the server for the rest of standard input, and the exit code of main when it is
    left before the reply of the server. -/
def sendBlocks (brokenPipe : Bool) : List Block → List Octet × Option Nat
  | [] => if brokenPipe then ([], some 2) else ([DOT, CR, LF], none)
  | block :: blocks =>
    (block.bytes ++ (sendBlocks brokenPipe blocks).1, (sendBlocks brokenPipe blocks).2)

/-- The part of main between the replies 354 and 250. -/
def dataPhase (hIn : StdIn) : List Octet × Option Nat := sendBlocks hIn.brokenPipe hIn.blocks

/-- A server takes all that is sent as mail data, finds its end behind the last of it and has received
    the message, with a line end put to its last line where that is missing. -/
def Transmits (hIn : StdIn) : Prop :=
  ∃ data, dottedText (crlfLines (dataPhase hIn).1).1 = some (data, []) ∧
    (crlfLines (dataPhase hIn).1).2 = [] ∧
    (data = hIn.message ∨ (crlfLines hIn.message).2 ≠ [] ∧ data = hIn.message ++ [CR, LF])

theorem sendBlocks_sent (brokenPipe : Bool) (blocks : List Block) :
    (sendBlocks brokenPipe blocks).1 =
      blocks.flatMap Block.bytes ++ if brokenPipe then [] else [DOT, CR, LF] := by
  induction blocks with
  | nil => cases brokenPipe <;> rfl
  | cons block blocks ih => rw [sendBlocks, List.flatMap_cons, ih, List.append_assoc]

theorem dataPhase_sent (hIn : StdIn) :
    (dataPhase hIn).1 = hIn.message ++ if hIn.brokenPipe then [] else [DOT, CR, LF] :=
  sendBlocks_sent hIn.brokenPipe hIn.blocks

section lines

variable {hIn : StdIn}

/-- The lines a server finds. The dot goes to the last line when that has no line end. -/
theorem dataPhase_lines (complete : hIn.brokenPipe = false) : crlfLines (dataPhase hIn).1 =
    ((crlfLines hIn.message).1 ++ [(crlfLines hIn.message).2 ++ [DOT]], []) := by
  have noCrlf := crlfLines_noCrlf hIn.message
  have last := crlfLines_line (noCrlf_snoc (d := DOT) noCrlf.2 (by decide)) []
  have whole : (dataPhase hIn).1 = crlfText (crlfLines hIn.message).1 ++
      ((crlfLines hIn.message).2 ++ [DOT] ++ [CR, LF]) := by
    rw [dataPhase_sent, if_neg (by rw [complete]; decide), List.append_assoc, ← List.append_assoc,
      crlfLines_text]
    rfl
  rw [whole, crlfLines_lines noCrlf.1, last]
  rfl

theorem dataPhase_brokenPipe (broken : hIn.brokenPipe = true) :
    (dataPhase hIn).1 = hIn.message := by
  rw [dataPhase_sent, if_pos broken, List.append_nil]

theorem not_transmits_brokenPipe (broken : hIn.brokenPipe = true) : ¬Transmits hIn := by
  intro transmits
  rcases transmits with ⟨data, ends, complete, received⟩
  rw [dataPhase_brokenPipe broken] at ends complete
  obtain ⟨front, split, _, text⟩ := dottedText_some.mp ends
  have shorter := length_text_unstuff_le front
  have whole := congrArg List.length (crlfLines_text hIn.message)
  rw [split, complete, crlfText_append, List.append_nil, List.length_append, crlfText_cons,
    List.length_append, ← received.resolve_right fun added => added.1 complete, text] at whole
  have dot : ([DOT] : List Octet).length = 1 := rfl
  rw [List.length_cons] at whole
  omega

theorem transmits_complete (complete : hIn.brokenPipe = false) : Transmits hIn ↔
    (crlfLines hIn.message).2 = [] ∧
      ∀ line ∈ (crlfLines hIn.message).1, line.head? ≠ some DOT := by
  have text := crlfLines_text hIn.message
  rw [Transmits, dataPhase_lines complete]
  generalize (crlfLines hIn.message).1 = lines, (crlfLines hIn.message).2 = last at *
  constructor
  · intro transmits
    rcases transmits with ⟨data, ends, _, received⟩
    obtain ⟨front, split, _, same⟩ := dottedText_some.mp ends
    obtain ⟨frontLines, dots⟩ := List.append_inj' split rfl
    have none : last = [] := List.append_left_eq_self.mp (List.cons.inj dots).1
    subst none
    rw [List.append_nil] at text
    have message := received.resolve_right fun added => added.1 rfl
    rw [same, ← frontLines, ← text] at message
    exact ⟨rfl, text_unstuff_eq.mp message⟩
  · intro condition
    rcases condition with ⟨none, dotless⟩
    subst none
    rw [List.append_nil] at text
    refine ⟨hIn.message, dottedText_some.mpr ⟨lines, rfl, fun mem => dotless _ mem rfl, ?_⟩, rfl, .inl rfl⟩
    rw [text_unstuff_eq.mpr dotless, text]

end lines

/-- A message is transmitted exactly when standard input ends like a file, its last line is complete
    and no line starts with a dot. -/
theorem transmits_iff (hIn : StdIn) : Transmits hIn ↔ hIn.brokenPipe = false ∧
    (crlfLines hIn.message).2 = [] ∧
    ∀ line ∈ (crlfLines hIn.message).1, line.head? ≠ some DOT := by
  by_cases broken : hIn.brokenPipe = true
  · apply iff_of_false (not_transmits_brokenPipe broken)
    intro condition
    rw [broken] at condition
    cases condition.1
  · have complete : hIn.brokenPipe = false := Bool.not_eq_true _ ▸ broken
    rw [transmits_complete complete]
    exact (and_iff_right complete).symm

def dotMessage : StdIn where
  blocks := [⟨[DOT, CR, LF, 81, 85, 73, 84, CR, LF], by decide, by decide⟩]
  brokenPipe := false

/-- The server finds the end in front of the message, and QUIT is a command to it. -/
theorem dot_ends_mail : ¬Transmits dotMessage ∧
    dottedText (crlfLines (dataPhase dotMessage).1).1 =
      some ([], [[81, 85, 73, 84], [DOT]]) := by
  have found : dottedText (crlfLines (dataPhase dotMessage).1).1 =
      some ([], [[81, 85, 73, 84], [DOT]]) := by decide
  refine ⟨fun transmits => ?_, found⟩
  rcases transmits with ⟨data, ends, _⟩
  rw [found] at ends
  cases ends

end Smtpsend
