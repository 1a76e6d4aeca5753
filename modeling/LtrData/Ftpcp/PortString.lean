import LtrData.Ftpcp.ReplyLoops
import LtrData.Library.Strtok
import LtrData.Popdump.Lines

namespace Ftpcp

open Octet Popdump Strtok

def COMMA : Octet := 44

def LPAREN : Octet := 40

def RPAREN : Octet := 41

structure InAddr where
  b0 : Octet
  b1 : Octet
  b2 : Octet
  b3 : Octet
deriving DecidableEq

def InAddr.bytes (a : InAddr) : List Octet := [a.b0, a.b1, a.b2, a.b3]

/-- An address with the port's bytes in network order. -/
structure SockAddr where
  sin_addr : InAddr
  port0 : Octet
  port1 : Octet
deriving DecidableEq

/-! ### The string a listener makes of its address -/

def decimalDigit (n : Nat) : Octet := BitVec.ofNat 8 (48 + n % 10)

/-- printf with %i for a byte. -/
def printInt (b : Octet) : List Octet :=
  (if 100 ≤ b.toNat then [decimalDigit (b.toNat / 100)] else []) ++
    (if 10 ≤ b.toNat then [decimalDigit (b.toNat / 10)] else []) ++ [decimalDigit b.toNat]

def inet_ntoa (a : InAddr) : List Octet :=
  printInt a.b0 ++ DOT :: (printInt a.b1 ++ DOT :: (printInt a.b2 ++ DOT :: printInt a.b3))

/-- The string for PORT, without the line end behind it. -/
def SockAddr.render (a : SockAddr) : List Octet :=
  (inet_ntoa a.sin_addr).map (fun c => if c = DOT then COMMA else c) ++
    COMMA :: (printInt a.port0 ++ COMMA :: printInt a.port1)

/-! ### How a local receiver reads it -/

def isspace (c : Octet) : Bool := c = 32 || 9 ≤ c.toNat && c.toNat ≤ 13

/-- The value of a digit, which is the base for a character that is none. -/
def digitValue (base : Nat) (c : Octet) : Nat :=
  let n := c.toNat
  let v := if 48 ≤ n ∧ n ≤ 57 then n - 48 else if 97 ≤ n ∧ n ≤ 102 then n - 87
    else if 65 ≤ n ∧ n ≤ 70 then n - 55 else base
  if v < base then v else base

/-- The digits at the start, taken on to a number, and what stands behind them. -/
def scanDigits (base : Nat) : Nat → List Octet → Nat × List Octet
  | n, [] => (n, [])
  | n, c :: s =>
    if digitValue base c < base then scanDigits base (n * base + digitValue base c) s else (n, c :: s)

/-- A number has a digit at least. -/
def scanNumber (base : Nat) (s : List Octet) : Option (Nat × List Octet) :=
  match s with
  | [] => none
  | c :: s => if digitValue base c < base then some (scanDigits base 0 (c :: s)) else none

def scanUnsigned (s : List Octet) : Option (Nat × List Octet) :=
  match s with
  | 48 :: x :: s => if x = 120 ∨ x = 88 then scanNumber 16 s else scanNumber 8 (48 :: x :: s)
  | 48 :: s => scanNumber 8 (48 :: s)
  | s => scanNumber 10 s

/-- scanf with %i, which tells the base by how the number starts. -/
def scanInt (s : List Octet) : Option (Int × List Octet) :=
  match s.dropWhile isspace with
  | 45 :: s => (scanUnsigned s).map fun r => (-(r.1 : Int), r.2)
  | 43 :: s => (scanUnsigned s).map fun r => ((r.1 : Int), r.2)
  | s => (scanUnsigned s).map fun r => ((r.1 : Int), r.2)

/-- So many numbers with commas between them. -/
def scanInts : Nat → List Octet → Option (List Int)
  | 0, _ => some []
  | 1, s => (scanInt s).map fun r => [r.1]
  | n + 2, s =>
    match scanInt s with
    | some (i, c :: s) => if c = COMMA then (scanInts (n + 1) s).map (i :: ·) else none
    | _ => none

/-- The address for connect, where sscanf finds all of its numbers. -/
def sscanf (cBuffer : List Octet) : Option SockAddr :=
  match scanInts 6 cBuffer with
  | some [i1, i2, i3, i4, i5, i6] =>
    some ⟨⟨BitVec.ofInt 8 i1, BitVec.ofInt 8 i2, BitVec.ofInt 8 i3, BitVec.ofInt 8 i4⟩,
      BitVec.ofInt 8 i5, BitVec.ofInt 8 i6⟩
  | _ => none

/-! ### What is in parentheses in a server's answer to PASV -/

/-- The string in a buffer. -/
def cString (size : Nat) (cBuffer : Buffer) : List Octet := beforeNul ((List.range size).map cBuffer)

def szPortStr (answer : List Octet) : Option (List Octet) :=
  let (_, saved) := strtok (some answer) [LPAREN] []
  (strtok none [RPAREN] saved).1

/-- What stands for a port in one pipe and one command: one line that is not empty. -/
structure PortLine (p : List Octet) : Prop where
  nonempty : p ≠ []
  noNul : NUL ∉ p
  noCr : CR ∉ p
  noLf : LF ∉ p
  short : p.length < 2046

section scan

theorem toNat_decimalDigit (n : Nat) : (decimalDigit n).toNat = 48 + n % 10 := by
  unfold decimalDigit
  rw [BitVec.toNat_ofNat, Nat.mod_eq_of_lt]
  omega

theorem digitValue_decimalDigit (n : Nat) : digitValue 10 (decimalDigit n) = n % 10 := by
  unfold digitValue
  rw [toNat_decimalDigit]
  have digit : 48 ≤ 48 + n % 10 ∧ 48 + n % 10 ≤ 57 := by omega
  simp only [digit, and_self, if_true]
  rw [if_pos (by omega)]
  omega

/-- A decimal digit is none of the characters that mean something else to scanf or to a pipe. -/
theorem digit_plain {c : Octet} (digit : digitValue 10 c < 10) : isspace c = false ∧ c ≠ 45 ∧ c ≠ 43 ∧
    c ≠ DOT ∧ c ≠ COMMA ∧ c ≠ NUL ∧ c ≠ CR ∧ c ≠ LF := by
  have inside : 48 ≤ c.toNat ∧ c.toNat ≤ 57 := by
    unfold digitValue at digit
    dsimp only at digit
    split at digit
    · next inside =>
      split at digit
      · exact inside
      · omega
    · split at digit
      · split at digit <;> omega
      · split at digit
        · split at digit <;> omega
        · split at digit <;> omega
  have other {d : Octet} (outside : d.toNat < 48) : c ≠ d := by
    intro same
    rw [same] at inside
    omega
  refine ⟨?_, other (by decide), other (by decide), other (by decide), other (by decide),
    other (by decide), other (by decide), other (by decide)⟩
  unfold isspace
  rw [decide_eq_false (other (by decide)), decide_eq_false (p := c.toNat ≤ 13) (by omega)]
  simp

/-- Three digits, two or one, of which the first is 0 only where it is alone. -/
theorem printInt_cases (b : Octet) :
    (100 ≤ b.toNat ∧ printInt b =
      [decimalDigit (b.toNat / 100), decimalDigit (b.toNat / 10), decimalDigit b.toNat]) ∨
    (10 ≤ b.toNat ∧ b.toNat < 100 ∧ printInt b = [decimalDigit (b.toNat / 10), decimalDigit b.toNat]) ∨
    (b.toNat < 10 ∧ printInt b = [decimalDigit b.toNat]) := by
  unfold printInt
  by_cases hundreds : 100 ≤ b.toNat
  · have tens : 10 ≤ b.toNat := by omega
    rw [if_pos hundreds, if_pos tens]
    exact .inl ⟨hundreds, rfl⟩
  · by_cases tens : 10 ≤ b.toNat
    · rw [if_neg hundreds, if_pos tens]
      exact .inr (.inl ⟨tens, Nat.not_le.mp hundreds, rfl⟩)
    · rw [if_neg hundreds, if_neg tens]
      exact .inr (.inr ⟨Nat.not_le.mp tens, rfl⟩)

theorem printInt_digits (b : Octet) : ∀ c ∈ printInt b, digitValue 10 c < 10 := by
  have digit (n : Nat) : digitValue 10 (decimalDigit n) < 10 := by
    rw [digitValue_decimalDigit]
    exact Nat.mod_lt n (by decide)
  intro c mem
  rcases printInt_cases b with ⟨-, digits⟩ | ⟨-, -, digits⟩ | ⟨-, digits⟩ <;> rw [digits] at mem <;>
    simp only [List.mem_cons, List.not_mem_nil, or_false] at mem
  · rcases mem with rfl | rfl | rfl <;> exact digit _
  · rcases mem with rfl | rfl <;> exact digit _
  · rw [mem]
    exact digit _

theorem scanDigits_printInt (b : Octet) : (scanDigits 10 0 (printInt b)).1 = b.toNat := by
  have step (n k : Nat) (s : List Octet) :
      scanDigits 10 n (decimalDigit k :: s) = scanDigits 10 (n * 10 + k % 10) s := by
    rw [scanDigits, digitValue_decimalDigit, if_pos (Nat.mod_lt k (by decide))]
  have small := b.isLt
  rcases printInt_cases b with ⟨hundreds, digits⟩ | ⟨tens, below, digits⟩ | ⟨below, digits⟩
  · rw [digits, step, step, step]
    show ((0 * 10 + b.toNat / 100 % 10) * 10 + b.toNat / 10 % 10) * 10 + b.toNat % 10 = b.toNat
    omega
  · rw [digits, step, step]
    show (0 * 10 + b.toNat / 10 % 10) * 10 + b.toNat % 10 = b.toNat
    omega
  · rw [digits, step]
    show 0 * 10 + b.toNat % 10 = b.toNat
    omega

theorem printInt_zero {b : Octet} {tail : List Octet} (zero : printInt b = 48 :: tail) :
    tail = [] ∧ b.toNat = 0 := by
  have isZero {n : Nat} (same : decimalDigit n = 48) : n % 10 = 0 := by
    have number := congrArg BitVec.toNat same
    rw [toNat_decimalDigit] at number
    have value : (48 : Octet).toNat = 48 := rfl
    omega
  have small := b.isLt
  rcases printInt_cases b with ⟨hundreds, digits⟩ | ⟨tens, below, digits⟩ | ⟨below, digits⟩ <;>
    rw [digits] at zero
  · have first := isZero (List.cons.inj zero).1
    omega
  · have first := isZero (List.cons.inj zero).1
    omega
  · have only := isZero (List.cons.inj zero).1
    exact ⟨(List.cons.inj zero).2.symm, by omega⟩

theorem length_printInt (b : Octet) : 0 < (printInt b).length ∧ (printInt b).length ≤ 3 := by
  rcases printInt_cases b with ⟨-, digits⟩ | ⟨-, -, digits⟩ | ⟨-, digits⟩ <;> rw [digits] <;>
    simp only [List.length_cons, List.length_nil] <;> omega

theorem scanDigits_append {base : Nat} {digits rest : List Octet}
    (all : ∀ c ∈ digits, digitValue base c < base)
    (behind : ∀ c ∈ rest.head?, ¬ digitValue base c < base) (n : Nat) :
    scanDigits base n (digits ++ rest) = ((scanDigits base n digits).1, rest) := by
  induction digits generalizing n with
  | nil =>
    cases rest with
    | nil => rfl
    | cons c rest =>
      rw [List.nil_append]
      show (if digitValue base c < base then _ else _) = _
      rw [if_neg (behind c rfl)]
      rfl
  | cons c digits ih =>
    rw [List.forall_mem_cons] at all
    rw [List.cons_append, scanDigits, if_pos all.1, scanDigits, if_pos all.1, ih all.2]

/-- What is printed for a byte is read back, whatever comes behind a comma. -/
theorem scanInt_printInt (b : Octet) {rest : List Octet} (behind : ∀ c ∈ rest.head?, c = COMMA) :
    scanInt (printInt b ++ rest) = some ((b.toNat : Int), rest) := by
  have digits := printInt_digits b
  have value := scanDigits_printInt b
  have noDigit : ∀ c ∈ rest.head?, ¬ digitValue 10 c < 10 := by
    intro c mem
    rw [behind c mem]
    decide
  rcases printed : printInt b with - | ⟨c, tail⟩
  · have some_ := (length_printInt b).1
    rw [printed] at some_
    exact absurd some_ (Nat.lt_irrefl 0)
  rw [printed] at value digits
  have first := digit_plain (digits c List.mem_cons_self)
  have unsigned : scanUnsigned (c :: tail ++ rest) = some (b.toNat, rest) := by
    by_cases isZero : c = 48
    · rw [isZero] at printed ⊢
      obtain ⟨alone, zero⟩ := printInt_zero printed
      rw [alone, zero, List.singleton_append]
      rcases rest with - | ⟨x, rest⟩
      · rfl
      · obtain rfl := behind x rfl
        rfl
    · have decimal : scanUnsigned (c :: tail ++ rest) = scanNumber 10 (c :: tail ++ rest) := by
        rw [List.cons_append, scanUnsigned]
        · intro x s same
          exact absurd (List.cons.inj same).1 isZero
        · intro s same
          exact absurd (List.cons.inj same).1 isZero
      rw [decimal, List.cons_append, scanNumber, if_pos (digits c List.mem_cons_self),
        ← List.cons_append, scanDigits_append digits noDigit, value]
  have noSpace : (c :: tail ++ rest).dropWhile isspace = c :: tail ++ rest := by
    rw [List.cons_append, List.dropWhile_cons_of_neg (by rw [first.1]; decide)]
  rw [scanInt, noSpace]
  split
  · next same => exact absurd (List.cons.inj same).1 first.2.1
  · next same => exact absurd (List.cons.inj same).1 first.2.2.1
  · rw [unsigned]
    rfl

end scan

theorem render_eq (a : SockAddr) : a.render = printInt a.sin_addr.b0 ++ COMMA ::
    (printInt a.sin_addr.b1 ++ COMMA :: (printInt a.sin_addr.b2 ++ COMMA ::
      (printInt a.sin_addr.b3 ++ COMMA :: (printInt a.port0 ++ COMMA :: printInt a.port1)))) := by
  have dots (b : Octet) : (printInt b).map (fun c => if c = DOT then COMMA else c) = printInt b := by
    calc (printInt b).map (fun c => if c = DOT then COMMA else c)
        = (printInt b).map id := List.map_congr_left fun c mem =>
          if_neg (digit_plain (printInt_digits b c mem)).2.2.2.1
      _ = printInt b := List.map_id _
  unfold SockAddr.render inet_ntoa
  simp only [List.map_append, List.map_cons, dots, if_true, List.append_assoc, List.cons_append]

/-- What a local sender writes into the pipe is the address that a local receiver connects to. -/
theorem sscanf_render (a : SockAddr) : sscanf a.render = some a := by
  have number (b : Octet) (rest : List Octet) (n : Nat) :
      scanInts (n + 2) (printInt b ++ COMMA :: rest) =
        (scanInts (n + 1) rest).map ((b.toNat : Int) :: ·) := by
    rw [scanInts, scanInt_printInt b (by simp)]
    exact if_pos rfl
  have last (b : Octet) : scanInts 1 (printInt b) = some [(b.toNat : Int)] := by
    have whole := @scanInt_printInt b [] (by simp)
    rw [List.append_nil] at whole
    rw [scanInts, whole]
    rfl
  have byte (b : Octet) : BitVec.ofInt 8 (b.toNat : Int) = b := by
    rw [BitVec.ofInt_natCast, BitVec.ofNat_toNat, BitVec.setWidth_eq]
  unfold sscanf
  rw [render_eq, number, number, number, number, number, last]
  simp only [Option.map_some, byte]

theorem portLine_render (a : SockAddr) : PortLine a.render := by
  have clean {d : Octet} (noComma : d ≠ COMMA) (noDigit : ¬ digitValue 10 d < 10) : d ∉ a.render := by
    have absent (b : Octet) : d ∉ printInt b := fun mem => noDigit (printInt_digits b d mem)
    rw [render_eq]
    simp only [List.mem_append, List.mem_cons, absent, noComma, or_false, not_false_eq_true]
  have digits (b : Octet) := length_printInt b
  have length : 0 < a.render.length ∧ a.render.length < 2046 := by
    have d0 := digits a.sin_addr.b0
    have d1 := digits a.sin_addr.b1
    have d2 := digits a.sin_addr.b2
    have d3 := digits a.sin_addr.b3
    have p0 := digits a.port0
    have p1 := digits a.port1
    rw [render_eq]
    simp only [List.length_append, List.length_cons]
    omega
  exact ⟨List.ne_nil_of_length_pos length.1, clean (by decide) (by decide), clean (by decide) (by decide),
    clean (by decide) (by decide), length.2⟩

/-! ### Lines in the buffer -/

section buffer

variable {limit : Nat} {stream line rest : List Octet} {cBuffer : Buffer}

theorem takeLine_clean (limit : Nat) (stream : List Octet) :
    CR ∉ (takeLine limit stream).1 ∧ (takeLine limit stream).1.length ≤ limit := by
  induction stream generalizing limit with
  | nil => exact ⟨List.not_mem_nil, Nat.zero_le _⟩
  | cons c stream ih =>
    cases limit with
    | zero => exact ⟨List.not_mem_nil, Nat.zero_le _⟩
    | succ limit =>
      rw [takeLine]
      by_cases cr : c = CR
      · rw [if_pos cr]
        exact ih (limit + 1)
      rw [if_neg cr]
      by_cases lf : c = LF
      · rw [if_pos lf]
        exact ⟨List.not_mem_nil, Nat.zero_le _⟩
      · rw [if_neg lf, List.mem_cons, not_or, List.length_cons]
        exact ⟨⟨fun same => cr same.symm, (ih limit).1⟩, Nat.succ_le_succ (ih limit).2⟩

/-- A loop leaves a line in the buffer. -/
theorem replyLoop_buffer (dwBufSize : Nat) (stream : List Octet) (cBuffer : Buffer) :
    ∃ before line, (replyLoop dwBufSize stream cBuffer).2 = sprintf before line ∧ CR ∉ line ∧
      LF ∉ line ∧ line.length ≤ dwBufSize - 2 := by
  generalize length : stream.length = n
  induction n using Nat.strongRecOn generalizing stream cBuffer with
  | ind n ih =>
    have line : ∃ before line, (LineRecv stream cBuffer dwBufSize).pBuf = sprintf before line ∧
        CR ∉ line ∧ LF ∉ line ∧ line.length ≤ dwBufSize - 2 := by
      rw [lineRecv_takeLine]
      have clean := takeLine_clean (dwBufSize - 2) stream
      exact ⟨_, _, rfl, clean.1, (takeLine_cut _ _).1, clean.2⟩
    rw [replyLoop]
    by_cases more : (LineRecv stream cBuffer dwBufSize).dwLen ≠ 0
    · rw [dif_pos more]
      split
      · exact line
      · exact ih _ (by rw [← length]; exact lineRecv_shorter more) _ _ rfl
    · rw [dif_neg more]
      exact line

theorem cString_sprintf {size : Nat} (short : line.length < size) (cBuffer : Buffer) :
    cString size (sprintf cBuffer line) = beforeNul line := by
  have text : (List.range size).map (sprintf cBuffer line) = line ++ NUL ::
      ((List.range (size - line.length - 1)).map fun i => cBuffer (line.length + 1 + i)) := by
    apply List.ext_getElem
    · simp
      omega
    · intro i inside _
      rw [List.getElem_map, List.getElem_range, sprintf]
      by_cases text_ : i < line.length
      · rw [if_pos text_, List.getElem_append_left text_, List.getD_eq_getElem _ _ text_]
      · by_cases ends : i = line.length
        · rw [if_neg text_, if_pos ends, List.getElem_append_right (by omega)]
          simp [ends]
        · obtain ⟨k, rfl⟩ : ∃ k, i = line.length + 1 + k := ⟨i - (line.length + 1), by omega⟩
          have behind : line.length + 1 + k - line.length = k + 1 := by omega
          rw [if_neg text_, if_neg ends, List.getElem_append_right (by omega)]
          simp only [behind, List.getElem_cons_succ, List.getElem_map, List.getElem_range]
  unfold cString beforeNul
  rw [text]
  by_cases absent : NUL ∈ line
  · obtain ⟨front, behind, rfl, clean⟩ := List.eq_append_cons_of_mem absent
    have all : ∀ c ∈ front, decide (c ≠ NUL) = true := by
      intro c mem
      rw [decide_eq_true_eq]
      intro same
      exact clean (same ▸ mem)
    rw [List.append_assoc, List.takeWhile_append_of_pos all, List.takeWhile_append_of_pos all]
    rfl
  · have all : ∀ c ∈ line, decide (c ≠ NUL) = true := by
      intro c mem
      rw [decide_eq_true_eq]
      intro same
      exact absent (same ▸ mem)
    rw [List.takeWhile_append_of_pos all, List.takeWhile_eq_self_iff.mpr all]
    exact List.append_nil line

/-- What is found in a server's answer fits the pipe and the target's buffer as one line. -/
theorem portLine_answer {dwBufSize : Nat} (within : dwBufSize ≤ cBufferSize - 128) {p : List Octet}
    (found : szPortStr (cString cBufferSize (replyLoop dwBufSize stream cBuffer).2) = some p) :
    PortLine p := by
  obtain ⟨before, line, buffer, noCr, noLf, length⟩ := replyLoop_buffer dwBufSize stream cBuffer
  have short : line.length < 2046 := by
    have size : cBufferSize = 2048 := rfl
    omega
  rw [buffer, cString_sprintf (Nat.lt_trans short (by decide))] at found
  have inside : p <:+: beforeNul line :=
    (next_within found).trans (next_suffix [LPAREN] (beforeNul line)).isInfix
  have noNul : NUL ∉ beforeNul line := fun mem => by simpa using List.mem_takeWhile_imp mem
  have part := List.takeWhile_sublist (fun c => decide (c ≠ NUL)) (l := line)
  exact {
    nonempty := next_ne_nil found
    noNul := fun mem => noNul (inside.subset mem)
    noCr := fun mem => noCr (part.subset (inside.subset mem))
    noLf := fun mem => noLf (part.subset (inside.subset mem))
    short := Nat.lt_of_le_of_lt (inside.length_le.trans part.length_le) short }

theorem takeLine_lf (noCr : CR ∉ line) (noLf : LF ∉ line) (short : line.length < limit)
    (rest : List Octet) : takeLine limit (line ++ LF :: rest) = (line, rest) := by
  induction line generalizing limit with
  | nil =>
    obtain ⟨limit, rfl⟩ := Nat.exists_eq_add_one_of_ne_zero (Nat.ne_zero_of_lt short)
    have apart : LF ≠ CR := by decide
    rw [List.nil_append, takeLine, if_neg apart, if_pos rfl]
  | cons c line ih =>
    rw [List.mem_cons, not_or] at noCr noLf
    obtain ⟨limit, rfl⟩ := Nat.exists_eq_add_one_of_ne_zero (Nat.ne_zero_of_lt short)
    rw [List.cons_append, takeLine, if_neg fun same => noCr.1 same.symm,
      if_neg fun same => noLf.1 same.symm, ih noCr.2 noLf.2 (Nat.lt_of_succ_lt_succ short)]

/-- The target takes the line from the pipe as it has been put there. -/
theorem lineRecv_portLine {p : List Octet} (line : PortLine p) (cBuffer : Buffer) :
    LineRecv (p ++ [LF]) cBuffer cBufferSize = ⟨[], sprintf cBuffer p, p.length⟩ := by
  have cut : takeLine (cBufferSize - 2) (p ++ [LF]) = (p, []) :=
    takeLine_lf line.noCr line.noLf line.short []
  rw [lineRecv_takeLine, cut]

theorem cString_portLine {p : List Octet} (line : PortLine p) (cBuffer : Buffer) :
    cString cBufferSize (sprintf cBuffer p) = p := by
  rw [cString_sprintf (Nat.lt_trans line.short (by decide)), beforeNul, List.takeWhile_eq_self_iff]
  intro c mem
  rw [decide_eq_true_eq]
  intro same
  exact line.noNul (same ▸ mem)

end buffer

end Ftpcp
