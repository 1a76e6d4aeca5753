import LtrData.Popdump.Pieces
import LtrData.Popdump.SavedMail

namespace Ftpcp

open Octet Popdump

def SPACE : Octet := 32

def HYPHEN : Octet := 45

/-! ### The reply loops -/

theorem lineRecv_shorter {stream : List Octet} {cBuffer : Buffer} {dwBufSize : Nat}
    (some_ : (LineRecv stream cBuffer dwBufSize).dwLen ≠ 0) :
    (LineRecv stream cBuffer dwBufSize).stream.length < stream.length := by
  rw [lineRecv_takeLine] at some_ ⊢
  dsimp only at some_ ⊢
  apply takeLine_shorter
  · intro empty
    rw [empty, takeLine] at some_
    exact some_ rfl
  · rw [Nat.pos_iff_ne_zero]
    intro none
    rw [none] at some_
    cases stream with
    | nil => exact some_ rfl
    | cons c stream => exact some_ rfl

/-- What is left of the stream, and the buffer, when a loop is left. -/
def replyLoop (dwBufSize : Nat) (stream : List Octet) (cBuffer : Buffer) : List Octet × Buffer :=
  let r := LineRecv stream cBuffer dwBufSize
  if _ : r.dwLen ≠ 0 then
    if r.pBuf 3 = SPACE then (r.stream, r.pBuf) else replyLoop dwBufSize r.stream r.pBuf
  else (r.stream, r.pBuf)
termination_by stream.length
decreasing_by exact lineRecv_shorter ‹_›

/-- A loop, and the codes of which one must be at the start of the buffer behind it, where any is. -/
structure Exchange where
  dwBufSize : Nat
  codes : List (List Octet)

def Exchange.accepts (e : Exchange) (cBuffer : Buffer) : Bool :=
  e.codes = [] || (List.range 3).map cBuffer ∈ e.codes

/-- The loops of PasvThread and PortThread differ in the command for the data connection. -/
inductive Thread
  | PasvThread
  | PortThread
deriving DecidableEq

def Thread.connectCode : Thread → List Octet
  | .PasvThread => text "227"
  | .PortThread => text "200"

def cBufferSize : Nat := 2048

def Thread.exchanges (thread : Thread) (bModeA bModeB : Bool) : List Exchange :=
  [⟨cBufferSize, [text "220"]⟩, ⟨cBufferSize, [text "331"]⟩, ⟨cBufferSize, [text "230"]⟩] ++
  (if bModeA then [⟨cBufferSize, []⟩] else []) ++ (if bModeB then [⟨cBufferSize, []⟩] else []) ++
  [⟨cBufferSize - 128, [thread.connectCode]⟩, ⟨cBufferSize, [text "125", text "150"]⟩,
    ⟨cBufferSize, [text "226"]⟩, ⟨cBufferSize, []⟩]

/-- What else a thread does: whether it gets to the loop with this number, with its commands sent,
    and what is in the buffer then, where the port string is taken apart or read, too. -/
structure Environment where
  getsTo : Nat → Bool
  cBuffer : Nat → Buffer → Buffer

/-- What is left of the stream, and the buffer, behind each loop up to the end of the thread. -/
def runLoops (env : Environment) : Nat → List Exchange → List Octet → Buffer →
    List (List Octet × Buffer)
  | _, [], _, _ => []
  | k, e :: exchanges, stream, cBuffer =>
    if env.getsTo k then
      let after := replyLoop e.dwBufSize stream (env.cBuffer k cBuffer)
      after :: if e.accepts after.2 then runLoops env (k + 1) exchanges after.1 after.2 else []
    else []

/-! ### Replies -/

def isdigit (c : Octet) : Bool := 48 ≤ c.toNat && c.toNat ≤ 57

/-- A reply of one line, or of more with an opening line and lines of any content behind it. -/
structure Reply where
  code : List Octet
  digits : code.length = 3 ∧ ∀ c ∈ code, isdigit c
  opening : Option (Line × List Line)
  last : Line

namespace Reply

def earlier (r : Reply) : List (List Octet) :=
  match r.opening with
  | none => []
  | some (first, lines) => (r.code ++ HYPHEN :: first.bytes) :: lines.map Line.bytes

def final (r : Reply) : List Octet := r.code ++ SPACE :: r.last.bytes

def render (r : Reply) : List Octet := crlfText (r.earlier ++ [r.final])

end Reply

/-- The line is in the buffer as a string. -/
def HoldsLine (cBuffer : Buffer) (line : List Octet) : Prop :=
  (List.range (line.length + 1)).map cBuffer = line ++ [NUL]

/-- Each loop takes the lines of one reply and leaves its final line in the buffer. -/
def Follows : List Reply → List (List Octet × Buffer) → Prop
  | reply :: replies, after :: loops =>
    after.1 = (replies.map Reply.render).flatten ∧ HoldsLine after.2 reply.final ∧
      Follows replies loops
  | _, _ => True

/-- No piece of the line is empty or has a space as its fourth character. -/
def Passed (limit : Nat) (text : List Octet) : Prop :=
  text.length % limit ≠ 0 ∧ ∀ k, text[k * limit + 3]? ≠ some SPACE

/-- The lines before the last one are passed over, and the last one is taken as a whole. -/
def InStep (limit : Nat) (r : Reply) : Prop :=
  (∀ line ∈ r.earlier, Passed limit line) ∧ r.final.length < limit

def Exchange.acceptsCode (e : Exchange) (code : List Octet) : Prop := e.codes = [] ∨ code ∈ e.codes

/-- The replies that the thread gets to have this form, where a reply with a code that a loop does
    not expect is the last one. -/
def AllInStep (env : Environment) : Nat → List Exchange → List Reply → Prop
  | k, e :: exchanges, reply :: replies =>
    env.getsTo k = true → InStep (e.dwBufSize - 2) reply ∧
      (e.acceptsCode reply.code → AllInStep env (k + 1) exchanges replies)
  | _, _, _ => True

section takeLine

variable {limit : Nat} {line rest : List Octet}

theorem takeLine_line (noCr : CR ∉ line) (noLf : LF ∉ line) (short : line.length < limit)
    (rest : List Octet) : takeLine limit (line ++ CR :: LF :: rest) = (line, rest) := by
  obtain ⟨limit, rfl⟩ := Nat.exists_eq_add_one_of_ne_zero (Nat.ne_zero_of_lt short)
  induction line generalizing limit with
  | nil =>
    have apart : LF ≠ CR := by decide
    rw [List.nil_append, takeLine, if_pos rfl, takeLine, if_neg apart, if_pos rfl]
  | cons c line ih =>
    rw [List.mem_cons, not_or] at noCr noLf
    rw [List.length_cons] at short
    rw [List.cons_append, takeLine, if_neg fun same => noCr.1 same.symm,
      if_neg fun same => noLf.1 same.symm]
    cases limit with
    | zero => omega
    | succ limit => rw [ih noCr.2 noLf.2 limit (by omega)]

theorem takeLine_full (noCr : CR ∉ line) (noLf : LF ∉ line) (long : limit ≤ line.length)
    (rest : List Octet) :
    takeLine limit (line ++ rest) = (line.take limit, line.drop limit ++ rest) := by
  induction line generalizing limit with
  | nil =>
    obtain rfl := Nat.le_zero.mp long
    cases rest with
    | nil => rfl
    | cons c rest => rfl
  | cons c line ih =>
    rw [List.mem_cons, not_or] at noCr noLf
    cases limit with
    | zero => rfl
    | succ limit =>
      rw [List.length_cons, Nat.succ_le_succ_iff] at long
      rw [List.cons_append, takeLine, if_neg fun same => noCr.1 same.symm,
        if_neg fun same => noLf.1 same.symm, ih noCr.2 noLf.2 long]
      rfl

end takeLine

section replyLoop

variable {dwBufSize : Nat} {stream piece rest : List Octet} {cBuffer : Buffer}

/-- A loop goes on behind a piece that has characters and no space as the fourth one. -/
theorem replyLoop_piece (cut : takeLine (dwBufSize - 2) stream = (piece, rest)) (cBuffer : Buffer) :
    replyLoop dwBufSize stream cBuffer =
      if piece ≠ [] ∧ sprintf cBuffer piece 3 ≠ SPACE then
        replyLoop dwBufSize rest (sprintf cBuffer piece)
      else (rest, sprintf cBuffer piece) := by
  have received := lineRecv_takeLine stream cBuffer dwBufSize
  rw [cut] at received
  rw [replyLoop, received]
  dsimp only
  by_cases none_ : piece = []
  · rw [dif_neg (by simp [none_]), if_neg fun more => more.1 none_]
  · rw [dif_pos (by simp [none_])]
    by_cases space : sprintf cBuffer piece 3 = SPACE
    · rw [if_pos space, if_neg fun more => more.2 space]
    · rw [if_neg space, if_pos ⟨none_, space⟩]

/-- The fourth character in the buffer is the piece's, the NUL behind it, or what was there. -/
theorem sprintf_three (cBuffer : Buffer) (piece : List Octet) : sprintf cBuffer piece 3 =
    if 3 < piece.length then piece.getD 3 0 else if 3 = piece.length then NUL else cBuffer 3 := rfl

theorem passed_short {limit : Nat} {text : List Octet} (short : text.length < limit) :
    Passed limit text ↔ text ≠ [] ∧ text[3]? ≠ some SPACE := by
  unfold Passed
  rw [Nat.mod_eq_of_lt short, ne_eq, List.length_eq_zero_iff]
  constructor
  · intro passed
    refine ⟨passed.1, ?_⟩
    have first := passed.2 0
    rw [Nat.zero_mul, Nat.zero_add] at first
    exact first
  · intro passed
    refine ⟨passed.1, fun k => ?_⟩
    cases k with
    | zero =>
      rw [Nat.zero_mul, Nat.zero_add]
      exact passed.2
    | succ k =>
      have behind : text.length ≤ (k + 1) * limit + 3 := by
        rw [Nat.succ_mul]
        omega
      rw [List.getElem?_eq_none behind]
      exact nofun

theorem passed_long {limit : Nat} {text : List Octet} (long : limit ≤ text.length) :
    Passed limit text ↔ text[3]? ≠ some SPACE ∧ Passed limit (text.drop limit) := by
  unfold Passed
  have next (k : Nat) : (text.drop limit)[k * limit + 3]? = text[(k + 1) * limit + 3]? := by
    rw [List.getElem?_drop, Nat.succ_mul]
    congr 1
    omega
  rw [List.length_drop, ← Nat.mod_eq_sub_mod long]
  simp only [next]
  constructor
  · intro passed
    refine ⟨?_, passed.1, fun k => passed.2 (k + 1)⟩
    have first := passed.2 0
    rw [Nat.zero_mul, Nat.zero_add] at first
    exact first
  · intro passed
    obtain ⟨first, odd, later⟩ := passed
    refine ⟨odd, fun k => ?_⟩
    cases k with
    | zero =>
      rw [Nat.zero_mul, Nat.zero_add]
      exact first
    | succ k => exact later k

theorem sprintf_ne_space {limit : Nat} (four : 4 ≤ limit) {text : List Octet}
    (noSpace : text[3]? ≠ some SPACE) (stale : cBuffer 3 ≠ SPACE ∨ 4 ≤ text.length) :
    sprintf cBuffer (text.take limit) 3 ≠ SPACE := by
  rw [sprintf_three, List.length_take]
  split
  · next inside =>
    rw [List.getD_eq_getElem?_getD, List.getElem?_take_of_lt (by omega),
      List.getElem?_eq_getElem (by omega)]
    intro same
    exact noSpace (by rw [List.getElem?_eq_getElem (by omega)]; exact congrArg some same)
  · split
    · decide
    · rcases stale with stale | long
      · exact stale
      · omega

theorem sprintf_eq_space {limit : Nat} (four : 4 ≤ limit) {text : List Octet}
    (space : text[3]? = some SPACE) (cBuffer : Buffer) :
    sprintf cBuffer (text.take limit) 3 = SPACE := by
  obtain ⟨inside, _⟩ := List.getElem?_eq_some_iff.mp space
  rw [sprintf_three, if_pos (by rw [List.length_take]; omega), List.getD_eq_getElem?_getD,
    List.getElem?_take_of_lt (by omega), space]
  rfl

theorem take_ne_nil {limit : Nat} (four : 4 ≤ limit) {line : List Octet} (some_ : line ≠ []) :
    line.take limit ≠ [] := by
  rw [ne_eq, List.take_eq_nil_iff, not_or]
  exact ⟨by omega, some_⟩

section line

variable {line : List Octet} (four : 4 ≤ dwBufSize - 2) (noCr : CR ∉ line) (noLf : LF ∉ line)

include four noCr noLf

theorem replyLoop_passed (passed : Passed (dwBufSize - 2) line)
    (stale : cBuffer 3 ≠ SPACE ∨ 4 ≤ line.length) (rest : List Octet) :
    ∃ cBuffer', cBuffer' 3 ≠ SPACE ∧ replyLoop dwBufSize (line ++ CR :: LF :: rest) cBuffer =
      replyLoop dwBufSize rest cBuffer' := by
  generalize length : line.length = n
  induction n using Nat.strongRecOn generalizing line cBuffer with
  | ind n ih =>
    by_cases short : line.length < dwBufSize - 2
    · have whole : line.take (dwBufSize - 2) = line := List.take_of_length_le (Nat.le_of_lt short)
      rw [passed_short short] at passed
      have fourth := sprintf_ne_space four passed.2 stale
      rw [whole] at fourth
      refine ⟨sprintf cBuffer line, fourth, ?_⟩
      rw [replyLoop_piece (takeLine_line noCr noLf short rest), if_pos ⟨passed.1, fourth⟩]
    · have long : dwBufSize - 2 ≤ line.length := Nat.not_lt.mp short
      have some_ : line ≠ [] := List.ne_nil_of_length_pos (by omega)
      rw [passed_long long] at passed
      have fourth := sprintf_ne_space four passed.1 stale
      obtain ⟨cBuffer', fourth', loop⟩ := ih (line.length - (dwBufSize - 2)) (by omega)
        (fun mem => noCr (List.mem_of_mem_drop mem)) (fun mem => noLf (List.mem_of_mem_drop mem))
        passed.2 (.inl fourth) List.length_drop
      refine ⟨cBuffer', fourth', ?_⟩
      rw [replyLoop_piece (takeLine_full noCr noLf long _), if_pos ⟨take_ne_nil four some_, fourth⟩]
      exact loop

theorem replyLoop_stops (stops : ¬ Passed (dwBufSize - 2) line) (cBuffer : Buffer)
    (rest : List Octet) :
    ∃ more, (replyLoop dwBufSize (line ++ CR :: LF :: rest) cBuffer).1 = more ++ rest := by
  generalize length : line.length = n
  induction n using Nat.strongRecOn generalizing line cBuffer with
  | ind n ih =>
    by_cases short : line.length < dwBufSize - 2
    · have whole : line.take (dwBufSize - 2) = line := List.take_of_length_le (Nat.le_of_lt short)
      refine ⟨[], ?_⟩
      rw [replyLoop_piece (takeLine_line noCr noLf short rest), if_neg]
      · rfl
      · intro more
        rw [passed_short short, not_and, not_not] at stops
        have fourth := sprintf_eq_space four (stops more.1) cBuffer
        rw [whole] at fourth
        exact more.2 fourth
    · have long : dwBufSize - 2 ≤ line.length := Nat.not_lt.mp short
      rw [replyLoop_piece (takeLine_full noCr noLf long _)]
      split
      · next more =>
        rw [passed_long long, not_and] at stops
        have later := stops fun space => more.2 (sprintf_eq_space four space cBuffer)
        exact ih (line.length - (dwBufSize - 2)) (by omega)
          (fun mem => noCr (List.mem_of_mem_drop mem)) (fun mem => noLf (List.mem_of_mem_drop mem))
          later _ List.length_drop
      · exact ⟨line.drop (dwBufSize - 2) ++ [CR, LF], by simp⟩

end line

section reply

variable {r : Reply} {later : List Octet}

theorem digit_ne {c d : Octet} (digit : isdigit c = true) (other : isdigit d = false) : c ≠ d := by
  intro same
  rw [same, other] at digit
  cases digit

theorem Reply.not_mem (r : Reply) {d separator : Octet} (line : Line) (noDigit : isdigit d = false)
    (other : separator ≠ d) (absent : d ∉ line.bytes) : d ∉ r.code ++ separator :: line.bytes := by
  rw [List.mem_append, List.mem_cons, not_or, not_or]
  exact ⟨fun mem => digit_ne (r.digits.2 d mem) noDigit rfl, other.symm, absent⟩

theorem Reply.final_clean (r : Reply) : CR ∉ r.final ∧ LF ∉ r.final :=
  ⟨r.not_mem r.last (by decide) (by decide) r.last.noCr,
    r.not_mem r.last (by decide) (by decide) r.last.noLf⟩

theorem Reply.earlier_clean (r : Reply) : ∀ line ∈ r.earlier, CR ∉ line ∧ LF ∉ line := by
  unfold Reply.earlier
  cases r.opening with
  | none => simp
  | some opening =>
    obtain ⟨first, lines⟩ := opening
    intro line mem
    rcases List.mem_cons.mp mem with rfl | mem
    · exact ⟨r.not_mem first (by decide) (by decide) first.noCr,
        r.not_mem first (by decide) (by decide) first.noLf⟩
    · obtain ⟨line, _, rfl⟩ := List.mem_map.mp mem
      exact ⟨line.noCr, line.noLf⟩

/-- The opening line has a fourth character, so that nothing older is looked at. -/
theorem Reply.earlier_head (r : Reply) : ∀ line ∈ r.earlier.head?, 4 ≤ line.length := by
  unfold Reply.earlier
  cases r.opening with
  | none => simp
  | some opening =>
    obtain ⟨first, lines⟩ := opening
    have three := r.digits.1
    intro line mem
    obtain rfl : _ = line := Option.some.inj mem
    rw [List.length_append, List.length_cons]
    omega

theorem Reply.final_fourth (r : Reply) : r.final[3]? = some SPACE := by
  rw [Reply.final, List.getElem?_append_right (by rw [r.digits.1]), r.digits.1]
  rfl

variable (four : 4 ≤ dwBufSize - 2)

include four

theorem replyLoop_lines {lines : List (List Octet)} (clean : ∀ line ∈ lines, CR ∉ line ∧ LF ∉ line)
    (passed : ∀ line ∈ lines, Passed (dwBufSize - 2) line)
    (stale : cBuffer 3 ≠ SPACE ∨ ∀ line ∈ lines.head?, 4 ≤ line.length) (rest : List Octet) :
    ∃ cBuffer', replyLoop dwBufSize (crlfText lines ++ rest) cBuffer =
      replyLoop dwBufSize rest cBuffer' := by
  induction lines generalizing cBuffer with
  | nil => exact ⟨cBuffer, rfl⟩
  | cons line lines ih =>
    rw [List.forall_mem_cons] at clean passed
    have stale' : cBuffer 3 ≠ SPACE ∨ 4 ≤ line.length := stale.imp_right fun head => head line rfl
    obtain ⟨cBuffer', fourth, loop⟩ := replyLoop_passed four clean.1.1 clean.1.2 passed.1 stale'
      (crlfText lines ++ rest)
    obtain ⟨after, loops⟩ := ih clean.2 passed.2 (.inl fourth)
    refine ⟨after, ?_⟩
    rw [crlfText_cons, List.append_assoc, List.cons_append, List.cons_append, loop, loops]

theorem replyLoop_lines_stops {lines : List (List Octet)}
    (clean : ∀ line ∈ lines, CR ∉ line ∧ LF ∉ line)
    (stops : ¬ ∀ line ∈ lines, Passed (dwBufSize - 2) line)
    (stale : cBuffer 3 ≠ SPACE ∨ ∀ line ∈ lines.head?, 4 ≤ line.length) (rest : List Octet) :
    ∃ more, (replyLoop dwBufSize (crlfText lines ++ rest) cBuffer).1 = more ++ rest := by
  induction lines generalizing cBuffer with
  | nil => exact absurd (fun line mem => absurd mem List.not_mem_nil) stops
  | cons line lines ih =>
    rw [List.forall_mem_cons] at clean stops
    rw [crlfText_cons, List.append_assoc, List.cons_append, List.cons_append]
    by_cases passed : Passed (dwBufSize - 2) line
    · have stale' : cBuffer 3 ≠ SPACE ∨ 4 ≤ line.length := stale.imp_right fun head => head line rfl
      obtain ⟨cBuffer', fourth, loop⟩ := replyLoop_passed four clean.1.1 clean.1.2 passed stale'
        (crlfText lines ++ rest)
      rw [loop]
      exact ih clean.2 (fun all => stops ⟨passed, all⟩) (.inl fourth)
    · obtain ⟨more, left⟩ := replyLoop_stops four clean.1.1 clean.1.2 passed cBuffer
        (crlfText lines ++ rest)
      exact ⟨more ++ crlfText lines, by rw [left, List.append_assoc]⟩

theorem replyLoop_inStep (inStep : InStep (dwBufSize - 2) r) (later : List Octet)
    (cBuffer : Buffer) : ∃ cBuffer', replyLoop dwBufSize (r.render ++ later) cBuffer =
      (later, sprintf cBuffer' r.final) := by
  obtain ⟨passed, short⟩ := inStep
  have stale : cBuffer 3 ≠ SPACE ∨ ∀ line ∈ r.earlier.head?, 4 ≤ line.length := .inr r.earlier_head
  obtain ⟨cBuffer', lines⟩ := replyLoop_lines four r.earlier_clean passed stale
    (crlfText [r.final] ++ later)
  have whole : r.final.take (dwBufSize - 2) = r.final := List.take_of_length_le (Nat.le_of_lt short)
  have fourth := sprintf_eq_space four r.final_fourth cBuffer'
  rw [whole] at fourth
  refine ⟨cBuffer', ?_⟩
  rw [Reply.render, crlfText_append, List.append_assoc, lines, crlfText_cons, crlfText_nil,
    List.append_assoc, List.cons_append, List.cons_append, List.nil_append,
    replyLoop_piece (takeLine_line r.final_clean.1 r.final_clean.2 short later),
    if_neg fun more => more.2 fourth]

/-- A loop that does not pass over the earlier lines, or does not take the last one as a whole,
    leaves some of the reply. -/
theorem replyLoop_outOfStep (outOfStep : ¬ InStep (dwBufSize - 2) r) (later : List Octet)
    (cBuffer : Buffer) : (replyLoop dwBufSize (r.render ++ later) cBuffer).1 ≠ later := by
  have leaves {more : List Octet} (some_ : more ≠ []) : more ++ later ≠ later := by
    intro same
    exact some_ (List.append_left_eq_self.mp same)
  have stale : cBuffer 3 ≠ SPACE ∨ ∀ line ∈ r.earlier.head?, 4 ≤ line.length := .inr r.earlier_head
  rw [Reply.render, crlfText_append, List.append_assoc]
  by_cases passed : ∀ line ∈ r.earlier, Passed (dwBufSize - 2) line
  · have long : dwBufSize - 2 ≤ r.final.length :=
      Nat.not_lt.mp fun short => outOfStep ⟨passed, short⟩
    obtain ⟨cBuffer', lines⟩ := replyLoop_lines four r.earlier_clean passed stale
      (crlfText [r.final] ++ later)
    have fourth := sprintf_eq_space four r.final_fourth cBuffer'
    have cut := takeLine_full r.final_clean.1 r.final_clean.2 long (CR :: LF :: later)
    rw [lines, crlfText_cons, crlfText_nil, List.append_assoc, List.cons_append, List.cons_append,
      List.nil_append, replyLoop_piece cut, if_neg fun more => more.2 fourth]
    have split : r.final.drop (dwBufSize - 2) ++ CR :: LF :: later =
        (r.final.drop (dwBufSize - 2) ++ [CR, LF]) ++ later := by simp
    show r.final.drop (dwBufSize - 2) ++ CR :: LF :: later ≠ later
    rw [split]
    exact leaves (by simp)
  · obtain ⟨more, left⟩ := replyLoop_lines_stops four r.earlier_clean passed stale
      (crlfText [r.final] ++ later)
    rw [left, ← List.append_assoc]
    exact leaves (by simp)

end reply

end replyLoop

section runLoops

variable {env : Environment}

theorem holdsLine_sprintf (cBuffer : Buffer) (line : List Octet) :
    HoldsLine (sprintf cBuffer line) line := by
  unfold HoldsLine
  apply List.ext_getElem
  · simp
  · intro i inside _
    rw [List.length_map, List.length_range] at inside
    rw [List.getElem_map, List.getElem_range, sprintf]
    by_cases text_ : i < line.length
    · rw [if_pos text_, List.getElem_append_left text_, List.getD_eq_getElem _ _ text_]
    · have ends : i = line.length := by omega
      rw [if_neg text_, if_pos ends, List.getElem_append_right (by omega)]
      simp

theorem accepts_sprintf (e : Exchange) (r : Reply) (cBuffer : Buffer) :
    e.accepts (sprintf cBuffer r.final) = true ↔ e.acceptsCode r.code := by
  have three := r.digits.1
  have code : (List.range 3).map (sprintf cBuffer r.final) = r.code := by
    apply List.ext_getElem
    · simp [three]
    · intro i inside _
      rw [List.length_map, List.length_range] at inside
      have within : i < r.final.length := by
        rw [Reply.final, List.length_append]
        omega
      rw [List.getElem_map, List.getElem_range, sprintf, if_pos within,
        List.getD_eq_getElem _ _ within]
      exact List.getElem_append_left (by omega)
  unfold Exchange.accepts Exchange.acceptsCode
  rw [code, Bool.or_eq_true, decide_eq_true_eq, decide_eq_true_eq]

theorem follows_nil (replies : List Reply) : Follows replies [] := by
  cases replies <;> trivial

theorem follows_iff {exchanges : List Exchange} (four : ∀ e ∈ exchanges, 4 ≤ e.dwBufSize - 2)
    (k : Nat) (replies : List Reply) (cBuffer : Buffer) :
    Follows replies (runLoops env k exchanges (replies.map Reply.render).flatten cBuffer) ↔
      AllInStep env k exchanges replies := by
  induction exchanges generalizing k replies cBuffer with
  | nil => simp [runLoops, AllInStep, follows_nil]
  | cons e exchanges ih =>
    rw [List.forall_mem_cons] at four
    cases replies with
    | nil => simp [Follows, AllInStep]
    | cons r replies =>
      rw [runLoops, AllInStep]
      by_cases gets : env.getsTo k = true
      · rw [if_pos gets, forall_prop_of_true gets, List.map_cons, List.flatten_cons]
        by_cases inStep : InStep (e.dwBufSize - 2) r
        · obtain ⟨cBuffer', loop⟩ := replyLoop_inStep four.1 inStep
            (replies.map Reply.render).flatten (env.cBuffer k cBuffer)
          rw [loop]
          dsimp only
          rw [Follows]
          by_cases accepts : e.acceptsCode r.code
          · rw [if_pos ((accepts_sprintf e r cBuffer').mpr accepts), ih four.2]
            simp [inStep, accepts, holdsLine_sprintf]
          · rw [if_neg fun code => accepts ((accepts_sprintf e r cBuffer').mp code)]
            simp [inStep, accepts, holdsLine_sprintf, follows_nil]
        · have leaves := replyLoop_outOfStep four.1 inStep (replies.map Reply.render).flatten
            (env.cBuffer k cBuffer)
          rw [Follows]
          constructor
          · intro follows
            exact absurd follows.1 leaves
          · intro stays
            exact absurd stays.1 inStep
      · simp [gets, follows_nil]

/-- A thread stays in step with the server as long as the replies it gets to are passed over line by
    line up to a last line that fits the buffer. -/
theorem thread_follows_iff (thread : Thread) (bModeA bModeB : Bool) (env : Environment)
    (replies : List Reply) (cBuffer : Buffer) :
    Follows replies (runLoops env 0 (thread.exchanges bModeA bModeB)
        (replies.map Reply.render).flatten cBuffer) ↔
      AllInStep env 0 (thread.exchanges bModeA bModeB) replies := by
  apply follows_iff
  cases thread <;> cases bModeA <;> cases bModeB <;> decide

end runLoops

/-- A greeting with an empty line in it. -/
def greeting : Reply where
  code := text "220"
  digits := by decide
  opening := some (⟨[], by decide, by decide⟩, [⟨[], by decide, by decide⟩])
  last := ⟨[], by decide, by decide⟩

/-- The empty line is taken for the end of the stream. -/
theorem greeting_outOfStep : ¬ Follows [greeting] (runLoops ⟨fun _ => true, fun _ => id⟩ 0
    (Thread.PasvThread.exchanges false true) ([greeting].map Reply.render).flatten fun _ => 0) := by
  have sizes : ∀ e ∈ Thread.PasvThread.exchanges false true, 4 ≤ e.dwBufSize - 2 := by decide
  rw [follows_iff sizes]
  intro all
  have passed : Passed (cBufferSize - 2) [] := (all rfl).1.1 [] (by decide)
  exact passed.1 rfl

end Ftpcp
