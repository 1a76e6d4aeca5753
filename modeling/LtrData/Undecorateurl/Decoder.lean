import LtrData.Library.Cells
import LtrData.Library.PercentDecoding

namespace Undecorateurl

open PercentDecoding

def bufferSize : Nat := 4096

/-! ### undecorateurlname -/

/-- `reads` are the positions of the buffer that have been read. -/
structure Decoding where
  buffer : Cells Byte
  writeptr : Nat
  targetlength : Nat
  done : Nat
  reads : List Nat

def Decoding.put (s : Decoding) (c : Byte) (reads : List Nat) : Decoding where
  buffer := s.buffer.write s.writeptr [c]
  writeptr := s.writeptr + 1
  targetlength := s.targetlength + 1
  done := s.done + reads.length
  reads := s.reads ++ reads

/-- The position is copied after those behind it have been looked at. -/
def Decoding.copy (s : Decoding) (ahead : List Nat) : Decoding :=
  { s.put (s.buffer s.done) [s.done] with reads := s.reads ++ s.done :: ahead }

def Decoding.pass (s : Decoding) : Decoding :=
  let high := s.buffer (s.done + 1)
  let low := s.buffer (s.done + 2)
  if s.buffer s.done = PERCENT then
    if isxdigit high then
      if isxdigit low then s.put (hexValue high low) [s.done, s.done + 1, s.done + 2]
      else s.copy [s.done + 1, s.done + 2]
    else s.copy [s.done + 1]
  else s.copy []

def decodeLoop (sourcelength : Nat) : Nat → Decoding → Decoding
  | 0, s => s
  | passes + 1, s =>
    if s.done < sourcelength then decodeLoop sourcelength passes s.pass else s

/-- Every pass moves on, so that there are no more passes than characters. -/
def undecorateurlname (buffer : Cells Byte) (sourcelength : Nat) : Decoding :=
  decodeLoop sourcelength sourcelength ⟨buffer, 0, 0, 0, []⟩

/-! ### main without arguments -/

/-- What fwrite returns, which is the number of items of the given size. -/
def fwrite (size count : Nat) : Nat := if size = 0 then 0 else count

/-- What has been written, and for each call of undecorateurlname the length and the positions that
    were read. -/
structure Filtered where
  stdout : List Byte
  calls : List (Nat × List Nat)

/-- The loop for the results of fread up to the first one that is empty. -/
def filterLoop (buffer : Cells Byte) : List (List Byte) → Filtered
  | [] => ⟨[], []⟩
  | piece :: pieces =>
    let decoded := undecorateurlname (buffer.write 0 piece) piece.length
    let writesize := decoded.targetlength
    let out := decoded.buffer.read 0 writesize
    let call := (piece.length, decoded.reads)
    if fwrite writesize 1 ≠ writesize then ⟨out, [call]⟩
    else
      let rest := filterLoop decoded.buffer pieces
      ⟨out ++ rest.stdout, call :: rest.calls⟩

/-- A way in which fread delivers the standard input. -/
structure Delivery where
  pieces : List (List Byte)
  some_ : ∀ piece ∈ pieces, piece ≠ []
  fits : ∀ piece ∈ pieces, piece.length ≤ bufferSize

/-- Every position that is read belongs to the text. -/
def ReadsInside (call : Nat × List Nat) : Prop := ∀ i ∈ call.2, i < call.1

/-- The output is the decoded input, and nothing but the text of a piece is read to decode it. -/
def Decodes (buffer : Cells Byte) (d : Delivery) : Prop :=
  (filterLoop buffer d.pieces).stdout = percentDecode d.pieces.flatten ∧
    ∀ call ∈ (filterLoop buffer d.pieces).calls, ReadsInside call

section decodeLoop

variable {n passes : Nat} {s : Decoding}

theorem writeptr_pass (s : Decoding) : s.pass.writeptr = s.writeptr + 1 := by
  unfold Decoding.pass
  dsimp only
  repeat' split
  all_goals rfl

theorem targetlength_pass (s : Decoding) : s.pass.targetlength = s.targetlength + 1 := by
  unfold Decoding.pass
  dsimp only
  repeat' split
  all_goals rfl

theorem reads_pass (s : Decoding) : ∃ more, s.pass.reads = s.reads ++ more := by
  unfold Decoding.pass
  dsimp only
  repeat' split
  all_goals exact ⟨_, rfl⟩

theorem reads_decodeLoop (n passes : Nat) (s : Decoding) :
    ∃ more, (decodeLoop n passes s).reads = s.reads ++ more := by
  induction passes generalizing s with
  | zero => exact ⟨[], (List.append_nil _).symm⟩
  | succ passes ih =>
    rw [decodeLoop]
    split
    · obtain ⟨first, pass⟩ := reads_pass s
      obtain ⟨more, loop⟩ := ih s.pass
      exact ⟨first ++ more, by rw [loop, pass, List.append_assoc]⟩
    · exact ⟨[], (List.append_nil _).symm⟩

/-- The rest of the text from the place where the loop stands. -/
def Decoding.rest (n : Nat) (s : Decoding) : List Byte := s.buffer.read s.done (n - s.done)

theorem rest_put (s : Decoding) (c : Byte) {reads : List Nat} (behind : s.writeptr ≤ s.done)
    (moves : 0 < reads.length) (n : Nat) :
    (s.put c reads).rest n = s.buffer.read (s.done + reads.length) (n - (s.done + reads.length)) := by
  unfold Decoding.rest Decoding.put
  apply Cells.read_write_after
  simp only [List.length_singleton]
  omega

theorem out_put (s : Decoding) (c : Byte) (reads : List Nat) :
    (s.put c reads).buffer.read 0 (s.put c reads).writeptr = s.buffer.read 0 s.writeptr ++ [c] := by
  have written := Cells.read_write_append s.buffer [c] 0 s.writeptr
  rw [Nat.zero_add] at written
  exact written

theorem read_cons (m : Cells Byte) {i n : Nat} (inside : i < n) :
    m.read i (n - i) = m i :: m.read (i + 1) (n - (i + 1)) := by
  have length : n - i = n - (i + 1) + 1 := by omega
  rw [length]
  rfl

theorem read_end (m : Cells Byte) {i n : Nat} (outside : n ≤ i) : m.read i (n - i) = [] := by
  rw [Nat.sub_eq_zero_of_le outside, Cells.read_zero]

/-- What a pass does that reads nothing behind the text. -/
structure Passed (n : Nat) (s : Decoding) (c : Byte) (rest : List Byte) : Prop where
  out : s.pass.buffer.read 0 s.pass.writeptr = s.buffer.read 0 s.writeptr ++ [c]
  rest : s.pass.rest n = rest
  forward : s.done < s.pass.done
  inside : ∃ more, s.pass.reads = s.reads ++ more ∧ ∀ i ∈ more, i < n

theorem passed_copy {ahead : List Nat} (pass : s.pass = s.copy ahead) (inside : s.done < n)
    (text : ∀ i ∈ ahead, i < n) (behind : s.writeptr ≤ s.done) :
    Passed n s (s.buffer s.done) (s.buffer.read (s.done + 1) (n - (s.done + 1))) := by
  refine ⟨?_, ?_, ?_, s.done :: ahead, ?_, ?_⟩
  · rw [pass]
    exact out_put s (s.buffer s.done) [s.done]
  · rw [pass]
    have moves : 0 < [s.done].length := Nat.zero_lt_one
    exact rest_put s (s.buffer s.done) behind moves n
  · rw [pass]
    exact Nat.lt_succ_self _
  · rw [pass]
    rfl
  · intro i mem
    rcases List.mem_cons.mp mem with rfl | mem
    · exact inside
    · exact text i mem

theorem passed_escape {c : Byte} (pass : s.pass = s.put c [s.done, s.done + 1, s.done + 2])
    (inside : s.done + 2 < n) (behind : s.writeptr ≤ s.done) :
    Passed n s c (s.buffer.read (s.done + 3) (n - (s.done + 3))) := by
  refine ⟨?_, ?_, ?_, [s.done, s.done + 1, s.done + 2], ?_, ?_⟩
  · rw [pass]
    exact out_put s _ _
  · rw [pass]
    exact rest_put s c behind (by simp) n
  · rw [pass]
    show s.done < s.done + 3
    omega
  · rw [pass]
    rfl
  · intro i mem
    simp only [List.mem_cons, List.not_mem_nil, or_false] at mem
    omega

/-- A pass decodes the next character, or an escape is left open and what is behind is read. -/
theorem pass_rest (inside : s.done < n) (behind : s.writeptr ≤ s.done) :
    (∃ c rest, Passed n s c rest ∧ percentDecode (s.rest n) = c :: percentDecode rest ∧
      (OpenEnd (s.rest n) ↔ OpenEnd rest)) ∨
    (OpenEnd (s.rest n) ∧ ∃ i ∈ s.pass.reads, n ≤ i) := by
  have start : s.rest n = s.buffer s.done :: s.buffer.read (s.done + 1) (n - (s.done + 1)) :=
    read_cons s.buffer inside
  by_cases percent : s.buffer s.done = PERCENT
  swap
  · have pass : s.pass = s.copy [] := if_neg percent
    refine .inl ⟨_, _, passed_copy pass inside (by simp) behind, ?_, ?_⟩
    · rw [start, percentDecode_other percent]
    · rw [start]
      exact ⟨fun opens => opens.of_cons percent, OpenEnd.cons _⟩
  by_cases first : s.done + 1 < n
  swap
  · have ends : s.rest n = [PERCENT] := by rw [start, percent, read_end _ (by omega)]
    have read : s.done + 1 ∈ s.pass.reads := by
      unfold Decoding.pass Decoding.copy Decoding.put
      dsimp only
      rw [if_pos percent]
      repeat' split
      all_goals simp
    exact .inr ⟨by rw [ends]; exact openEnd_percent, _, read, by omega⟩
  rw [read_cons s.buffer first, percent] at start
  by_cases high : isxdigit (s.buffer (s.done + 1)) = true
  swap
  · have pass : s.pass = s.copy [s.done + 1] := (if_pos percent).trans (if_neg high)
    have noDigit : isxdigit (s.buffer (s.done + 1)) = false := Bool.eq_false_iff.mpr high
    refine .inl ⟨_, _, passed_copy pass inside (by simpa using first) behind, ?_, ?_⟩
    · rw [start, percent, percentDecode_noFirst noDigit, read_cons s.buffer first]
    · rw [start, read_cons s.buffer first]
      exact ⟨fun opens => opens.of_percent fun digit => absurd digit high, OpenEnd.cons _⟩
  by_cases second : s.done + 2 < n
  swap
  · have ends : s.rest n = [PERCENT, s.buffer (s.done + 1)] := by
      rw [start, read_end _ (show n ≤ s.done + 1 + 1 by omega)]
    have read : s.done + 2 ∈ s.pass.reads := by
      unfold Decoding.pass Decoding.copy Decoding.put
      dsimp only
      rw [if_pos percent, if_pos high]
      split
      all_goals simp
    exact .inr ⟨by rw [ends]; exact openEnd_digit high, _, read, by omega⟩
  rw [read_cons s.buffer (show s.done + 1 + 1 < n from second)] at start
  by_cases low : isxdigit (s.buffer (s.done + 2)) = true
  · have pass : s.pass = s.put (hexValue (s.buffer (s.done + 1)) (s.buffer (s.done + 2)))
        [s.done, s.done + 1, s.done + 2] :=
      (if_pos percent).trans ((if_pos high).trans (if_pos low))
    refine .inl ⟨_, _, passed_escape pass second behind, ?_, ?_⟩
    · rw [start]
      exact percentDecode_escape ⟨high, low⟩ _
    · rw [start]
      constructor
      · intro opens
        have noHigh := opens.of_percent fun _ => List.cons_ne_nil _ _
        exact (noHigh.of_cons (ne_percent high)).of_cons (ne_percent low)
      · exact OpenEnd.append [PERCENT, _, _]
  · have pass : s.pass = s.copy [s.done + 1, s.done + 2] :=
      (if_pos percent).trans ((if_pos high).trans (if_neg low))
    have noDigit : isxdigit (s.buffer (s.done + 1 + 1)) = false := Bool.eq_false_iff.mpr low
    have text : ∀ i ∈ [s.done + 1, s.done + 2], i < n := by simp [first, second]
    refine .inl ⟨_, _, passed_copy pass inside text behind, ?_, ?_⟩
    · rw [start, percent, percentDecode_noSecond noDigit, read_cons s.buffer first,
        read_cons s.buffer (show s.done + 1 + 1 < n from second)]
    · rw [start, read_cons s.buffer first, read_cons s.buffer (show s.done + 1 + 1 < n from second)]
      exact ⟨fun opens => opens.of_percent fun _ => List.cons_ne_nil _ _, OpenEnd.cons _⟩

theorem decodeLoop_closed (enough : n - s.done ≤ passes) (behind : s.writeptr ≤ s.done)
    (closed : ¬ OpenEnd (s.rest n)) :
    (decodeLoop n passes s).buffer.read 0 (decodeLoop n passes s).writeptr =
        s.buffer.read 0 s.writeptr ++ percentDecode (s.rest n) ∧
      ∃ more, (decodeLoop n passes s).reads = s.reads ++ more ∧ ∀ i ∈ more, i < n := by
  induction passes generalizing s with
  | zero =>
    have ends : s.rest n = [] := read_end s.buffer (by omega)
    rw [ends, percentDecode_nil, List.append_nil]
    exact ⟨rfl, [], (List.append_nil _).symm, by simp⟩
  | succ passes ih =>
    rw [decodeLoop]
    split
    · next inside =>
      rcases pass_rest inside behind with ⟨c, rest, passed, decoded, opens⟩ | ⟨opens, _⟩
      · have forward := passed.forward
        have behind' : s.pass.writeptr ≤ s.pass.done := by
          rw [writeptr_pass]
          omega
        have closed' : ¬ OpenEnd (s.pass.rest n) := by
          rw [passed.rest, ← opens]
          exact closed
        obtain ⟨out, more, reads, text⟩ := ih (by omega) behind' closed'
        obtain ⟨first, pass, front⟩ := passed.inside
        refine ⟨?_, first ++ more, ?_, ?_⟩
        · rw [out, passed.out, passed.rest, decoded, List.append_assoc]
          rfl
        · rw [reads, pass, List.append_assoc]
        · intro i mem
          exact (List.mem_append.mp mem).elim (front i) (text i)
      · exact absurd opens closed
    · next outside =>
      have ends : s.rest n = [] := read_end s.buffer (by omega)
      rw [ends, percentDecode_nil, List.append_nil]
      exact ⟨rfl, [], (List.append_nil _).symm, by simp⟩

theorem decodeLoop_open (enough : n - s.done ≤ passes) (behind : s.writeptr ≤ s.done)
    (opens : OpenEnd (s.rest n)) : ∃ i ∈ (decodeLoop n passes s).reads, n ≤ i := by
  induction passes generalizing s with
  | zero =>
    have ends : s.rest n = [] := read_end s.buffer (by omega)
    rw [ends] at opens
    exact absurd opens not_openEnd_nil
  | succ passes ih =>
    rw [decodeLoop]
    split
    · next inside =>
      rcases pass_rest inside behind with ⟨c, rest, passed, _, same⟩ | ⟨_, i, read, outside⟩
      · have forward := passed.forward
        have behind' : s.pass.writeptr ≤ s.pass.done := by
          rw [writeptr_pass]
          omega
        apply ih (by omega) behind'
        rw [passed.rest, ← same]
        exact opens
      · obtain ⟨more, reads⟩ := reads_decodeLoop n passes s.pass
        exact ⟨i, by rw [reads]; exact List.mem_append_left _ read, outside⟩
    · next outside =>
      have ends : s.rest n = [] := read_end s.buffer (by omega)
      rw [ends] at opens
      exact absurd opens not_openEnd_nil

theorem targetlength_decodeLoop (same : s.targetlength = s.writeptr) :
    (decodeLoop n passes s).targetlength = (decodeLoop n passes s).writeptr := by
  induction passes generalizing s with
  | zero => exact same
  | succ passes ih =>
    rw [decodeLoop]
    split
    · exact ih (by rw [targetlength_pass, writeptr_pass, same])
    · exact same

end decodeLoop

section undecorateurlname

variable {buffer : Cells Byte} {n : Nat}

theorem undecorateurlname_inside :
    ReadsInside (n, (undecorateurlname buffer n).reads) ↔ ¬ OpenEnd (buffer.read 0 n) := by
  constructor
  · intro inside opens
    obtain ⟨i, read, outside⟩ := decodeLoop_open (s := ⟨buffer, 0, 0, 0, []⟩) (Nat.le_refl n)
      (Nat.le_refl 0) opens
    exact absurd (inside i read) (Nat.not_lt.mpr outside)
  · intro closed
    obtain ⟨_, more, reads, text⟩ := decodeLoop_closed (s := ⟨buffer, 0, 0, 0, []⟩) (Nat.le_refl n)
      (Nat.le_refl 0) closed
    intro i read
    apply text i
    rw [List.nil_append] at reads
    rw [← reads]
    exact read

theorem undecorateurlname_closed (closed : ¬ OpenEnd (buffer.read 0 n)) :
    (undecorateurlname buffer n).buffer.read 0 (undecorateurlname buffer n).targetlength =
      percentDecode (buffer.read 0 n) := by
  have length : (undecorateurlname buffer n).targetlength =
      (undecorateurlname buffer n).writeptr := targetlength_decodeLoop rfl
  rw [length]
  exact (decodeLoop_closed (s := ⟨buffer, 0, 0, 0, []⟩) (Nat.le_refl n) (Nat.le_refl 0) closed).1

theorem undecorateurlname_piece {piece : List Byte} (buffer : Cells Byte)
    (closed : ¬ OpenEnd piece) :
    ((undecorateurlname (buffer.write 0 piece) piece.length).buffer.read 0
      (undecorateurlname (buffer.write 0 piece) piece.length).targetlength = percentDecode piece) ∧
    (undecorateurlname (buffer.write 0 piece) piece.length).targetlength =
      (percentDecode piece).length := by
  have text : (buffer.write 0 piece).read 0 piece.length = piece := Cells.read_write_same _ _ _
  have decoded := undecorateurlname_closed (by rw [text]; exact closed)
  rw [text] at decoded
  exact ⟨decoded, by rw [← decoded, Cells.length_read]⟩

end undecorateurlname

/-- No escape is cut by the end of a piece, and every piece but the last one is a single byte. -/
structure Streams (pieces : List (List Byte)) : Prop where
  closed : ∀ piece ∈ pieces, ¬ OpenEnd piece
  single : ∀ piece ∈ pieces.dropLast, SingleByte piece

section filterLoop

variable {piece : List Byte} {pieces : List (List Byte)}

theorem streams_nil : Streams [] := ⟨by simp, by simp⟩

theorem streams_cons : Streams (piece :: pieces) ↔
    ¬ OpenEnd piece ∧ (pieces = [] ∨ SingleByte piece ∧ Streams pieces) := by
  cases pieces with
  | nil =>
    constructor
    · intro streams
      exact ⟨streams.closed piece List.mem_cons_self, .inl rfl⟩
    · intro closed
      exact ⟨by simpa using closed.1, by simp⟩
  | cons second pieces =>
    constructor
    · intro streams
      refine ⟨streams.closed piece List.mem_cons_self, .inr ⟨?_, ?_, ?_⟩⟩
      · exact streams.single piece List.mem_cons_self
      · exact fun piece mem => streams.closed piece (List.mem_cons_of_mem _ mem)
      · exact fun piece mem => streams.single piece (List.mem_cons_of_mem _ mem)
    · intro streams
      rcases streams.2 with none_ | ⟨single, streams'⟩
      · cases none_
      · refine ⟨?_, ?_⟩
        · rw [List.forall_mem_cons]
          exact ⟨streams.1, streams'.closed⟩
        · rw [List.dropLast_cons_cons, List.forall_mem_cons]
          exact ⟨single, streams'.single⟩

theorem fwrite_ne {n : Nat} : fwrite n 1 ≠ n ↔ n ≠ 0 ∧ n ≠ 1 := by
  unfold fwrite
  split <;> omega

theorem mem_calls (buffer : Cells Byte) (piece : List Byte) (pieces : List (List Byte)) :
    (piece.length, (undecorateurlname (buffer.write 0 piece) piece.length).reads) ∈
      (filterLoop buffer (piece :: pieces)).calls := by
  rw [filterLoop]
  dsimp only
  split
  · exact List.mem_cons_self
  · exact List.mem_cons_self

theorem inside_piece (buffer : Cells Byte) (piece : List Byte) :
    ReadsInside (piece.length, (undecorateurlname (buffer.write 0 piece) piece.length).reads) ↔
      ¬ OpenEnd piece := by
  have text : (buffer.write 0 piece).read 0 piece.length = piece := Cells.read_write_same _ _ _
  rw [undecorateurlname_inside, text]

theorem filterLoop_single (buffer : Cells Byte) (pieces : List (List Byte))
    (closed : ¬ OpenEnd piece) (single : SingleByte piece) : ∃ buffer' reads, ReadsInside (piece.length, reads) ∧
      filterLoop buffer (piece :: pieces) =
        ⟨percentDecode piece ++ (filterLoop buffer' pieces).stdout,
          (piece.length, reads) :: (filterLoop buffer' pieces).calls⟩ := by
  obtain ⟨decoded, length⟩ := undecorateurlname_piece buffer closed
  have one := singleByte_iff.mp single
  have goesOn : ¬ fwrite (percentDecode piece).length 1 ≠ (percentDecode piece).length := by
    rw [fwrite_ne]
    omega
  refine ⟨(undecorateurlname (buffer.write 0 piece) piece.length).buffer, _,
    (inside_piece buffer piece).mpr closed, ?_⟩
  rw [filterLoop]
  dsimp only
  rw [decoded, length, if_neg goesOn]

theorem filterLoop_stops (buffer : Cells Byte) (pieces : List (List Byte)) (some_ : piece ≠ [])
    (closed : ¬ OpenEnd piece) (more : ¬ SingleByte piece) : ∃ reads, ReadsInside (piece.length, reads) ∧
      filterLoop buffer (piece :: pieces) = ⟨percentDecode piece, [(piece.length, reads)]⟩ := by
  obtain ⟨decoded, length⟩ := undecorateurlname_piece buffer closed
  have nonempty : (percentDecode piece).length ≠ 0 := by
    rw [ne_eq, List.length_eq_zero_iff, percentDecode_eq_nil]
    exact some_
  have stops : fwrite (percentDecode piece).length 1 ≠ (percentDecode piece).length := by
    rw [fwrite_ne]
    exact ⟨nonempty, fun one => more (singleByte_iff.mpr one)⟩
  refine ⟨_, (inside_piece buffer piece).mpr closed, ?_⟩
  rw [filterLoop]
  dsimp only
  rw [decoded, length, if_pos stops]

theorem flatten_eq_nil (some_ : ∀ piece ∈ pieces, piece ≠ []) :
    pieces.flatten = [] ↔ pieces = [] := by
  cases pieces with
  | nil => simp
  | cons piece pieces => simp [some_ piece List.mem_cons_self]

theorem filterLoop_iff (buffer : Cells Byte) (some_ : ∀ piece ∈ pieces, piece ≠ []) :
    ((filterLoop buffer pieces).stdout = percentDecode pieces.flatten ∧
      ∀ call ∈ (filterLoop buffer pieces).calls, ReadsInside call) ↔ Streams pieces := by
  induction pieces generalizing buffer with
  | nil => simp [filterLoop, streams_nil]
  | cons piece pieces ih =>
    rw [List.forall_mem_cons] at some_
    rw [streams_cons]
    by_cases opens : OpenEnd piece
    · constructor
      · intro decodes
        have inside := decodes.2 _ (mem_calls buffer piece pieces)
        exact absurd opens ((inside_piece buffer piece).mp inside)
      · intro streams
        exact absurd opens streams.1
    have joined : percentDecode (piece :: pieces).flatten =
        percentDecode piece ++ percentDecode pieces.flatten := percentDecode_append opens _
    rw [joined]
    by_cases single : SingleByte piece
    · obtain ⟨buffer', reads, inside, loop⟩ := filterLoop_single buffer pieces opens single
      have rest := ih buffer' some_.2
      rw [loop]
      dsimp only
      rw [List.append_cancel_left_eq, List.forall_mem_cons]
      constructor
      · intro decodes
        exact ⟨opens, .inr ⟨single, rest.mp ⟨decodes.1, decodes.2.2⟩⟩⟩
      · intro streams
        have streams' : Streams pieces := by
          rcases streams.2 with none_ | later
          · rw [none_]
            exact streams_nil
          · exact later.2
        obtain ⟨out, calls⟩ := rest.mpr streams'
        exact ⟨out, inside, calls⟩
    · obtain ⟨reads, inside, loop⟩ := filterLoop_stops buffer pieces some_.1 opens single
      rw [loop]
      constructor
      · intro decodes
        have empty : percentDecode pieces.flatten = [] :=
          List.append_cancel_left (decodes.1.symm.trans (List.append_nil _).symm)
        rw [percentDecode_eq_nil, flatten_eq_nil some_.2] at empty
        exact ⟨opens, .inl empty⟩
      · intro streams
        rcases streams.2 with none_ | later
        · rw [none_]
          exact ⟨(List.append_nil _).symm, by simpa using inside⟩
        · exact absurd later.1 single

end filterLoop

def twoReads : Delivery where
  pieces := [List.replicate bufferSize 97, [97]]
  some_ := by
    intro piece mem
    rcases List.mem_pair.mp mem with rfl | rfl
    · exact List.ne_nil_of_length_pos (by rw [List.length_replicate]; decide)
    · exact List.cons_ne_nil _ _
  fits := by
    intro piece mem
    rcases List.mem_pair.mp mem with rfl | rfl
    · exact Nat.le_of_eq List.length_replicate
    · decide

end Undecorateurl
