import LtrData.Popdump.Lines

namespace Popdump

open Octet

/-- The characters LineRecv puts into the buffer for a stream, and what it leaves of the stream. -/
def takeLine : Nat → List Octet → List Octet × List Octet
  | _, [] => ([], [])
  | 0, c :: stream => ([], c :: stream)
  | limit + 1, c :: stream =>
    if c = CR then takeLine (limit + 1) stream
    else if c = LF then ([], stream)
    else (c :: (takeLine limit stream).1, (takeLine limit stream).2)

section takeLine

variable {limit len : Nat} {stream : List Octet} {pBuf : Buffer}

theorem fill_update (pBuf : Buffer) (len : Nat) (c : Octet) (line : List Octet) :
    fill (Function.update pBuf len c) len line = fill pBuf len line := by
  funext i
  unfold fill
  by_cases here : i = len
  · subst here
    rw [if_neg (Nat.lt_irrefl i), if_neg (Nat.lt_irrefl i)]
    cases line with
    | nil => rw [List.length_nil, Nat.add_zero, if_neg (Nat.lt_irrefl i), if_pos rfl,
        if_neg (Nat.lt_irrefl i), if_pos rfl]
    | cons head line =>
      have inside : i < i + (head :: line).length := by
        rw [List.length_cons]
        omega
      rw [if_pos inside, if_pos inside]
  · rw [Function.update_of_ne here]

theorem recvLine_takeLine (room : len ≤ limit) (stream : List Octet) (pBuf : Buffer) :
    (recvLine limit stream pBuf len).1 = (takeLine (limit - len) stream).2 ∧
      (recvLine limit stream pBuf len).2.2 = len + (takeLine (limit - len) stream).1.length ∧
      Function.update (recvLine limit stream pBuf len).2.1 (recvLine limit stream pBuf len).2.2 NUL =
        fill pBuf len (takeLine (limit - len) stream).1 := by
  induction stream generalizing pBuf len with
  | nil =>
    rw [recvLine, takeLine]
    exact ⟨rfl, rfl, fill_nil⟩
  | cons c stream ih =>
    rw [recvLine]
    by_cases more : len < limit
    · obtain ⟨left, position⟩ : ∃ left, limit - len = left + 1 := ⟨limit - len - 1, by omega⟩
      rw [if_pos more, position, takeLine]
      by_cases cr : c = CR
      · have tail := ih room (Function.update pBuf len c)
        rw [position, fill_update] at tail
        simp only [if_pos cr]
        exact tail
      · by_cases lf : c = LF
        · simp only [if_neg cr, if_pos lf]
          refine ⟨trivial, rfl, ?_⟩
          rw [Function.update_idem, fill_nil]
        · have tail := ih (show len + 1 ≤ limit by omega) (Function.update pBuf len c)
          have next : limit - (len + 1) = left := by omega
          rw [next] at tail
          obtain ⟨rest, dwLen, buffer⟩ := tail
          simp only [if_neg cr, if_neg lf]
          refine ⟨rest, ?_, ?_⟩
          · rw [dwLen, List.length_cons]
            omega
          · rw [buffer, fill_cons]
    · have full : limit - len = 0 := by omega
      rw [if_neg more, full, takeLine]
      exact ⟨rfl, rfl, fill_nil⟩

theorem lineRecv_takeLine (stream : List Octet) (pBuf : Buffer) (dwBufSize : Nat) :
    LineRecv stream pBuf dwBufSize =
      ⟨(takeLine (dwBufSize - 2) stream).2, sprintf pBuf (takeLine (dwBufSize - 2) stream).1,
        (takeLine (dwBufSize - 2) stream).1.length⟩ := by
  obtain ⟨rest, dwLen, buffer⟩ := recvLine_takeLine (Nat.zero_le (dwBufSize - 2)) stream pBuf
  rw [Nat.sub_zero, Nat.zero_add] at dwLen
  rw [Nat.sub_zero] at rest buffer
  rw [fill_zero] at buffer
  unfold LineRecv
  show Received.mk (recvLine (dwBufSize - 2) stream pBuf 0).1
    (Function.update (recvLine (dwBufSize - 2) stream pBuf 0).2.1
      (recvLine (dwBufSize - 2) stream pBuf 0).2.2 NUL)
    (recvLine (dwBufSize - 2) stream pBuf 0).2.2 = _
  rw [buffer, rest, dwLen]

/-- A call ends behind the line end, at the end of the stream, or where the buffer is full. -/
inductive LineCut (limit : Nat) (text piece rest : List Octet) : Prop
  | line (short : piece.length < limit) (split : text = piece ++ LF :: rest)
  | closed (short : piece.length < limit) (split : text = piece) (last : rest = [])
  | full (whole : piece.length = limit) (split : text = piece ++ rest)

theorem takeLine_cut (limit : Nat) (stream : List Octet) :
    LF ∉ (takeLine limit stream).1 ∧
      LineCut limit (stream.filter (· ≠ CR)) (takeLine limit stream).1
        ((takeLine limit stream).2.filter (· ≠ CR)) := by
  induction stream generalizing limit with
  | nil =>
    rw [takeLine]
    refine ⟨List.not_mem_nil, ?_⟩
    cases limit with
    | zero => exact .full rfl rfl
    | succ limit => exact .closed (Nat.succ_pos limit) rfl rfl
  | cons c stream ih =>
    cases limit with
    | zero =>
      rw [takeLine]
      exact ⟨List.not_mem_nil, .full rfl rfl⟩
    | succ limit =>
      rw [takeLine]
      by_cases cr : c = CR
      · rw [if_pos cr, List.filter_cons_of_neg (by simpa using cr)]
        exact ih (limit + 1)
      rw [if_neg cr, List.filter_cons_of_pos (by simpa using cr)]
      by_cases lf : c = LF
      · rw [if_pos lf, lf]
        exact ⟨List.not_mem_nil, .line (Nat.succ_pos limit) rfl⟩
      obtain ⟨noLf, cut⟩ := ih limit
      rw [if_neg lf]
      refine ⟨?_, ?_⟩
      · rw [List.mem_cons, not_or]
        exact ⟨fun same => lf same.symm, noLf⟩
      · cases cut with
        | line short split => exact .line (Nat.succ_lt_succ short) (congrArg (c :: ·) split)
        | closed short split last =>
          exact .closed (Nat.succ_lt_succ short) (congrArg (c :: ·) split) last
        | full whole split => exact .full (congrArg (· + 1) whole) (congrArg (c :: ·) split)

theorem takeLine_shorter (some_ : stream ≠ []) (room : 0 < limit) :
    (takeLine limit stream).2.length < stream.length := by
  obtain ⟨limit, rfl⟩ := Nat.exists_eq_add_one_of_ne_zero (Nat.pos_iff_ne_zero.mp room)
  induction stream generalizing limit with
  | nil => exact absurd rfl some_
  | cons c stream ih =>
    have less : ∀ limit, (takeLine limit stream).2.length ≤ stream.length := by
      intro limit
      by_cases empty : stream = []
      · rw [empty, takeLine]
      · cases limit with
        | zero =>
          cases stream with
          | nil => exact absurd rfl empty
          | cons d stream => rw [takeLine]
        | succ limit => exact Nat.le_of_lt (ih empty limit (Nat.succ_pos limit))
    rw [takeLine, List.length_cons]
    split
    · exact Nat.lt_succ_of_le (less (limit + 1))
    · split
      · exact Nat.lt_succ_self _
      · exact Nat.lt_succ_of_le (less limit)

end takeLine

end Popdump
