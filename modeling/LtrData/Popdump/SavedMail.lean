import LtrData.Popdump.Lines
import Mathlib.Logic.Function.Iterate

namespace Popdump

open Octet

/-- A line of a message, without its line end. -/
structure Line where
  bytes : List Octet
  noCr : CR ∉ bytes
  noLf : LF ∉ bytes

/-- How a server sends the text of a message, up to the single dot. -/
def mailText (lines : List Line) : List Octet :=
  crlfText (lines.map fun line => stuff line.bytes) ++ [DOT, CR, LF]

/-- The loop that receives a message, where every write writes all it is passed. -/
def fullStep (s : Session) : Session :=
  match s.point with
  | .recv => s.recv
  | .write dwLineLength => s.write dwLineLength (dwLineLength + 2 : Nat)
  | _ => s

/-- main behind a successful open, with the message and what the server sends later. -/
def receiving (dwMailCounter : Nat) (lines : List Line) (later : List Octet) (cBuff : Buffer) :
    Session :=
  ⟨.recv, dwMailCounter, mailText lines ++ later, cBuff, [], [], false⟩

/-- The loop gets to the end of the message, with its lines in the saved file. -/
def SavesMail (dwMailCounter : Nat) (lines : List Line) (later : List Octet) (cBuff : Buffer) :
    Prop :=
  ∃ n, (fullStep^[n] (receiving dwMailCounter lines later cBuff)).point = .dele ∧
    (fullStep^[n] (receiving dwMailCounter lines later cBuff)).file =
      crlfText (lines.map Line.bytes)

/-- A line that is saved as it is. -/
def Kept (line : Line) : Prop :=
  line.bytes.head? ≠ some DOT ∧ NUL ∉ line.bytes ∧ line.bytes.length < lineLimit

/-- The line in the buffer is taken for the end of the message. -/
def TakenForEnd (r : Received) : Prop := r.pBuf 0 = DOT ∧ r.pBuf 1 = NUL

instance (r : Received) : Decidable (TakenForEnd r) := inferInstanceAs (Decidable (_ ∧ _))

/-- What the loop writes for a stream. -/
inductive Saves : List Octet → Buffer → List Octet → Prop
  | dot {stream : List Octet} {cBuff : Buffer}
    (ends : TakenForEnd (LineRecv stream cBuff (MAX_LINE - 3))) : Saves stream cBuff []
  | line {stream more : List Octet} {cBuff : Buffer}
    (goesOn : ¬TakenForEnd (LineRecv stream cBuff (MAX_LINE - 3)))
    (rest : Saves (LineRecv stream cBuff (MAX_LINE - 3)).stream
      (appendCrLf (LineRecv stream cBuff (MAX_LINE - 3)).pBuf
        (LineRecv stream cBuff (MAX_LINE - 3)).dwLen) more) :
    Saves stream cBuff ((List.range ((LineRecv stream cBuff (MAX_LINE - 3)).dwLen + 2)).map
      (appendCrLf (LineRecv stream cBuff (MAX_LINE - 3)).pBuf
        (LineRecv stream cBuff (MAX_LINE - 3)).dwLen) ++ more)

section runs

variable {s : Session}

theorem recv_ends (point : s.point = .recv)
    (ends : TakenForEnd (LineRecv s.stream s.cBuff (MAX_LINE - 3))) :
    (fullStep s).point = .dele ∧ (fullStep s).file = s.file := by
  have stepped : fullStep s = s.recv := by
    rw [fullStep, point]
  have received : s.recv = { s.lineRecv (MAX_LINE - 3) with point := .dele } := if_pos ends
  rw [stepped, received]
  exact ⟨rfl, rfl⟩

theorem recv_goesOn (point : s.point = .recv)
    (goesOn : ¬TakenForEnd (LineRecv s.stream s.cBuff (MAX_LINE - 3))) :
    (fullStep (fullStep s)).point = .recv ∧ (fullStep s).point ≠ .dele ∧
      (fullStep (fullStep s)).stream = (LineRecv s.stream s.cBuff (MAX_LINE - 3)).stream ∧
      (fullStep (fullStep s)).cBuff = appendCrLf (LineRecv s.stream s.cBuff (MAX_LINE - 3)).pBuf
        (LineRecv s.stream s.cBuff (MAX_LINE - 3)).dwLen ∧
      (fullStep (fullStep s)).file = s.file ++
        (List.range ((LineRecv s.stream s.cBuff (MAX_LINE - 3)).dwLen + 2)).map
          (appendCrLf (LineRecv s.stream s.cBuff (MAX_LINE - 3)).pBuf
            (LineRecv s.stream s.cBuff (MAX_LINE - 3)).dwLen) := by
  have stepped : fullStep s = s.recv := by
    rw [fullStep, point]
  have received : s.recv = { s.lineRecv (MAX_LINE - 3) with
      point := .write (LineRecv s.stream s.cBuff (MAX_LINE - 3)).dwLen
      cBuff := appendCrLf (LineRecv s.stream s.cBuff (MAX_LINE - 3)).pBuf
        (LineRecv s.stream s.cBuff (MAX_LINE - 3)).dwLen } := if_neg goesOn
  rw [stepped, received]
  refine ⟨(write_full _ _).1, ?_, rfl, rfl, rfl⟩
  intro same
  cases same

theorem saves_of_run {n : Nat} (point : s.point = .recv) (ends : (fullStep^[n] s).point = .dele) :
    ∃ more, Saves s.stream s.cBuff more ∧ (fullStep^[n] s).file = s.file ++ more := by
  induction n using Nat.strongRecOn generalizing s with
  | ind n ih =>
    have started : n ≠ 0 := by
      intro none
      rw [none] at ends
      rw [show s.point = .dele from ends] at point
      cases point
    obtain ⟨m, rfl⟩ := Nat.exists_eq_succ_of_ne_zero started
    rw [Function.iterate_succ_apply] at ends ⊢
    by_cases dot : TakenForEnd (LineRecv s.stream s.cBuff (MAX_LINE - 3))
    · obtain ⟨ended, file⟩ := recv_ends point dot
      refine ⟨[], .dot dot, ?_⟩
      rw [Function.iterate_fixed (by rw [fullStep, ended]), file, List.append_nil]
    · obtain ⟨again, written, stream, buffer, file⟩ := recv_goesOn point dot
      have more : m ≠ 0 := by
        intro none
        rw [none] at ends
        exact written ends
      obtain ⟨k, rfl⟩ := Nat.exists_eq_succ_of_ne_zero more
      rw [Function.iterate_succ_apply] at ends ⊢
      obtain ⟨rest, saves, all⟩ := ih k (by omega) again ends
      rw [stream, buffer] at saves
      refine ⟨_, .line dot saves, ?_⟩
      rw [all, file, List.append_assoc]

theorem run_of_saves {stream more : List Octet} {cBuff : Buffer} (saves : Saves stream cBuff more)
    (point : s.point = .recv) (atStream : s.stream = stream) (atBuffer : s.cBuff = cBuff) :
    ∃ n, (fullStep^[n] s).point = .dele ∧ (fullStep^[n] s).file = s.file ++ more := by
  induction saves generalizing s with
  | dot ends =>
    subst atStream atBuffer
    refine ⟨1, (recv_ends point ends).1, ?_⟩
    rw [List.append_nil]
    exact (recv_ends point ends).2
  | line goesOn _ ih =>
    subst atStream atBuffer
    obtain ⟨again, _, stream, buffer, file⟩ := recv_goesOn point goesOn
    obtain ⟨n, ends, all⟩ := ih again stream buffer
    refine ⟨n + 2, ends, ?_⟩
    rw [← List.append_assoc, ← file]
    exact all

end runs

/-! ### Pieces of the stream -/

section pieces

variable {line piece rest more : List Octet} {cBuff : Buffer}

/-- A piece that starts with no dot or with two. -/
def Untaken (piece : List Octet) : Prop :=
  piece.head? ≠ some DOT ∨ ∃ back, piece = DOT :: DOT :: back

theorem not_taken (untaken : Untaken piece) {stream : List Octet} {dwLen : Nat} :
    ¬TakenForEnd ⟨stream, sprintf cBuff piece, dwLen⟩ := by
  intro taken
  obtain ⟨first, second⟩ := taken
  rcases untaken with other | ⟨back, rfl⟩
  · cases piece with
    | nil => exact absurd (show NUL = DOT from first) (by decide)
    | cons c piece => exact other (congrArg some first)
  · exact absurd (show DOT = NUL from second) (by decide)

theorem untaken_stuff (line : List Octet) {n : Nat} (two : 2 ≤ n) :
    Untaken (stuff line) ∧ Untaken ((stuff line).take n) := by
  obtain ⟨m, rfl⟩ : ∃ m, n = m + 2 := ⟨n - 2, by omega⟩
  cases line with
  | nil => exact ⟨.inl (by decide), .inl fun head => by cases head⟩
  | cons c line =>
    by_cases dot : c = DOT
    · rw [dot, stuff_dot]
      exact ⟨.inr ⟨line, rfl⟩, .inr ⟨line.take m, rfl⟩⟩
    · rw [stuff_other dot]
      exact ⟨.inl fun head => dot (Option.some.inj head),
        .inl fun head => dot (Option.some.inj head)⟩

theorem not_mem_stuff {c : Octet} (other : c ≠ DOT) (absent : c ∉ line) : c ∉ stuff line := by
  cases line with
  | nil => exact absent
  | cons d line =>
    by_cases dot : d = DOT
    · rw [dot] at absent ⊢
      rw [stuff_dot, List.mem_cons]
      rintro (same | mem)
      · exact other same
      · exact absent mem
    · rw [stuff_other dot]
      exact absent

theorem saves_line (noCr : CR ∉ line) (noLf : LF ∉ line) (fits : line.length < lineLimit)
    (untaken : Untaken line) : Saves (line ++ CR :: LF :: rest) cBuff more ↔
      ∃ others, Saves rest (appendCrLf (sprintf cBuff line) line.length) others ∧
        more = written cBuff line ++ others := by
  have received := lineRecv_line rest cBuff noCr noLf fits
  constructor
  · intro saves
    cases saves with
    | dot ends =>
      rw [received] at ends
      exact absurd ends (not_taken untaken)
    | line _ others =>
      rw [received] at others ⊢
      exact ⟨_, others, rfl⟩
  · intro saves
    rcases saves with ⟨others, saves, rfl⟩
    have goesOn : ¬TakenForEnd (LineRecv (line ++ CR :: LF :: rest) cBuff (MAX_LINE - 3)) := by
      rw [received]
      exact not_taken untaken
    have step := @Saves.line _ others _ goesOn (by rw [received]; exact saves)
    rw [received] at step
    exact step

theorem saves_empty : Saves (CR :: LF :: rest) cBuff more ↔
    ∃ others, Saves rest (appendCrLf (sprintf cBuff []) 0) others ∧
      more = written cBuff [] ++ others := by
  have fits : ([] : List Octet).length < lineLimit := by decide
  have untaken : Untaken [] := .inl nofun
  exact saves_line List.not_mem_nil List.not_mem_nil fits untaken

theorem saves_cut (noCr : CR ∉ line) (noLf : LF ∉ line) (long : lineLimit ≤ line.length)
    (untaken : Untaken (line.take lineLimit)) : Saves (line ++ rest) cBuff more ↔
      ∃ others buffer, Saves (line.drop lineLimit ++ rest) buffer others ∧
        buffer = appendCrLf (sprintf cBuff (line.take lineLimit)) lineLimit ∧
        more = written cBuff (line.take lineLimit) ++ others := by
  have received := lineRecv_cut rest cBuff noCr noLf long
  have length : (line.take lineLimit).length = lineLimit := by
    rw [List.length_take]
    omega
  constructor
  · intro saves
    cases saves with
    | dot ends =>
      rw [received] at ends
      exact absurd ends (not_taken untaken)
    | line _ others =>
      rw [received] at others ⊢
      refine ⟨_, _, others, rfl, ?_⟩
      rw [written, length]
  · intro saves
    rcases saves with ⟨others, buffer, saves, rfl, rfl⟩
    have goesOn : ¬TakenForEnd (LineRecv (line ++ rest) cBuff (MAX_LINE - 3)) := by
      rw [received]
      exact not_taken untaken
    have step := @Saves.line _ others _ goesOn (by rw [received]; exact saves)
    rw [received] at step
    rw [written, length]
    exact step

theorem saves_dot : Saves (DOT :: CR :: LF :: rest) cBuff more ↔ more = [] := by
  have noCr : CR ∉ [DOT] := by decide
  have noLf : LF ∉ [DOT] := by decide
  have received := lineRecv_line rest cBuff noCr noLf
    (by decide)
  have taken : TakenForEnd (LineRecv (DOT :: CR :: LF :: rest) cBuff (MAX_LINE - 3)) := by
    rw [show DOT :: CR :: LF :: rest = [DOT] ++ CR :: LF :: rest from rfl, received]
    exact ⟨rfl, rfl⟩
  constructor
  · intro saves
    cases saves with
    | dot _ => rfl
    | line goesOn _ => exact absurd taken goesOn
  · intro none
    rw [none]
    exact .dot taken

end pieces

/-! ### Whole messages -/

/-- The messages that are saved as they are. The last line may also be one of dots only that is cut
    right before its last dot, which is then taken for the end. -/
def Saveable (lines : List Line) : Prop :=
  (∀ line ∈ lines, Kept line) ∨ ∃ front last, lines = front ++ [last] ∧
    (∀ line ∈ front, Kept line) ∧ last.bytes = List.replicate lineLimit DOT

section messages

variable {line : Line} {lines : List Line} {later more : List Octet} {cBuff : Buffer}

theorem saveable_cons : Saveable (line :: lines) ↔
    Kept line ∧ Saveable lines ∨ line.bytes = List.replicate lineLimit DOT ∧ lines = [] := by
  constructor
  · intro saveable
    rcases saveable with kept | ⟨front, last, split, kept, dots⟩
    · rw [List.forall_mem_cons] at kept
      exact .inl ⟨kept.1, .inl kept.2⟩
    · cases front with
      | nil =>
        obtain ⟨rfl, none⟩ := List.cons.inj split
        exact .inr ⟨dots, none⟩
      | cons first front =>
        obtain ⟨rfl, tail⟩ := List.cons.inj split
        rw [List.forall_mem_cons] at kept
        exact .inl ⟨kept.1, .inr ⟨front, last, tail, kept.2, dots⟩⟩
  · intro condition
    rcases condition with ⟨kept, all | ⟨front, last, rfl, keptFront, dots⟩⟩ | ⟨dots, rfl⟩
    · exact .inl (List.forall_mem_cons.mpr ⟨kept, all⟩)
    · exact .inr ⟨line :: front, last, rfl, List.forall_mem_cons.mpr ⟨kept, keptFront⟩, dots⟩
    · exact .inr ⟨[], line, rfl, fun _ none => absurd none List.not_mem_nil, dots⟩

theorem mailText_cons (line : Line) (lines : List Line) (later : List Octet) :
    mailText (line :: lines) ++ later =
      stuff line.bytes ++ CR :: LF :: (mailText lines ++ later) := by
  rw [mailText, List.map_cons, crlfText_cons]
  simp only [mailText, List.append_assoc, List.cons_append]

/-- A line as the server sends it, with what its first octets are. -/
structure Sent (line : Line) : Prop where
  noCr : CR ∉ stuff line.bytes
  noLf : LF ∉ stuff line.bytes
  whole : Untaken (stuff line.bytes)
  cut : Untaken ((stuff line.bytes).take lineLimit)

theorem sent (line : Line) : Sent line :=
  have untaken := untaken_stuff line.bytes (n := lineLimit) (by decide)
  ⟨not_mem_stuff (by decide) line.noCr, not_mem_stuff (by decide) line.noLf, untaken.1, untaken.2⟩

theorem stuff_noDot {bytes : List Octet} (noDot : bytes.head? ≠ some DOT) : stuff bytes = bytes := by
  cases bytes with
  | nil => rfl
  | cons c rest => exact stuff_other (fun dot => noDot (congrArg some dot)) rest

theorem stuff_dots {n : Nat} (some : 0 < n) (rest : List Octet) :
    stuff (List.replicate n DOT ++ rest) = List.replicate n DOT ++ DOT :: rest := by
  obtain ⟨m, rfl⟩ : ∃ m, n = m + 1 := ⟨n - 1, by omega⟩
  rw [List.replicate_succ, List.cons_append, stuff_dot, List.cons_append, List.append_cons,
    ← List.replicate_succ', List.replicate_succ, List.cons_append]

theorem nul_dots (n : Nat) : NUL ∉ List.replicate n DOT := by
  intro mem
  exact absurd (List.eq_of_mem_replicate mem) (by decide)

theorem saves_dots (dots : line.bytes = List.replicate lineLimit DOT) {rest : List Octet} :
    Saves (stuff line.bytes ++ CR :: LF :: rest) cBuff more ↔
      more = List.replicate lineLimit DOT ++ [CR, LF] := by
  have whole := sent line
  have stuffed : stuff line.bytes = List.replicate lineLimit DOT ++ [DOT] := by
    have dotted := stuff_dots (n := lineLimit) (by decide) []
    rw [List.append_nil] at dotted
    rw [dots, dotted]
  have length := List.length_replicate (n := lineLimit) (a := DOT)
  have front : (stuff line.bytes).take lineLimit = List.replicate lineLimit DOT := by
    rw [stuffed, List.take_left' length]
  have back : (stuff line.bytes).drop lineLimit = [DOT] := by
    rw [stuffed, List.drop_left' length]
  have long : lineLimit ≤ (stuff line.bytes).length := by
    rw [stuffed, List.length_append, length]
    omega
  rw [saves_cut whole.noCr whole.noLf long whole.cut, front, back]
  simp only [List.cons_append, List.nil_append, saves_dot, written_clean _ (nul_dots lineLimit)]
  constructor
  · intro cut
    rcases cut with ⟨_, _, rfl, _, same⟩
    rw [same, List.append_nil]
  · intro same
    exact ⟨[], _, rfl, rfl, by rw [same, List.append_nil]⟩

theorem saves_saveable (saveable : Saveable lines) (later : List Octet) (cBuff : Buffer) :
    Saves (mailText lines ++ later) cBuff (crlfText (lines.map Line.bytes)) := by
  induction lines generalizing cBuff with
  | nil => exact saves_dot.mpr rfl
  | cons line lines ih =>
    have whole := sent line
    rw [mailText_cons, List.map_cons, crlfText_cons]
    rcases saveable_cons.mp saveable with ⟨kept, tail⟩ | ⟨dots, rfl⟩
    · apply (saves_line whole.noCr whole.noLf _ whole.whole).mpr
      · refine ⟨_, ih tail _, ?_⟩
        rw [stuff_noDot kept.1, written_clean _ kept.2.1, List.append_assoc]
        rfl
      · rw [stuff_noDot kept.1]
        exact kept.2.2
    · apply (saves_dots dots).mpr
      rw [dots]
      rfl

theorem not_saves_extra (n : Nat) (saves : Saves (mailText lines ++ later) cBuff more) :
    crlfText (List.replicate (n + 1) []) ++ more ≠ crlfText (lines.map Line.bytes) := by
  induction lines generalizing n cBuff more with
  | nil =>
    intro same
    rw [List.replicate_succ, crlfText_cons] at same
    cases same
  | cons line lines ih =>
    intro same
    rw [List.map_cons, crlfText_cons, List.replicate_succ, crlfText_cons, List.nil_append,
      List.cons_append] at same
    cases empty : line.bytes with
    | nil =>
      rw [mailText_cons, empty] at saves
      obtain ⟨others, tail, rfl⟩ := saves_empty.mp saves
      have clean : written cBuff [] = [] ++ [CR, LF] := written_clean cBuff List.not_mem_nil
      apply ih n tail
      rw [empty, clean] at same
      have cancelled := (List.cons.inj (List.cons.inj same).2).2
      rw [← cancelled, List.replicate_succ', crlfText_append, List.append_assoc]
      rfl
    | cons c bytes =>
      have noCr := line.noCr
      rw [empty] at same noCr
      exact noCr ((List.cons.inj same).1 ▸ List.mem_cons_self)

theorem differ {front left right : List Octet} {c d : Octet} (other : c ≠ d) :
    front ++ c :: left ≠ front ++ d :: right := by
  intro same
  exact other (List.cons.inj (List.append_cancel_left same)).1

theorem dots_differ {n : Nat} {rest left right : List Octet} (noDot : rest.head? ≠ some DOT) :
    List.replicate (n + 1) DOT ++ left ≠ List.replicate n DOT ++ rest ++ CR :: right := by
  rw [List.replicate_succ', List.append_assoc, List.append_assoc]
  cases rest with
  | nil => exact differ (by decide)
  | cons c rest => exact differ fun dot => noDot (congrArg some dot.symm)

theorem exists_dots (bytes : List Octet) :
    ∃ n rest, bytes = List.replicate n DOT ++ rest ∧ rest.head? ≠ some DOT := by
  induction bytes with
  | nil => exact ⟨0, [], rfl, by decide⟩
  | cons c bytes ih =>
    by_cases dot : c = DOT
    · obtain ⟨n, rest, split, noDot⟩ := ih
      exact ⟨n + 1, rest, by rw [dot, split, List.replicate_succ, List.cons_append], noDot⟩
    · exact ⟨0, c :: bytes, rfl, fun head => dot (Option.some.inj head)⟩

theorem written_nul_differs {bytes left right : List Octet} (nul : NUL ∈ bytes) :
    written cBuff bytes ++ left ≠ bytes ++ right := by
  obtain ⟨front, back, rfl, clean⟩ := List.eq_append_cons_of_mem nul
  obtain ⟨others, start⟩ := written_with_nul back cBuff clean
  rw [start, List.append_assoc, List.append_assoc]
  exact differ (by decide)

/-- A line that starts with a dot is saved with a dot more, unless it is cut there. -/
theorem not_saves_dot {rest : List Octet} (dot : line.bytes.head? = some DOT)
    (saves : Saves (stuff line.bytes ++ CR :: LF :: rest) cBuff
      (line.bytes ++ CR :: LF :: more)) :
    line.bytes = List.replicate lineLimit DOT ∧ more = [] := by
  have whole := sent line
  obtain ⟨n, back, split, noDot⟩ := exists_dots line.bytes
  have some : 0 < n := by
    by_contra none
    rw [show n = 0 by omega] at split
    rw [split] at dot
    exact noDot dot
  have stuffed : stuff line.bytes = List.replicate (n + 1) DOT ++ back := by
    rw [split, stuff_dots some, List.replicate_succ', List.append_assoc]
    rfl
  -- what is saved of the line starts with one dot too many
  have contradiction : ∀ piece others, written cBuff (List.replicate (n + 1) DOT ++ piece) ++ others ≠
      line.bytes ++ CR :: LF :: more := by
    intro piece others same
    obtain ⟨tail, start⟩ := written_front piece cBuff (nul_dots (n + 1))
    rw [start, List.append_assoc, split] at same
    exact dots_differ noDot same
  by_cases fits : (stuff line.bytes).length < lineLimit
  · obtain ⟨others, _, same⟩ := (saves_line whole.noCr whole.noLf fits whole.whole).mp saves
    rw [stuffed] at same
    exact absurd same.symm (contradiction back others)
  · obtain ⟨others, buffer, _, _, same⟩ :=
      (saves_cut whole.noCr whole.noLf (Nat.le_of_not_lt fits) whole.cut).mp saves
    have length := List.length_replicate (n := n + 1) (a := DOT)
    by_cases within : n + 1 ≤ lineLimit
    · rw [stuffed, List.take_append, List.take_of_length_le (by omega)] at same
      exact absurd same.symm (contradiction _ others)
    · have front : (stuff line.bytes).take lineLimit = List.replicate lineLimit DOT := by
        rw [stuffed, List.take_append_of_le_length (by omega), List.take_replicate,
          Nat.min_eq_left (by omega)]
      rw [front, written_clean _ (nul_dots lineLimit), List.append_assoc] at same
      have dots : List.replicate n DOT =
          List.replicate lineLimit DOT ++ List.replicate (n - lineLimit) DOT := by
        rw [List.replicate_append_replicate, Nat.add_sub_of_le (by omega)]
      have bytes : line.bytes = List.replicate lineLimit DOT ++
          (List.replicate (n - lineLimit) DOT ++ back) := by
        rw [split, dots, List.append_assoc]
      have tail : List.replicate (n - lineLimit) DOT ++ back = [] := by
        cases tail : List.replicate (n - lineLimit) DOT ++ back with
        | nil => rfl
        | cons c tail' =>
          rw [tail] at bytes
          rw [bytes, List.append_assoc] at same
          have noCr := line.noCr
          rw [bytes] at noCr
          refine absurd same (differ fun equal => noCr ?_)
          rw [← equal]
          exact List.mem_append_right _ List.mem_cons_self
      rw [tail, List.append_nil] at bytes
      have end_ := (saves_dots bytes).mp saves
      rw [bytes] at end_
      exact ⟨bytes, (List.cons.inj (List.cons.inj (List.append_cancel_left end_)).2).2⟩

/-- A line that is cut is saved with a line end in it or behind it. -/
theorem not_saves_long (noCr : CR ∉ line.bytes) (noLf : LF ∉ line.bytes)
    (untaken : Untaken (line.bytes.take lineLimit)) (long : lineLimit ≤ line.bytes.length) :
    ¬Saves (line.bytes ++ CR :: LF :: (mailText lines ++ later)) cBuff
      (line.bytes ++ CR :: LF :: crlfText (lines.map Line.bytes)) := by
  intro saves
  obtain ⟨others, buffer, tail, _, same⟩ := (saves_cut noCr noLf long untaken).mp saves
  have split := List.take_append_drop lineLimit line.bytes
  by_cases nul : NUL ∈ line.bytes.take lineLimit
  · rw [← split, List.append_assoc, split] at same
    exact absurd same.symm (written_nul_differs nul)
  · rw [written_clean _ nul] at same
    cases back : line.bytes.drop lineLimit with
    | nil =>
      rw [back, List.append_nil] at split
      rw [split, List.append_assoc] at same
      rw [back, List.nil_append] at tail
      have rest := (List.cons.inj (List.cons.inj (List.append_cancel_left same)).2).2
      obtain ⟨more, last, extra⟩ := saves_empty.mp tail
      rw [written_clean _ List.not_mem_nil] at extra
      apply not_saves_extra 0 last
      rw [rest, extra]
      rfl
    | cons c bytes =>
      rw [back] at split
      rw [← split, List.append_assoc, List.append_assoc, split] at same
      refine absurd same.symm (differ fun equal => noCr ?_)
      rw [← split, equal]
      exact List.mem_append_right _ List.mem_cons_self

theorem saveable_of_saves (saves : Saves (mailText lines ++ later) cBuff
    (crlfText (lines.map Line.bytes))) : Saveable lines := by
  induction lines generalizing cBuff with
  | nil => exact .inl fun _ none => absurd none List.not_mem_nil
  | cons line lines ih =>
    have whole := sent line
    rw [mailText_cons, List.map_cons, crlfText_cons] at saves
    apply saveable_cons.mpr
    by_cases dot : line.bytes.head? = some DOT
    · right
      obtain ⟨dots, none⟩ := not_saves_dot dot saves
      refine ⟨dots, ?_⟩
      cases lines with
      | nil => rfl
      | cons next lines =>
        rw [List.map_cons, crlfText_cons] at none
        exact absurd none (List.append_ne_nil_of_right_ne_nil _ (List.cons_ne_nil _ _))
    · left
      have ⟨noCr, noLf, untaken, untakenCut⟩ := whole
      rw [stuff_noDot dot] at saves noCr noLf untaken untakenCut
      by_cases fits : line.bytes.length < lineLimit
      · obtain ⟨others, tail, same⟩ := (saves_line noCr noLf fits untaken).mp saves
        by_cases nul : NUL ∈ line.bytes
        · exact absurd same.symm (written_nul_differs nul)
        · rw [written_clean _ nul, List.append_assoc] at same
          have rest : crlfText (lines.map Line.bytes) = others :=
            (List.cons.inj (List.cons.inj (List.append_cancel_left same)).2).2
          exact ⟨⟨dot, nul, fits⟩, ih (rest ▸ tail)⟩
      · exact absurd saves (not_saves_long noCr noLf untakenCut (Nat.le_of_not_lt fits))

end messages

/-- A message is saved as it is exactly when no line starts with a dot, has a NUL in it or fills the
    buffer, save for a last line of dots that fill the buffer. -/
theorem savesMail_iff (dwMailCounter : Nat) (lines : List Line) (later : List Octet) (cBuff : Buffer) :
    SavesMail dwMailCounter lines later cBuff ↔ Saveable lines := by
  constructor
  · intro saved
    rcases saved with ⟨n, ends, file⟩
    obtain ⟨more, saves, all⟩ := saves_of_run rfl ends
    have same : crlfText (lines.map Line.bytes) = more := file.symm.trans all
    exact saveable_of_saves (same ▸ saves)
  · intro saveable
    obtain ⟨n, ends, file⟩ := run_of_saves (s := receiving dwMailCounter lines later cBuff)
      (saves_saveable saveable later cBuff) rfl rfl rfl
    exact ⟨n, ends, file⟩

def dotLine : Line := ⟨[DOT], by decide, by decide⟩

/-- It is saved with the dot it is sent with. -/
theorem dot_saved_twice : ¬SavesMail 1 [dotLine] [] fun _ => 0 := by
  intro saved
  rcases saved with ⟨n, ends, file⟩
  obtain ⟨more, saves, all⟩ := saves_of_run rfl ends
  have same : crlfText ([dotLine].map Line.bytes) = more := file.symm.trans all
  rcases saveable_cons.mp (saveable_of_saves (same ▸ saves)) with ⟨kept, _⟩ | ⟨dots, _⟩
  · exact kept.1 rfl
  · have lengths : 1 = lineLimit := (congrArg List.length dots).trans List.length_replicate
    exact absurd lengths (by decide)

end Popdump
