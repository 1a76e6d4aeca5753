import LtrData.Library.CStrings
import Mathlib.Data.BitVec

namespace PosixLab4

abbrev BYTE := BitVec 8

def newline : BYTE := 10

/-- What one read of one byte returns. -/
inductive Read
  | char (c : BYTE)
  | eof
  | error
deriving DecidableEq

/-- When everything is read, the stream stays at its end. -/
def read : List Read → Read × List Read
  | [] => (.eof, [])
  | result :: rest => (result, rest)

/-- `accessed` has every index of `recvbuf` that is read or written. -/
structure State where
  recvbuf : Cells BYTE
  accessed : List Nat
  stream : List Read

def State.load (s : State) (bc : Nat) : State := { s with accessed := s.accessed ++ [bc] }

def State.store (s : State) (bc : Nat) (c : BYTE) : State :=
  { s with recvbuf := s.recvbuf.write bc [c], accessed := s.accessed ++ [bc] }

/-- The first loop of `readline`, which `bufsiz - bc` rounds are left of. It gives `bc`, and
    `none` where the function returns -1. -/
def firstLoop : Nat → Nat → State → Option Nat × State
  | 0, bc, s => (some bc, s)
  | n + 1, bc, s =>
    match read s.stream with
    | (.eof, rest) => (some bc, { s.store bc newline with stream := rest })
    | (.error, rest) => (none, { s with stream := rest })
    | (.char c, rest) =>
      let s := { (s.store bc c).load bc with stream := rest }
      if s.recvbuf bc = newline then (some bc, s) else firstLoop n (bc + 1) s

/-- The second loop, which reads into `c`. -/
def drain : List Read → List Read
  | [] => []
  | .char c :: rest => if c = newline then rest else drain rest
  | _ :: rest => rest

def readline (bufsiz : Nat) (recvbuf : Cells BYTE) (stream : List Read) : Int × State :=
  match firstLoop bufsiz 0 ⟨recvbuf, [], stream⟩ with
  | (none, s) => (-1, s)
  | (some bc, s) =>
    let s := s.load bc
    let s := if s.recvbuf bc ≠ newline then { s with stream := drain s.stream } else s
    (0, s.store bc 0)

inductive Ending
  | newline
  | eof
  | error
deriving DecidableEq

structure Line where
  text : List BYTE
  ending : Ending
  rest : List Read

/-- The next line of a stream, what ends it and what follows. -/
def nextLine : List Read → Line
  | [] => ⟨[], .eof, []⟩
  | .eof :: rest => ⟨[], .eof, rest⟩
  | .error :: rest => ⟨[], .error, rest⟩
  | .char c :: rest =>
    if c = newline then ⟨[], .newline, rest⟩
    else ⟨c :: (nextLine rest).text, (nextLine rest).ending, (nextLine rest).rest⟩

/-- In bounds and in step. -/
structure InStep (bufsiz : Nat) (recvbuf : Cells BYTE) (stream : List Read) : Prop where
  inside : ∀ i ∈ (readline bufsiz recvbuf stream).2.accessed, i < bufsiz
  terminated : 0 ∈ (readline bufsiz recvbuf stream).2.recvbuf.read 0 bufsiz
  text : (readline bufsiz recvbuf stream).2.recvbuf.textAt bufsiz 0 <+: (nextLine stream).text
  consumed : (readline bufsiz recvbuf stream).2.stream = (nextLine stream).rest

/-- The line leaves room for its end, and one that a read error cuts off has a NUL in it or an
    old one right behind it. -/
def Fits (bufsiz : Nat) (recvbuf : Cells BYTE) (line : Line) : Prop :=
  line.text.length < bufsiz ∧
    (line.ending = .error → 0 ∈ line.text ∨ recvbuf line.text.length = 0)

instance (bufsiz : Nat) (recvbuf : Cells BYTE) (line : Line) : Decidable (Fits bufsiz recvbuf line) :=
  inferInstanceAs (Decidable (_ ∧ (_ → _)))

/-- What the first loop has put behind the text when it is left. -/
def Ending.stored : Ending → List BYTE
  | .error => []
  | _ => [PosixLab4.newline]

theorem firstLoop_short {n : Nat} (bc : Nat) (s : State)
    (short : (nextLine s.stream).text.length < n) :
    ∃ accessed, (∀ i ∈ accessed, i < bc + n) ∧ firstLoop n bc s =
      (if (nextLine s.stream).ending = .error then none
        else some (bc + (nextLine s.stream).text.length),
       ⟨s.recvbuf.write bc ((nextLine s.stream).text ++ (nextLine s.stream).ending.stored),
        s.accessed ++ accessed, (nextLine s.stream).rest⟩) := by
  induction n generalizing bc s with
  | zero => exact absurd short (Nat.not_lt_zero _)
  | succ n ih =>
    obtain ⟨recvbuf, accessed, stream⟩ := s
    rcases stream with - | ⟨result, rest⟩
    · exact ⟨[bc], by simp, rfl⟩
    · cases result with
      | eof => exact ⟨[bc], by simp, rfl⟩
      | error => exact ⟨[], by simp, by simp [firstLoop, read, nextLine, Ending.stored]⟩
      | char c =>
        by_cases ends : c = newline
        · refine ⟨[bc, bc], by simp, ?_⟩
          simp [firstLoop, read, nextLine, State.store, State.load, Cells.write_one, ends,
            Ending.stored]
        · rw [nextLine, if_neg ends] at short ⊢
          obtain ⟨later, below, run⟩ := ih (bc + 1)
            ⟨recvbuf.write bc [c], accessed ++ [bc] ++ [bc], rest⟩ (Nat.lt_of_succ_lt_succ short)
          refine ⟨bc :: bc :: later, ?_, ?_⟩
          · intro i mem
            simp only [List.mem_cons] at mem
            rcases mem with rfl | rfl | mem
            · omega
            · omega
            · have bound := below i mem
              omega
          · simp only [firstLoop, read, State.store, State.load, Cells.write_one, if_pos, ends,
              if_false, run]
            simp [Cells.write_cons, Nat.add_assoc, Nat.add_comm 1]

theorem firstLoop_full {n : Nat} (bc : Nat) (s : State)
    (full : n ≤ (nextLine s.stream).text.length) : ∃ s', firstLoop n bc s = (some (bc + n), s') := by
  induction n generalizing bc s with
  | zero => exact ⟨s, rfl⟩
  | succ n ih =>
    obtain ⟨recvbuf, accessed, stream⟩ := s
    rcases stream with - | ⟨result, rest⟩
    · exact absurd full (Nat.not_succ_le_zero n)
    · cases result with
      | eof => exact absurd full (Nat.not_succ_le_zero n)
      | error => exact absurd full (Nat.not_succ_le_zero n)
      | char c =>
        by_cases ends : c = newline
        · rw [nextLine, if_pos ends] at full
          exact absurd full (Nat.not_succ_le_zero n)
        · rw [nextLine, if_neg ends] at full
          obtain ⟨s', run⟩ := ih (bc + 1) ⟨recvbuf.write bc [c], accessed ++ [bc] ++ [bc], rest⟩
            (Nat.le_of_succ_le_succ full)
          refine ⟨s', ?_⟩
          simp only [firstLoop, read, State.store, State.load, Cells.write_one, if_pos, ends,
            if_false, run]
          rw [Nat.add_assoc, Nat.add_comm 1 n]

section Calls

variable {bufsiz : Nat} (recvbuf : Cells BYTE) {stream : List Read}

theorem readline_full (full : bufsiz ≤ (nextLine stream).text.length) :
    bufsiz ∈ (readline bufsiz recvbuf stream).2.accessed := by
  obtain ⟨s', run⟩ := firstLoop_full 0 ⟨recvbuf, [], stream⟩ full
  rw [Nat.zero_add] at run
  rw [readline, run]
  simp [State.store]

theorem readline_error (short : (nextLine stream).text.length < bufsiz)
    (error : (nextLine stream).ending = .error) :
    ∃ accessed, (∀ i ∈ accessed, i < bufsiz) ∧ readline bufsiz recvbuf stream =
      (-1, ⟨recvbuf.write 0 (nextLine stream).text, accessed, (nextLine stream).rest⟩) := by
  obtain ⟨accessed, below, run⟩ := firstLoop_short 0 ⟨recvbuf, [], stream⟩ short
  rw [Nat.zero_add] at below
  refine ⟨accessed, below, ?_⟩
  simp [readline, run, error, Ending.stored]

theorem readline_line (short : (nextLine stream).text.length < bufsiz)
    (whole : (nextLine stream).ending ≠ .error) :
    ∃ accessed, (∀ i ∈ accessed, i < bufsiz) ∧ readline bufsiz recvbuf stream =
      (0, ⟨(recvbuf.write 0 ((nextLine stream).text ++ [newline])).write
        (nextLine stream).text.length [0], accessed, (nextLine stream).rest⟩) := by
  obtain ⟨accessed, below, run⟩ := firstLoop_short 0 ⟨recvbuf, [], stream⟩ short
  rw [Nat.zero_add] at below
  have stored : (nextLine stream).ending.stored = [newline] := by
    cases ending : (nextLine stream).ending with
    | newline => rfl
    | eof => rfl
    | error => exact absurd ending whole
  have last : recvbuf.write 0 ((nextLine stream).text ++ [newline]) (nextLine stream).text.length =
      newline := by simp [Cells.write]
  refine ⟨accessed ++ [(nextLine stream).text.length] ++ [(nextLine stream).text.length], ?_, ?_⟩
  · intro i mem
    simp only [List.mem_append, List.mem_singleton] at mem
    rcases mem with (mem | rfl) | rfl
    · exact below i mem
    · exact short
    · exact short
  · simp [readline, run, whole, stored, State.load, State.store, last]

end Calls

/-- A text followed by a NUL, wherever its own first NUL is. -/
theorem text_terminated {m : Cells BYTE} {text : List BYTE} {bufsiz : Nat}
    (cells : m.read 0 text.length = text) (short : text.length < bufsiz) (ends : m text.length = 0) :
    0 ∈ m.read 0 bufsiz ∧ m.textAt bufsiz 0 <+: text := by
  have stored : m.read 0 (text.length + 1) = text ++ [0] := by
    rw [Cells.read_add, cells, Nat.zero_add, Cells.read, ends]
    rfl
  refine ⟨Cells.mem_read.mpr ⟨text.length, short, by rw [Nat.zero_add, ends]⟩, ?_⟩
  rw [Cells.textAt_cells stored (by omega)]
  exact List.takeWhile_prefix _

theorem takeWhile_ne_of_mem {text : List BYTE} (zero : 0 ∈ text) (behind : List BYTE) :
    (text ++ behind).takeWhile (· ≠ 0) = text.takeWhile (· ≠ 0) := by
  obtain ⟨front, back, rfl, absent⟩ := List.eq_append_cons_of_mem zero
  have clean : ∀ c ∈ front, c ≠ 0 := fun c mem same => absent (same ▸ mem)
  rw [List.append_assoc, List.cons_append, Cells.takeWhile_text clean, Cells.takeWhile_text clean]

/-- What a text that a read error has cut off needs of the buffer. -/
theorem text_cut {m : Cells BYTE} {text : List BYTE} {bufsiz : Nat}
    (cells : m.read 0 text.length = text) (short : text.length < bufsiz) :
    0 ∈ m.read 0 bufsiz ∧ m.textAt bufsiz 0 <+: text ↔ 0 ∈ text ∨ m text.length = 0 := by
  have split := Cells.read_add m 0 text.length (bufsiz - text.length)
  obtain ⟨k, room⟩ := Nat.exists_eq_add_of_lt short
  rw [show text.length + (bufsiz - text.length) = bufsiz by omega,
    show bufsiz - text.length = k + 1 by omega, cells, Nat.zero_add, Cells.read] at split
  constructor
  · intro facts
    by_contra none_
    rw [not_or] at none_
    have clean : ∀ c ∈ text, c ≠ 0 := fun c mem same => none_.1 (same ▸ mem)
    have longer := facts.2.length_le
    rw [Cells.textAt, Nat.sub_zero, split,
      List.takeWhile_append_of_pos (by simpa using clean),
      List.takeWhile_cons_of_pos (by simpa using none_.2), List.length_append, List.length_cons] at longer
    omega
  · intro facts
    rcases facts with zero | ends
    · constructor
      · rw [split]
        exact List.mem_append_left _ zero
      · rw [Cells.textAt, Nat.sub_zero, split, takeWhile_ne_of_mem zero]
        exact List.takeWhile_prefix _
    · exact text_terminated cells short ends

/-- `readline` is in bounds and in step exactly when the line fits. -/
theorem readline_inStep_iff (bufsiz : Nat) (recvbuf : Cells BYTE) (stream : List Read) :
    InStep bufsiz recvbuf stream ↔ Fits bufsiz recvbuf (nextLine stream) := by
  by_cases short : (nextLine stream).text.length < bufsiz
  · by_cases error : (nextLine stream).ending = .error
    · obtain ⟨accessed, below, run⟩ := readline_error recvbuf short error
      have cells := Cells.read_write_same recvbuf 0 (nextLine stream).text
      have cut := text_cut cells short
      have behind : recvbuf.write 0 (nextLine stream).text (nextLine stream).text.length =
          recvbuf (nextLine stream).text.length :=
        Cells.write_after recvbuf _ (Nat.le_of_eq (Nat.zero_add _))
      rw [behind] at cut
      constructor
      · intro inStep
        have terminated := inStep.terminated
        have text := inStep.text
        rw [run] at terminated text
        exact ⟨short, fun _ => cut.mp ⟨terminated, text⟩⟩
      · intro fits
        have ⟨terminated, text⟩ := cut.mpr (fits.2 error)
        constructor <;> rw [run]
        · exact below
        · exact terminated
        · exact text
    · obtain ⟨accessed, below, run⟩ := readline_line recvbuf short error
      refine ⟨fun _ => ⟨short, fun ends => absurd ends error⟩, fun _ => ?_⟩
      have cells : ((recvbuf.write 0 ((nextLine stream).text ++ [newline])).write
          (nextLine stream).text.length [0]).read 0 (nextLine stream).text.length =
          (nextLine stream).text := by
        rw [Cells.read_write_before _ _ (Nat.le_of_eq (Nat.zero_add _)),
          Cells.read_write_front _ _ _ (by simp), List.take_left]
      have ⟨terminated, text⟩ := text_terminated cells short (by simp [Cells.write_one])
      constructor <;> rw [run]
      · exact below
      · exact terminated
      · exact text
  · constructor
    · intro inStep
      exact absurd (inStep.inside _ (readline_full recvbuf (Nat.le_of_not_lt short))) (Nat.lt_irrefl _)
    · intro fits
      exact absurd fits.1 short

/-- A line of two characters and its newline, read into two bytes. -/
theorem readline_writes_behind :
    ¬ InStep 2 (fun _ => 0) [.char 97, .char 98, .char 10] ∧
      (readline 2 (fun _ => 0) [.char 97, .char 98, .char 10]).2.accessed = [0, 0, 1, 1, 2, 2] :=
  ⟨fun inStep => absurd (inStep.inside 2 (by decide)) (by decide), by decide⟩

end PosixLab4
