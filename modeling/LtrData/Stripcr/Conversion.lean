import LtrData.Library.Cells

namespace Stripcr

abbrev BYTE := BitVec 8

def CR : BYTE := 0x0D

def iobSize : Nat := 16384

/-- Where convert sends to, and what it reads `*ptr` from at the same time. -/
structure Target (σ : Type) where
  byteAt : σ → Nat → BYTE
  sendfnc : (lastendpos length : Nat) → σ → Option σ

variable {σ : Type}

/-- The loop of convert from `ptr` on, with what it does behind its loop. -/
def convertLoop (target : Target σ) :
    Nat → (ptr : Nat) → (lastbeginpos lastendpos : Option Nat) → σ → Option σ
  | 0, ptr, _, lastendpos, s =>
    match lastendpos with
    | some from_ => target.sendfnc from_ (ptr - from_) s
    | none => some s
  | more + 1, ptr, lastbeginpos, lastendpos, s =>
    if target.byteAt s ptr = CR then
      match lastendpos with
      | some from_ =>
        match target.sendfnc from_ (ptr - from_) s with
        | some s => convertLoop target more (ptr + 1) (some ptr) none s
        | none => none
      | none =>
        convertLoop target more (ptr + 1) (if lastbeginpos = none then some ptr else lastbeginpos) none s
    else
      convertLoop target more (ptr + 1) lastbeginpos
        (if lastbeginpos ≠ none ∧ lastendpos = none then some ptr else lastendpos) s

def convert (target : Target σ) (buffer length : Nat) (s : σ) : Option σ :=
  convertLoop target length buffer none (some buffer) s

/-- What is sent of the bytes that are left: the runs of data between carriage returns. There is
    an open run, or none directly behind a carriage return. -/
def runs : Option (List BYTE) → List BYTE → List (List BYTE)
  | some run, [] => [run]
  | none, [] => []
  | some run, b :: rest => if b = CR then run :: runs none rest else runs (some (run ++ [b])) rest
  | none, b :: rest => if b = CR then runs none rest else runs (some [b]) rest

theorem runs_flatten (run : Option (List BYTE)) (bytes : List BYTE) :
    (runs run bytes).flatten = run.getD [] ++ bytes.filter (· ≠ CR) := by
  induction bytes generalizing run with
  | nil => cases run <;> simp [runs]
  | cons b rest ih =>
    by_cases cr : b = CR
    · cases run <;> simp [runs, cr, ih]
    · cases run <;> simp [runs, cr, ih]

/-- What a target makes of the runs it is sent. `Stands s out ptr` says that it holds `out` and
    that nothing from `ptr` on has changed. -/
structure Follows (target : Target σ) (bytes : Cells BYTE) (limit : Nat)
    (step : List BYTE → List BYTE → List BYTE) (Stands : σ → List BYTE → Nat → Prop) : Prop where
  byteAt : ∀ {s out at_ ptr}, Stands s out at_ → at_ ≤ ptr → target.byteAt s ptr = bytes ptr
  later : ∀ {s out at_ ptr}, Stands s out at_ → at_ ≤ ptr → Stands s out ptr
  sendfnc : ∀ {s out at_} length, Stands s out at_ → at_ + length ≤ limit →
    ∃ s', target.sendfnc at_ length s = some s' ∧
      Stands s' (step out (bytes.read at_ length)) (at_ + length)

/-- The open run of the loop. -/
def openRun (bytes : Cells BYTE) (ptr : Nat) (lastendpos : Option Nat) : Option (List BYTE) :=
  lastendpos.map fun from_ => bytes.read from_ (ptr - from_)

theorem read_snoc (bytes : Cells BYTE) {from_ ptr : Nat} (le : from_ ≤ ptr) :
    bytes.read from_ (ptr + 1 - from_) = bytes.read from_ (ptr - from_) ++ [bytes ptr] := by
  rw [Nat.succ_sub le, Nat.succ_eq_add_one, Cells.read_add, Nat.add_sub_cancel' le]
  rfl

section Follows

variable {target : Target σ} {bytes : Cells BYTE} {limit : Nat}
  {step : List BYTE → List BYTE → List BYTE} {Stands : σ → List BYTE → Nat → Prop}

theorem Follows.convertLoop (follows : Follows target bytes limit step Stands) (more : Nat)
    {ptr : Nat} (lastbeginpos lastendpos : Option Nat) {s : σ} {out : List BYTE}
    (stands : Stands s out (lastendpos.getD ptr)) (le : lastendpos.getD ptr ≤ ptr)
    (closed : lastendpos = none → lastbeginpos ≠ none) (inside : ptr + more ≤ limit) :
    ∃ s', Stripcr.convertLoop target more ptr lastbeginpos lastendpos s = some s' ∧
      Stands s' ((runs (openRun bytes ptr lastendpos) (bytes.read ptr more)).foldl step out)
        (ptr + more) := by
  induction more generalizing ptr lastbeginpos lastendpos s out with
  | zero =>
    cases lastendpos with
    | some from_ =>
      obtain ⟨s', sent, stands'⟩ := follows.sendfnc (ptr - from_) stands (by
        simp only [Option.getD_some] at le ⊢
        omega)
      simp only [Option.getD_some] at le stands'
      rw [Nat.add_sub_cancel' le] at stands'
      exact ⟨s', sent, stands'⟩
    | none => exact ⟨s, rfl, stands⟩
  | succ more ih =>
    unfold Stripcr.convertLoop
    rw [follows.byteAt stands le, Cells.read, show ptr + (more + 1) = ptr + 1 + more by omega]
    by_cases cr : bytes ptr = CR
    · rw [if_pos cr]
      cases lastendpos with
      | some from_ =>
        obtain ⟨s', sent, stands'⟩ := follows.sendfnc (ptr - from_) stands (by
          simp only [Option.getD_some] at le ⊢
          omega)
        simp only [Option.getD_some] at le sent stands'
        rw [Nat.add_sub_cancel' le] at stands'
        dsimp only
        rw [sent]
        simp only [openRun, Option.map_some, runs, if_pos cr, List.foldl_cons]
        exact ih _ none (follows.later stands' (Nat.le_succ ptr)) (Nat.le_refl _)
          (by simp) (by omega)
      | none =>
        have begun := closed rfl
        simp only [openRun, Option.map_none, runs, if_pos cr, if_neg begun]
        exact ih lastbeginpos none (follows.later stands (Nat.le_succ ptr)) (Nat.le_refl _)
          (fun _ => begun) (by omega)
    · rw [if_neg cr]
      cases lastendpos with
      | some from_ =>
        simp only [Option.getD_some] at le
        rw [if_neg (by simp)]
        simp only [openRun, Option.map_some, runs, if_neg cr]
        rw [← read_snoc bytes le]
        exact ih lastbeginpos (some from_) stands (Nat.le_succ_of_le le) (by simp) (by omega)
      | none =>
        rw [if_pos ⟨closed rfl, rfl⟩]
        simp only [openRun, Option.map_none, runs, if_neg cr]
        have opened : openRun bytes (ptr + 1) (some ptr) = some [bytes ptr] := by
          rw [openRun, Option.map_some, Nat.add_sub_cancel_left]
          rfl
        rw [← opened]
        exact ih lastbeginpos (some ptr) stands (Nat.le_succ ptr) (by simp) (by omega)

/-- A buffer arrives at the target run by run. -/
theorem Follows.convert (follows : Follows target bytes limit step Stands) {buffer length : Nat}
    {s : σ} {out : List BYTE} (stands : Stands s out buffer) (inside : buffer + length ≤ limit) :
    ∃ s', Stripcr.convert target buffer length s = some s' ∧
      Stands s' ((runs (some []) (bytes.read buffer length)).foldl step out) (buffer + length) := by
  have loop := follows.convertLoop length none (some buffer) stands
    (Nat.le_refl _) (by simp) inside
  rw [openRun, Option.map_some, Nat.sub_self] at loop
  exact loop

end Follows

theorem convertLoop_sent (target : Target σ) (more : Nat) {ptr : Nat} {lastbeginpos lastendpos : Option Nat}
    {s s' : σ} (sent : lastendpos = none → ∃ from_ length s₀, target.sendfnc from_ length s₀ = some s)
    (run : convertLoop target more ptr lastbeginpos lastendpos s = some s') :
    ∃ from_ length s₀, target.sendfnc from_ length s₀ = some s' := by
  induction more generalizing ptr lastbeginpos lastendpos s with
  | zero =>
    cases lastendpos with
    | some from_ => exact ⟨_, _, _, run⟩
    | none =>
      obtain rfl := Option.some.inj run
      exact sent rfl
  | succ more ih =>
    unfold convertLoop at run
    split at run
    · cases lastendpos with
      | some from_ =>
        dsimp only at run
        cases next : target.sendfnc from_ (ptr - from_) s with
        | none =>
          rw [next] at run
          cases run
        | some s₁ =>
          rw [next] at run
          exact ih (fun _ => ⟨_, _, _, next⟩) run
      | none => exact ih sent run
    · refine ih (fun none_ => sent ?_) run
      split at none_
      · cases none_
      · exact none_

/-- What one read of the filter gets from its standard input. -/
structure Chunk where
  bytes : List BYTE
  nonempty : bytes ≠ []
  fits : bytes.length ≤ iobSize

/-- The filter's buffer and what it has written so far. -/
structure Filter where
  buffer : Cells BYTE
  output : List BYTE

def wrstdout : Target Filter where
  byteAt s ptr := s.buffer ptr
  sendfnc lastendpos length s := some { s with output := s.output ++ s.buffer.read lastendpos length }

/-- The filter path of main, from some read on. -/
def filterLoop : List Chunk → Filter → Option Filter
  | [], s => some s
  | chunk :: chunks, s =>
    match convert wrstdout 0 chunk.bytes.length { s with buffer := s.buffer.write 0 chunk.bytes } with
    | none => none
    | some s => filterLoop chunks s

def filterMain (chunks : List Chunk) : Option (List BYTE) :=
  (filterLoop chunks ⟨fun _ => 0, []⟩).map (·.output)

theorem foldl_append (out : List BYTE) (pieces : List (List BYTE)) :
    pieces.foldl (· ++ ·) out = out ++ pieces.flatten := by
  rw [List.foldl_append_eq_append, List.map_id']

theorem wrstdout_follows (bytes : Cells BYTE) (limit : Nat) :
    Follows wrstdout bytes limit (· ++ ·) fun s out _ => s = ⟨bytes, out⟩ := by
  refine ⟨?_, fun stands _ => stands, ?_⟩
  · rintro s out at_ ptr rfl -
    rfl
  · rintro s out at_ length rfl -
    exact ⟨_, rfl, rfl⟩

theorem filterLoop_output (chunks : List Chunk) (s : Filter) :
    ∃ s', filterLoop chunks s = some s' ∧
      s'.output = s.output ++ (chunks.flatMap (·.bytes)).filter (· ≠ CR) := by
  induction chunks generalizing s with
  | nil => exact ⟨s, rfl, by simp⟩
  | cons chunk chunks ih =>
    obtain ⟨s₁, converted, rfl⟩ := (wrstdout_follows (s.buffer.write 0 chunk.bytes) _).convert
      (s := { s with buffer := s.buffer.write 0 chunk.bytes }) rfl (Nat.le_refl (0 + chunk.bytes.length))
    obtain ⟨s', run, output⟩ := ih ⟨s.buffer.write 0 chunk.bytes, _⟩
    refine ⟨s', by rw [filterLoop, converted]; exact run, ?_⟩
    rw [output, Cells.read_write_same, foldl_append, runs_flatten]
    simp

/-- However the input is split into reads, the filter writes the bytes that are no carriage
    returns. -/
theorem filterMain_eq (chunks : List Chunk) :
    filterMain chunks = some ((chunks.flatMap (·.bytes)).filter (· ≠ CR)) := by
  obtain ⟨s', run, output⟩ := filterLoop_output chunks ⟨fun _ => 0, []⟩
  rw [filterMain, run, Option.map_some, output, List.nil_append]

end Stripcr
