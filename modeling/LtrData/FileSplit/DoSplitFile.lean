import Mathlib.Algebra.Group.Nat.Defs
import Mathlib.Data.List.Basic

namespace FileSplit

abbrev BYTE := BitVec 8

abbrev DWORD := BitVec 32

/-- The part size typed into the dialog, rounded down to a multiple of 512. -/
def roundSize (uiBufSize : DWORD) : DWORD := uiBufSize >>> 9 <<< 9

/-- The answers depend on the number of calls before. `writes` is how much WriteFile writes when it is
    asked to write some length, or nothing where it fails. -/
structure Config where
  source : List BYTE
  size : DWORD
  reads : Nat → Bool
  creates : Nat → Bool
  writes : Nat → DWORD → Option DWORD

def Config.dwBufSize (c : Config) : DWORD := roundSize c.size

/-- Where DoSplitFile is: before a call, or stopped. Prompts are answered Retry or OK. -/
inductive Point
  | start
  | read
  | create
  | write
  | refill
  | finished
  | cancelled
  | dividedByZero
  | overrun
deriving DecidableEq

/-- `parts` are the files written, each with the number in its name. -/
structure State where
  point : Point
  unread : List BYTE
  lpBuffer : List BYTE := []
  dwBytesRead : DWORD := 0
  dwRetryLen : DWORD := 0
  dwBytesWritten : DWORD := 0
  dwFileCounter : DWORD := 0
  FilePos : Nat := 0
  parts : List (DWORD × List BYTE) := []
  calls : Nat := 0
deriving DecidableEq

def startStep (c : Config) (s : State) : State :=
  if c.dwBufSize = 0 then { s with point := .dividedByZero }
  else if 2 ^ 32 - 1 < c.source.length / c.dwBufSize.toNat then { s with point := .cancelled }
  else { s with point := .read }

def readStep (c : Config) (s : State) : State :=
  if c.reads s.calls then
    let block := s.unread.take c.dwBufSize.toNat
    if block = [] then { s with point := .finished, calls := s.calls + 1 }
    else
      { s with
        point := .create
        unread := s.unread.drop c.dwBufSize.toNat
        lpBuffer := block
        dwBytesRead := BitVec.ofNat 32 block.length
        dwFileCounter := s.dwFileCounter + 1
        calls := s.calls + 1 }
  else { s with calls := s.calls + 1 }

def createStep (c : Config) (s : State) : State :=
  if c.creates s.calls then
    { s with point := .write, dwRetryLen := s.dwBytesRead, calls := s.calls + 1 }
  else { s with calls := s.calls + 1 }

/-- The part file is closed, and deleted if nothing has been written to it. -/
def closePart (c : Config) (s : State) (dwBytesWritten : DWORD) : State :=
  if c.source.length = 0 then { s with point := .dividedByZero }
  else
    let part := (s.dwFileCounter, s.lpBuffer.take dwBytesWritten.toNat)
    if dwBytesWritten ≠ s.dwBytesRead then
      -- the disk is full: what has not been written moves to the bottom of the buffer
      { s with
        point := .refill
        lpBuffer := s.lpBuffer.drop dwBytesWritten.toNat
        dwBytesWritten
        dwFileCounter := if dwBytesWritten = 0 then s.dwFileCounter else s.dwFileCounter + 1
        FilePos := s.FilePos + dwBytesWritten.toNat
        parts := if dwBytesWritten = 0 then s.parts else s.parts ++ [part]
        calls := s.calls + 1 }
    else
      { s with
        point := .read
        lpBuffer := []
        dwBytesWritten
        FilePos := s.FilePos + dwBytesWritten.toNat
        parts := s.parts ++ [part]
        calls := s.calls + 1 }

/-- A length that is larger than the data in the buffer stops the run. -/
def writeStep (c : Config) (s : State) : State :=
  if s.lpBuffer.length < s.dwRetryLen.toNat then { s with point := .overrun }
  else
    match c.writes s.calls s.dwRetryLen with
    | some dwBytesWritten =>
      closePart c s (if dwBytesWritten ≤ s.dwRetryLen then dwBytesWritten else s.dwRetryLen)
    | none =>
      if 0 < s.dwRetryLen then { s with dwRetryLen := s.dwRetryLen - 512, calls := s.calls + 1 }
      else closePart c s 0

def refillStep (c : Config) (s : State) : State :=
  if c.reads s.calls then
    let block := s.unread.take s.dwBytesWritten.toNat
    let dwReport := BitVec.ofNat 32 block.length
    { s with
      point := .create
      unread := s.unread.drop s.dwBytesWritten.toNat
      lpBuffer := s.lpBuffer ++ block
      dwBytesRead := s.dwBytesRead - (s.dwBytesWritten - dwReport)
      calls := s.calls + 1 }
  else { s with calls := s.calls + 1 }

def step (c : Config) (s : State) : State :=
  match s.point with
  | .start => startStep c s
  | .read => readStep c s
  | .create => createStep c s
  | .write => writeStep c s
  | .refill => refillStep c s
  | .finished | .cancelled | .dividedByZero | .overrun => s

def run (c : Config) : Nat → State
  | 0 => { point := .start, unread := c.source }
  | n + 1 => step c (run c n)

section arithmetic

theorem toNat_roundSize (size : DWORD) : (roundSize size).toNat = size.toNat / 512 * 512 := by
  have small := size.isLt
  rw [roundSize, BitVec.toNat_shiftLeft, BitVec.toNat_ushiftRight, Nat.shiftLeft_eq,
    Nat.shiftRight_eq_div_pow]
  exact Nat.mod_eq_of_lt (by omega)

theorem dwBufSize_lt (c : Config) : c.dwBufSize.toNat ≤ 2 ^ 32 - 512 := by
  have small := c.size.isLt
  rw [Config.dwBufSize, toNat_roundSize]
  omega

theorem toNat_sub_of_le {a b : DWORD} (le : b.toNat ≤ a.toNat) : (a - b).toNat = a.toNat - b.toNat :=
  BitVec.toNat_sub_of_le le

theorem toNat_retry {dwRetryLen : DWORD} (long : 512 ≤ dwRetryLen.toNat) :
    (dwRetryLen - 512).toNat = dwRetryLen.toNat - 512 := toNat_sub_of_le long

theorem toNat_retry_wrapped {dwRetryLen : DWORD} (short : dwRetryLen.toNat < 512) :
    (dwRetryLen - 512).toNat = 2 ^ 32 - 512 + dwRetryLen.toNat := by
  have eq : (512 : DWORD).toNat = 512 := rfl
  rw [BitVec.toNat_sub, eq]
  omega

end arithmetic

def State.pending (s : State) : List BYTE :=
  match s.point with
  | .create | .write | .refill | .overrun => s.lpBuffer
  | _ => []

/-- What holds at each point, as long as DoSplitFile goes on. -/
def State.AtPoint (c : Config) (s : State) : Prop :=
  match s.point with
  | .start => s.parts = [] ∧ s.dwFileCounter = 0
  | .read => c.dwBufSize ≠ 0 ∧ s.dwFileCounter = BitVec.ofNat 32 s.parts.length
  | .create => c.dwBufSize ≠ 0 ∧ s.dwFileCounter = BitVec.ofNat 32 (s.parts.length + 1) ∧
      s.lpBuffer ≠ [] ∧ s.dwBytesRead.toNat = s.lpBuffer.length
  | .write => c.dwBufSize ≠ 0 ∧ s.dwFileCounter = BitVec.ofNat 32 (s.parts.length + 1) ∧
      s.lpBuffer ≠ [] ∧ s.dwBytesRead.toNat = s.lpBuffer.length
  | .refill => c.dwBufSize ≠ 0 ∧ s.dwFileCounter = BitVec.ofNat 32 (s.parts.length + 1) ∧
      s.lpBuffer ≠ [] ∧ s.dwBytesRead.toNat = s.lpBuffer.length + s.dwBytesWritten.toNat
  | .finished => s.unread = []
  | .cancelled => True
  | .dividedByZero => c.dwBufSize = 0
  | .overrun => True

structure Inv (c : Config) (s : State) : Prop where
  whole : (s.parts.map Prod.snd).flatten ++ s.pending ++ s.unread = c.source
  position : s.FilePos = (s.parts.map Prod.snd).flatten.length
  numbers : s.parts.map Prod.fst = (List.range' 1 s.parts.length).map (BitVec.ofNat 32)
  sizes : ∀ part ∈ s.parts, part.2.length ≤ c.dwBufSize.toNat
  buffer : s.point ≠ .refill → s.lpBuffer.length ≤ c.dwBufSize.toNat
  refill : s.point = .refill → s.lpBuffer.length + s.dwBytesWritten.toNat ≤ c.dwBufSize.toNat
  here : s.AtPoint c

section inv

variable {c : Config} {s : State}

theorem inv_start (c : Config) : Inv c (run c 0) where
  whole := rfl
  position := rfl
  numbers := rfl
  sizes := fun _ absurd => by cases absurd
  buffer := fun _ => Nat.zero_le _
  refill := fun absurd => by cases absurd
  here := ⟨rfl, rfl⟩

theorem inv_startStep (inv : Inv c s) (point : s.point = .start) : Inv c (startStep c s) := by
  obtain ⟨whole, position, numbers, sizes, buffer, refill, here⟩ := inv
  simp only [State.AtPoint, State.pending, point] at here whole
  obtain ⟨parts, counter⟩ := here
  have buffer := buffer (by rw [point]; decide)
  unfold startStep
  by_cases zero : c.dwBufSize = 0
  · rw [if_pos zero]
    exact ⟨whole, position, numbers, sizes, fun _ => buffer, fun absurd => (by cases absurd), zero⟩
  rw [if_neg zero]
  split
  · exact ⟨whole, position, numbers, sizes, fun _ => buffer, fun absurd => (by cases absurd), trivial⟩
  · refine ⟨whole, position, numbers, sizes, fun _ => buffer, fun absurd => (by cases absurd), zero, ?_⟩
    rw [counter, parts]
    rfl

theorem inv_readStep (inv : Inv c s) (point : s.point = .read) : Inv c (readStep c s) := by
  obtain ⟨whole, position, numbers, sizes, buffer, refill, here⟩ := inv
  simp only [State.AtPoint, State.pending, point] at here whole
  obtain ⟨nonzero, counter⟩ := here
  have buffer := buffer (by rw [point]; decide)
  rw [List.append_nil] at whole
  unfold readStep
  by_cases reads : c.reads s.calls = true
  swap
  · rw [if_neg reads]
    refine ⟨?_, position, numbers, sizes, fun _ => buffer, fun absurd => ?_, ?_⟩
    · simpa only [State.pending, point, List.append_nil] using whole
    · cases point.symm.trans absurd
    · simp only [State.AtPoint, point]
      exact ⟨nonzero, counter⟩
  rw [if_pos reads]
  by_cases ended : s.unread.take c.dwBufSize.toNat = []
  · have size : 0 < c.dwBufSize.toNat := Nat.pos_of_ne_zero fun zero => nonzero (BitVec.eq_of_toNat_eq zero)
    have none : s.unread = [] := (List.take_eq_nil_iff.mp ended).resolve_left (Nat.ne_of_gt size)
    rw [if_pos ended]
    refine ⟨?_, position, numbers, sizes, fun _ => buffer, fun absurd => (by cases absurd), none⟩
    simpa only [State.pending, List.append_nil] using whole
  · have small := dwBufSize_lt c
    have length : (s.unread.take c.dwBufSize.toNat).length ≤ c.dwBufSize.toNat := List.length_take_le _ _
    rw [if_neg ended]
    refine ⟨?_, position, numbers, sizes, fun _ => length, fun absurd => (by cases absurd), nonzero, ?_,
      ended, ?_⟩
    · simp only [State.pending]
      rw [List.append_assoc, List.take_append_drop, whole]
    · rw [counter]
      exact (BitVec.ofNat_add _ _).symm
    · rw [BitVec.toNat_ofNat]
      exact Nat.mod_eq_of_lt (by omega)

theorem inv_createStep (inv : Inv c s) (point : s.point = .create) : Inv c (createStep c s) := by
  obtain ⟨whole, position, numbers, sizes, buffer, refill, here⟩ := inv
  simp only [State.AtPoint, State.pending, point] at here whole
  have buffer := buffer (by rw [point]; decide)
  unfold createStep
  by_cases creates : c.creates s.calls = true
  · rw [if_pos creates]
    exact ⟨whole, position, numbers, sizes, fun _ => buffer, fun absurd => (by cases absurd), here⟩
  · rw [if_neg creates]
    refine ⟨?_, position, numbers, sizes, fun _ => buffer, fun absurd => ?_, ?_⟩
    · simpa only [State.pending, point] using whole
    · cases point.symm.trans absurd
    · simpa only [State.AtPoint, point] using here

theorem numbers_append {parts : List (DWORD × List BYTE)} {number : DWORD} {data : List BYTE}
    (numbers : parts.map Prod.fst = (List.range' 1 parts.length).map (BitVec.ofNat 32))
    (next : number = BitVec.ofNat 32 (parts.length + 1)) :
    (parts ++ [(number, data)]).map Prod.fst =
      (List.range' 1 (parts ++ [(number, data)]).length).map (BitVec.ofNat 32) := by
  rw [List.length_append, List.length_singleton, List.range'_1_concat, List.map_append, List.map_append,
    numbers, next, Nat.add_comm 1]
  rfl

/-- What has been written of the buffer becomes a part, and the rest stays pending. -/
theorem inv_closePart (inv : Inv c s) (point : s.point = .write) {dwBytesWritten : DWORD}
    (prefix_ : dwBytesWritten.toNat ≤ s.lpBuffer.length) : Inv c (closePart c s dwBytesWritten) := by
  obtain ⟨whole, position, numbers, sizes, buffer, refill, here⟩ := inv
  simp only [State.AtPoint, State.pending, point] at here whole
  obtain ⟨nonzero, counter, nonempty, count⟩ := here
  have buffer := buffer (by rw [point]; decide)
  have written : (s.lpBuffer.take dwBytesWritten.toNat).length = dwBytesWritten.toNat := by
    rw [List.length_take]
    omega
  have part_size : ∀ part ∈ s.parts ++ [(s.dwFileCounter, s.lpBuffer.take dwBytesWritten.toNat)],
      part.2.length ≤ c.dwBufSize.toNat := by
    intro part mem
    rcases List.mem_append.mp mem with mem | mem
    · exact sizes part mem
    · rw [List.mem_singleton.mp mem, written]
      omega
  have source : ¬ c.source.length = 0 := by
    intro zero
    have lengths := congrArg List.length whole
    have positive := List.length_pos_iff.mpr nonempty
    rw [List.length_append, List.length_append] at lengths
    omega
  unfold closePart
  rw [if_neg source]
  by_cases full : dwBytesWritten = s.dwBytesRead
  · -- the whole buffer has been written
    have all : s.lpBuffer.take dwBytesWritten.toNat = s.lpBuffer := by
      rw [full, count, List.take_length]
    rw [if_neg (not_not.mpr full), all]
    rw [all] at part_size written
    refine ⟨?_, ?_, numbers_append numbers counter, part_size, fun _ => Nat.zero_le _,
      fun absurd => (by cases absurd), nonzero, ?_⟩
    · simpa [State.pending] using whole
    · simp [position, written]
    · rw [List.length_append, List.length_singleton]
      exact counter
  · rw [if_pos full]
    have rest : (s.lpBuffer.drop dwBytesWritten.toNat).length + dwBytesWritten.toNat =
        s.lpBuffer.length := by
      rw [List.length_drop]
      omega
    have left : s.lpBuffer.drop dwBytesWritten.toNat ≠ [] := by
      intro none
      rw [none, List.length_nil] at rest
      exact full (BitVec.eq_of_toNat_eq (by omega))
    by_cases none : dwBytesWritten = 0
    · subst none
      rw [if_pos rfl, if_pos rfl]
      refine ⟨?_, ?_, numbers, sizes, fun absurd => (absurd rfl).elim, fun _ => ?_, nonzero, counter, left, ?_⟩
      · simpa [State.pending] using whole
      · simpa using position
      · exact rest.symm ▸ buffer
      · rw [rest]
        exact count
    · rw [if_neg none, if_neg none]
      refine ⟨?_, ?_, numbers_append numbers counter, part_size, fun absurd => (absurd rfl).elim,
        fun _ => ?_, nonzero, ?_, left, ?_⟩
      · simp only [State.pending, List.map_append, List.map_cons, List.map_nil, List.flatten_append,
          List.flatten_cons, List.flatten_nil, List.append_nil]
        rw [List.append_assoc (s.parts.map Prod.snd).flatten, List.take_append_drop]
        exact whole
      · simp [position, written]
      · exact rest.symm ▸ buffer
      · rw [counter, List.length_append, List.length_singleton]
        exact (BitVec.ofNat_add _ _).symm
      · rw [rest]
        exact count

theorem inv_writeStep (inv : Inv c s) (point : s.point = .write) : Inv c (writeStep c s) := by
  unfold writeStep
  by_cases beyond : s.lpBuffer.length < s.dwRetryLen.toNat
  · rw [if_pos beyond]
    obtain ⟨whole, position, numbers, sizes, buffer, refill, here⟩ := inv
    have buffer := buffer (by rw [point]; decide)
    simp only [State.pending, point] at whole
    exact ⟨whole, position, numbers, sizes, fun _ => buffer, fun absurd => (by cases absurd), trivial⟩
  rw [if_neg beyond]
  cases c.writes s.calls s.dwRetryLen with
  | some dwBytesWritten =>
    refine inv_closePart inv point ?_
    split
    · next le => exact Nat.le_trans (BitVec.le_def.mp le) (Nat.le_of_not_lt beyond)
    · exact Nat.le_of_not_lt beyond
  | none =>
    dsimp only
    split
    · obtain ⟨whole, position, numbers, sizes, buffer, refill, here⟩ := inv
      have buffer := buffer (by rw [point]; decide)
      refine ⟨?_, position, numbers, sizes, fun _ => buffer, fun absurd => ?_, ?_⟩
      · simpa only [State.pending, point] using whole
      · cases point.symm.trans absurd
      · simpa only [State.AtPoint, point] using here
    · exact inv_closePart inv point (Nat.zero_le _)

theorem inv_refillStep (inv : Inv c s) (point : s.point = .refill) : Inv c (refillStep c s) := by
  obtain ⟨whole, position, numbers, sizes, buffer, refill, here⟩ := inv
  simp only [State.AtPoint, State.pending, point] at here whole
  obtain ⟨nonzero, counter, nonempty, count⟩ := here
  have refill := refill point
  have small := dwBufSize_lt c
  unfold refillStep
  by_cases reads : c.reads s.calls = true
  swap
  · rw [if_neg reads]
    refine ⟨?_, position, numbers, sizes, fun other => (other point).elim, fun _ => refill, ?_⟩
    · simpa only [State.pending, point] using whole
    · simp only [State.AtPoint, point]
      exact ⟨nonzero, counter, nonempty, count⟩
  rw [if_pos reads]
  have length : (s.unread.take s.dwBytesWritten.toNat).length ≤ s.dwBytesWritten.toNat :=
    List.length_take_le _ _
  have report : (BitVec.ofNat 32 (s.unread.take s.dwBytesWritten.toNat).length).toNat =
      (s.unread.take s.dwBytesWritten.toNat).length := by
    rw [BitVec.toNat_ofNat]
    exact Nat.mod_eq_of_lt (by omega)
  have missing := toNat_sub_of_le (a := s.dwBytesWritten)
    (b := BitVec.ofNat 32 (s.unread.take s.dwBytesWritten.toNat).length) (by rw [report]; exact length)
  refine ⟨?_, position, numbers, sizes, fun _ => ?_, fun absurd => (by cases absurd), nonzero, counter,
    ?_, ?_⟩
  · simp only [State.pending]
    rw [← whole, List.append_assoc, List.append_assoc, List.append_assoc, List.take_append_drop]
  · show (s.lpBuffer ++ _).length ≤ _
    rw [List.length_append]
    omega
  · exact fun none => nonempty (List.append_eq_nil_iff.mp none).1
  · show (s.dwBytesRead - (s.dwBytesWritten - _)).toNat = (s.lpBuffer ++ _).length
    rw [toNat_sub_of_le (by rw [missing, report]; omega), missing, report, List.length_append]
    omega

theorem inv_step (inv : Inv c s) : Inv c (step c s) := by
  unfold step
  cases point : s.point with
  | start => exact inv_startStep inv point
  | read => exact inv_readStep inv point
  | create => exact inv_createStep inv point
  | write => exact inv_writeStep inv point
  | refill => exact inv_refillStep inv point
  | finished => exact inv
  | cancelled => exact inv
  | dividedByZero => exact inv
  | overrun => exact inv

theorem inv_run (c : Config) (n : Nat) : Inv c (run c n) := by
  induction n with
  | zero => exact inv_start c
  | succ n ih => exact inv_step ih

end inv

/-- A WriteFile call that fails has been asked for nothing, or for 512 bytes at least. -/
def NoShortFailure (c : Config) (s : State) : Prop :=
  s.point = .write → c.writes s.calls s.dwRetryLen = none →
    s.dwRetryLen.toNat = 0 ∨ 512 ≤ s.dwRetryLen.toNat

structure Meets (c : Config) : Prop where
  size : c.dwBufSize ≠ 0
  writes : ∀ n, NoShortFailure c (run c n)

/-- The source file, in parts that are numbered from 1 on. -/
structure IsSplit (c : Config) (s : State) : Prop where
  numbers : s.parts.map (fun part => part.1.toNat) = List.range' 1 s.parts.length
  whole : (s.parts.map Prod.snd).flatten = c.source
  sizes : ∀ part ∈ s.parts, part.2.length ≤ c.dwBufSize.toNat
  position : s.FilePos = c.source.length

structure Splits (c : Config) : Prop where
  divides : ∀ n, (run c n).point ≠ .dividedByZero
  withinBuffer : ∀ n, (run c n).point ≠ .overrun
  retries : ∀ n, ∃ m, n ≤ m ∧ (run c m).point ≠ .write
  complete : ∀ n, (run c n).point = .finished → IsSplit c (run c n)

section splits

variable {c : Config} {s : State}

theorem closePart_point (c : Config) (s : State) (dwBytesWritten : DWORD) :
    (closePart c s dwBytesWritten).point ≠ .write ∧ (closePart c s dwBytesWritten).point ≠ .overrun := by
  unfold closePart
  split
  · simp
  · dsimp only
    split
    · simp
    · simp

theorem step_write (point : s.point = .write) (within : s.dwRetryLen.toNat ≤ s.lpBuffer.length) :
    (step c s).point ≠ .write ∧ (step c s).point ≠ .overrun ∨
      c.writes s.calls s.dwRetryLen = none ∧ 0 < s.dwRetryLen.toNat ∧
        step c s = { s with dwRetryLen := s.dwRetryLen - 512, calls := s.calls + 1 } := by
  have step_eq : step c s = writeStep c s := by
    rw [step, point]
  rw [step_eq, writeStep, if_neg (Nat.not_lt.mpr within)]
  cases writes : c.writes s.calls s.dwRetryLen with
  | some dwBytesWritten => exact .inl (closePart_point c s _)
  | none =>
    dsimp only
    by_cases positive : 0 < s.dwRetryLen
    · rw [if_pos positive]
      exact .inr ⟨rfl, BitVec.lt_def.mp positive, rfl⟩
    · rw [if_neg positive]
      exact .inl (closePart_point c s 0)

theorem step_other (point : s.point ≠ .write) (running : s.point ≠ .overrun) :
    (step c s).point ≠ .overrun ∧ ((step c s).point = .write → s.point = .create ∧
      (step c s).dwRetryLen = s.dwBytesRead ∧ (step c s).lpBuffer = s.lpBuffer) := by
  unfold step
  cases here : s.point with
  | start =>
    simp only [startStep]
    split
    · simp
    · split <;> simp
  | read =>
    simp only [readStep]
    split
    · split <;> simp
    · simp [here]
  | create =>
    simp only [createStep]
    split
    · simp
    · simp [here]
  | write => exact absurd here point
  | refill =>
    simp only [refillStep]
    split
    · simp
    · simp [here]
  | finished => simp [here]
  | cancelled => simp [here]
  | dividedByZero => simp [here]
  | overrun => exact absurd here running

/-- The retry loop asks for no more than the data in the buffer. -/
def Within (s : State) : Prop :=
  s.point ≠ .overrun ∧ (s.point = .write → s.dwRetryLen.toNat ≤ s.lpBuffer.length)

theorem within_step (inv : Inv c s) (within : Within s) (long : NoShortFailure c s) :
    Within (step c s) := by
  by_cases point : s.point = .write
  · have retry := within.2 point
    rcases step_write (c := c) point retry with ⟨left, running⟩ | ⟨fails, positive, next⟩
    · exact ⟨running, fun back => absurd back left⟩
    · have enough := (long point fails).resolve_left (Nat.ne_of_gt positive)
      rw [next]
      refine ⟨within.1, fun _ => ?_⟩
      show (s.dwRetryLen - 512).toNat ≤ s.lpBuffer.length
      rw [toNat_retry enough]
      omega
  · obtain ⟨running, starts⟩ := step_other (c := c) point within.1
    refine ⟨running, fun begun => ?_⟩
    obtain ⟨create, length, buffer⟩ := starts begun
    have here := inv.here
    simp only [State.AtPoint, create] at here
    exact Nat.le_of_eq (by rw [length, buffer, here.2.2.2])

theorem within_run (meets : Meets c) (n : Nat) : Within (run c n) := by
  induction n with
  | zero => exact ⟨fun absurd => (by cases absurd), fun absurd => by cases absurd⟩
  | succ n ih => exact within_step (inv_run c n) ih (meets.writes n)

theorem retries_end (meets : Meets c) (length : Nat) : ∀ n, (run c n).dwRetryLen.toNat ≤ length →
    ∃ m, n ≤ m ∧ (run c m).point ≠ .write := by
  induction length with
  | zero =>
    intro n short
    by_cases point : (run c n).point = .write
    · rcases step_write (c := c) point ((within_run meets n).2 point) with ⟨left, -⟩ | ⟨-, positive, -⟩
      · exact ⟨n + 1, Nat.le_succ n, left⟩
      · omega
    · exact ⟨n, Nat.le_refl n, point⟩
  | succ length ih =>
    intro n short
    by_cases point : (run c n).point = .write
    · rcases step_write (c := c) point ((within_run meets n).2 point) with
        ⟨left, -⟩ | ⟨fails, positive, next⟩
      · exact ⟨n + 1, Nat.le_succ n, left⟩
      · have enough := (meets.writes n point fails).resolve_left (Nat.ne_of_gt positive)
        have shorter : (run c (n + 1)).dwRetryLen.toNat ≤ length := by
          rw [run, next]
          show ((run c n).dwRetryLen - 512).toNat ≤ length
          rw [toNat_retry enough]
          omega
        obtain ⟨m, later, left⟩ := ih (n + 1) shorter
        exact ⟨m, by omega, left⟩
    · exact ⟨n, Nat.le_refl n, point⟩

theorem isSplit_of_finished (fewer : s.parts.length < 2 ^ 32) (inv : Inv c s)
    (point : s.point = .finished) : IsSplit c s := by
  obtain ⟨whole, position, numbers, sizes, -, -, here⟩ := inv
  simp only [State.AtPoint, State.pending, point] at here whole
  rw [here, List.append_nil, List.append_nil] at whole
  refine ⟨?_, whole, sizes, whole ▸ position⟩
  calc s.parts.map (fun part => part.1.toNat)
      = (s.parts.map Prod.fst).map BitVec.toNat := by rw [List.map_map]; rfl
    _ = (List.range' 1 s.parts.length).map fun number => (BitVec.ofNat 32 number).toNat := by
        rw [numbers, List.map_map]
        rfl
    _ = (List.range' 1 s.parts.length).map id := by
        refine List.map_congr_left fun number mem => ?_
        have bound := (List.mem_range'_1.mp mem).2
        rw [BitVec.toNat_ofNat]
        exact Nat.mod_eq_of_lt (by omega)
    _ = List.range' 1 s.parts.length := List.map_id _

/-- A short write that fails is tried again with a length from 2^32 - 512 on. -/
theorem overrun_of_short_failure {n : Nat} (point : (run c n).point = .write)
    (running : (run c (n + 1)).point ≠ .overrun) (fails : c.writes (run c n).calls (run c n).dwRetryLen = none)
    (positive : 0 < (run c n).dwRetryLen.toNat) (short : (run c n).dwRetryLen.toNat < 512) :
    (run c (n + 2)).point = .overrun := by
  have within : (run c n).dwRetryLen.toNat ≤ (run c n).lpBuffer.length := by
    by_contra beyond
    refine running ?_
    rw [run, step, point]
    show (writeStep c (run c n)).point = .overrun
    rw [writeStep, if_pos (Nat.lt_of_not_le beyond)]
  have next : run c (n + 1) =
      { run c n with dwRetryLen := (run c n).dwRetryLen - 512, calls := (run c n).calls + 1 } := by
    rw [run, step, point]
    show writeStep c (run c n) = _
    rw [writeStep, if_neg (Nat.not_lt.mpr within), fails]
    have positive : (0 : DWORD) < (run c n).dwRetryLen := BitVec.lt_def.mpr positive
    exact if_pos positive
  have buffer := (inv_run c n).buffer (by rw [point]; decide)
  have small := dwBufSize_lt c
  have beyond : (run c (n + 1)).lpBuffer.length < (run c (n + 1)).dwRetryLen.toNat := by
    rw [next]
    show (run c n).lpBuffer.length < ((run c n).dwRetryLen - 512).toNat
    rw [toNat_retry_wrapped short]
    omega
  have point' : (run c (n + 1)).point = .write := by rw [next]; exact point
  rw [run, step, point']
  show (writeStep c (run c (n + 1))).point = .overrun
  rw [writeStep, if_pos beyond]

/-- Unless the parts cannot be numbered, splitting goes right if and only if the part size is not
    rounded down to zero and no short write fails. -/
theorem splits_iff (fewer : ∀ n, (run c n).parts.length < 2 ^ 32) : Splits c ↔ Meets c := by
  constructor
  · intro splits
    refine ⟨fun zero => splits.divides 1 ?_, fun n point fails => ?_⟩
    · show (startStep c (run c 0)).point = .dividedByZero
      rw [startStep, if_pos zero]
    · by_contra neither
      obtain ⟨some, short⟩ := not_or.mp neither
      exact splits.withinBuffer (n + 2) (overrun_of_short_failure point (splits.withinBuffer (n + 1)) fails
        (Nat.pos_of_ne_zero some) (Nat.lt_of_not_le short))
  · intro meets
    refine ⟨fun n divided => ?_, fun n => (within_run meets n).1, fun n => ?_, fun n finished => ?_⟩
    · have here := (inv_run c n).here
      rw [State.AtPoint, divided] at here
      exact meets.size here
    · exact retries_end meets _ n (Nat.le_refl _)
    · exact isSplit_of_finished (fewer n) (inv_run c n) finished

end splits

def twoDisks : Config where
  source := [1, 2]
  size := 600
  reads := fun _ => true
  creates := fun _ => true
  writes := fun call dwLength => if call = 2 then some 1 else some dwLength

theorem splits_iff_twoDisks : Splits twoDisks ∧ (run twoDisks 8).point = .finished ∧
    (run twoDisks 8).parts = [(1, [1]), (2, [2])] := by
  have ended (n : Nat) : run twoDisks (8 + n) = run twoDisks 8 := by
    induction n with
    | zero => rfl
    | succ n ih =>
      rw [← Nat.add_assoc, run, ih]
      decide +kernel
  have fewer (n : Nat) : (run twoDisks n).parts.length < 2 ^ 32 := by
    by_cases early : n < 8
    · have all : ∀ n < 8, (run twoDisks n).parts.length < 2 ^ 32 := by decide +kernel
      exact all n early
    · obtain ⟨m, rfl⟩ := Nat.exists_eq_add_of_le (Nat.le_of_not_lt early)
      rw [ended]
      decide +kernel
  have meets : Meets twoDisks := by
    refine ⟨by decide, fun n _ fails => ?_⟩
    unfold twoDisks at fails
    dsimp only at fails
    split at fails
    · cases fails
    · cases fails
  exact ⟨(splits_iff fewer).mpr meets, by decide +kernel, by decide +kernel⟩

def fullDisk : Config where
  source := [1]
  size := 512
  reads := fun _ => true
  creates := fun _ => true
  writes := fun call dwLength => if call = 2 then none else some dwLength

/-- The length of one byte is tried again as 4294966785 bytes, and a part size below 512 is a zero to
    divide by. -/
theorem short_failure_overruns : (run fullDisk 4).dwRetryLen = 4294966785 ∧
    (run fullDisk 5).point = .overrun ∧
    (run { fullDisk with size := 511 } 1).point = .dividedByZero := by
  decide +kernel

end FileSplit
