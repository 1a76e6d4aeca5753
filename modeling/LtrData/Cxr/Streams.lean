import LtrData.Library.Cells
import LtrData.Library.XorAll
import Mathlib.Data.List.Forall2
import Mathlib.Data.List.GetD
import Mathlib.Data.Nat.Find

namespace Cxr.Streams

abbrev BYTE := BitVec 8

def BUFFER_SIZE : Nat := 4096

/-- An open handle with what is left to read, and its part of the buffer, which keeps what earlier
    rounds have read into it. -/
structure Stream where
  pipe : Bool
  unread : List BYTE
  slot : Cells BYTE

/-- ReadFile, with the length read and the number of pipe reads so far. That many bytes as `reads`
    says are in the pipe when it is read, and at its end the call fails with ERROR_BROKEN_PIPE. -/
def readFile (reads : Nat → Nat) (calls dwReadLen : Nat) (s : Stream) :
    Option (Nat × Nat × Stream) :=
  if s.pipe ∧ dwReadLen ≠ 0 ∧ s.unread = [] then none
  else
    let most := if s.pipe then min dwReadLen (reads calls) else dwReadLen
    let block := s.unread.take most
    some (block.length, if s.pipe then calls + 1 else calls,
      { s with unread := s.unread.drop most, slot := s.slot.write 0 block })

/-- One round of reads. The length that one of them returns is the length the next one asks for. -/
def readAll (reads : Nat → Nat) : Nat → Nat → List Stream → Option (Nat × Nat × List Stream)
  | calls, dwReadLen, [] => some (dwReadLen, calls, [])
  | calls, dwReadLen, s :: rest => do
    let (dwReadLen, calls, s) ← readFile reads calls dwReadLen s
    let (dwReadLen, calls, rest) ← readAll reads calls dwReadLen rest
    some (dwReadLen, calls, s :: rest)

def xorAt (streams : List Stream) (bytecount : Nat) : BYTE :=
  xorAll (streams.map fun s => s.slot bytecount)

/-- The loop of main, with what it writes to stdout. -/
def cxrLoop (reads : Nat → Nat) : Nat → Nat → Nat → List Stream → Option (List BYTE)
  | 0, _, _, _ => none
  | fuel + 1, calls, dwReadLen, streams =>
    match readAll reads calls dwReadLen streams with
    | none => some []
    | some (dwReadLen, calls, streams) =>
      if dwReadLen = 0 then some []
      else
        (cxrLoop reads fuel calls dwReadLen streams).map
          ((List.range dwReadLen).map (xorAt streams) ++ ·)

/-- main once the files are open. Without arguments it writes how it is used. -/
def main (reads : Nat → Nat) : List Stream → Option (List BYTE)
  | [] => none
  | first :: rest => cxrLoop reads (first.unread.length + 1) 0 BUFFER_SIZE (first :: rest)

def shortest (streams : List Stream) : Nat :=
  ((streams.map fun s => s.unread.length).min?).getD 0

def expectedAt (streams : List Stream) (k : Nat) : BYTE :=
  xorAll (streams.map fun s => s.unread.getD k 0)

def Right (reads : Nat → Nat) (streams : List Stream) : Prop :=
  main reads streams = some ((List.range (shortest streams)).map (expectedAt streams))

def SameShape (streams streams' : List Stream) : Prop :=
  List.Forall₂ (fun s s' => s'.pipe = s.pipe ∧ s'.unread.length = s.unread.length) streams streams'

/-- Every read of the pipe fills the buffer, up to the one that reaches the end of the shortest
    stream. -/
def Full (reads : Nat → Nat) (length : Nat) : Prop :=
  ∀ i, BUFFER_SIZE * i < length → BUFFER_SIZE ≤ reads i ∨ length ≤ BUFFER_SIZE * i + reads i

structure Taken (k : Nat) (s s' : Stream) : Prop where
  le : k ≤ s.unread.length
  pipe : s'.pipe = s.pipe
  unread : s'.unread = s.unread.drop k
  slot : ∀ i < k, s'.slot i = s.unread.getD i 0

def TakenAtLeast (n : Nat) (s s' : Stream) : Prop := ∃ k, n ≤ k ∧ Taken k s s'

section Rounds

variable {reads : Nat → Nat} {calls q n c : Nat} {s s' : Stream} {streams streams' : List Stream}

theorem readFile_spec (read : readFile reads calls q s = some (n, c, s')) :
    Taken n s s' ∧ n = min (if s.pipe then min q (reads calls) else q) s.unread.length ∧
      c = if s.pipe then calls + 1 else calls := by
  rw [readFile] at read
  split at read
  · cases read
  · cases read
    have length := List.length_take (i := if s.pipe then min q (reads calls) else q) (l := s.unread)
    refine ⟨⟨List.length_take_le' _ _, rfl, ?_, fun i below => ?_⟩, length, rfl⟩
    · dsimp only
      rw [length]
      rcases Nat.le_total (if s.pipe then min q (reads calls) else q) s.unread.length with le | le
      · rw [Nat.min_eq_left le]
      · rw [Nat.min_eq_right le, List.drop_length, List.drop_eq_nil_of_le le]
    · have inside : i < s.unread.length := by omega
      have bound : i < if s.pipe then min q (reads calls) else q := by omega
      simp [Cells.write, bound, inside]

theorem readAll_cons (reads : Nat → Nat) (calls q : Nat) (s : Stream) (rest : List Stream) :
    readAll reads calls q (s :: rest) = (readFile reads calls q s).bind fun first =>
      (readAll reads first.2.1 first.1 rest).map fun later =>
        (later.1, later.2.1, first.2.2 :: later.2.2) := by
  rw [readAll]
  rcases readFile reads calls q s with - | ⟨k, calls', s'⟩
  · rfl
  · rcases h : readAll reads calls' k rest with - | ⟨n, c, rest'⟩ <;> simp [h]

theorem readAll_cons_some {rest : List Stream}
    (read : readAll reads calls q (s :: rest) = some (n, c, streams')) :
    ∃ k calls' s' rest', readFile reads calls q s = some (k, calls', s') ∧
      readAll reads calls' k rest = some (n, c, rest') ∧ streams' = s' :: rest' := by
  rw [readAll_cons] at read
  rcases first : readFile reads calls q s with - | ⟨k, calls', s'⟩
  · rw [first] at read
    cases read
  · rw [first] at read
    rcases later : readAll reads calls' k rest with - | ⟨m, c', rest'⟩
    · simp [later] at read
    · simp only [Option.bind_some, later, Option.map_some, Option.some.injEq, Prod.mk.injEq] at read
      obtain ⟨rfl, rfl, rfl⟩ := read
      exact ⟨k, calls', s', rest', rfl, later, rfl⟩

theorem readAll_spec (read : readAll reads calls q streams = some (n, c, streams')) :
    n ≤ q ∧ List.Forall₂ (TakenAtLeast n) streams streams' := by
  induction streams generalizing calls q streams' with
  | nil =>
    cases read
    exact ⟨Nat.le_refl _, .nil⟩
  | cons s rest ih =>
    obtain ⟨k, calls', s', rest', first, later, rfl⟩ := readAll_cons_some read
    obtain ⟨taken, length, -⟩ := readFile_spec first
    have ⟨below, others⟩ := ih later
    have most : (if s.pipe then min q (reads calls) else q) ≤ q := by
      split
      · exact Nat.min_le_left _ _
      · exact Nat.le_refl _
    exact ⟨by omega, .cons ⟨k, below, taken⟩ others⟩

/-- Files of which the round has left something have all given what they were asked for. -/
theorem readAll_files (files : ∀ s ∈ streams, s.pipe = false)
    (read : readAll reads calls q streams = some (n, c, streams'))
    (left : ∀ s ∈ streams, n < s.unread.length) :
    n = q ∧ List.Forall₂ (Taken n) streams streams' ∧ c = calls := by
  induction streams generalizing calls q streams' with
  | nil =>
    cases read
    exact ⟨rfl, .nil, rfl⟩
  | cons s rest ih =>
    obtain ⟨k, calls', s', rest', first, later, rfl⟩ := readAll_cons_some read
    obtain ⟨taken, length, count⟩ := readFile_spec first
    rw [files s List.mem_cons_self] at length count
    obtain ⟨same, others, count'⟩ := ih (fun s mem => files s (List.mem_cons_of_mem _ mem)) later
      fun s mem => left s (List.mem_cons_of_mem _ mem)
    have some_ := left s List.mem_cons_self
    simp only [Bool.false_eq_true, if_false] at length count
    exact ⟨by omega, .cons (same ▸ taken) others, count'.trans count⟩

/-- So does a round whose first stream is the pipe. -/
theorem readAll_first (files : ∀ s ∈ streams.tail, s.pipe = false)
    (read : readAll reads calls q streams = some (n, c, streams'))
    (left : ∀ s ∈ streams, n < s.unread.length) : List.Forall₂ (Taken n) streams streams' := by
  rcases streams with - | ⟨s, rest⟩
  · cases read
    exact .nil
  · obtain ⟨k, calls', s', rest', first, later, rfl⟩ := readAll_cons_some read
    obtain ⟨same, others, -⟩ := readAll_files files later
      fun s mem => left s (List.mem_cons_of_mem _ mem)
    exact .cons (same ▸ (readFile_spec first).1) others

theorem readAll_full (one : (streams.map Stream.pipe).count true ≤ 1)
    (enough : q ≤ reads calls ∨ n < reads calls)
    (read : readAll reads calls q streams = some (n, c, streams'))
    (left : ∀ s ∈ streams, n < s.unread.length) :
    n = q ∧ List.Forall₂ (Taken n) streams streams' ∧
      c = calls + (streams.map Stream.pipe).count true := by
  induction streams generalizing calls q streams' with
  | nil =>
    cases read
    exact ⟨rfl, .nil, rfl⟩
  | cons s rest ih =>
    obtain ⟨k, calls', s', rest', first, later, rfl⟩ := readAll_cons_some read
    obtain ⟨taken, length, count⟩ := readFile_spec first
    have some_ := left s List.mem_cons_self
    have behind : ∀ s ∈ rest, n < s.unread.length := fun s mem => left s (List.mem_cons_of_mem _ mem)
    rw [List.map_cons] at one ⊢
    cases kind : s.pipe with
    | false =>
      rw [kind] at length count one
      simp only [Bool.false_eq_true, if_false] at length count
      rw [List.count_cons_of_ne (by decide)] at one ⊢
      subst count
      obtain ⟨same, others, count'⟩ := ih one (by omega) later behind
      exact ⟨by omega, .cons (same ▸ taken) others, count'⟩
    | true =>
      rw [kind] at length count one
      simp only [if_true] at length count
      rw [List.count_cons_self] at one ⊢
      have none_ : (rest.map Stream.pipe).count true = 0 := by omega
      have files : ∀ s ∈ rest, s.pipe = false := by
        intro s mem
        by_contra pipe
        rw [Bool.not_eq_false] at pipe
        exact List.count_eq_zero.mp none_ (List.mem_map.mpr ⟨s, mem, pipe⟩)
      obtain ⟨same, others, count'⟩ := readAll_files files later behind
      exact ⟨by omega, .cons (same ▸ taken) others, by omega⟩

theorem readFile_some (reads : Nat → Nat) (calls q : Nat) (some_ : s.unread ≠ []) :
    ∃ n c s', readFile reads calls q s = some (n, c, s') := by
  have open_ : ¬ (s.pipe ∧ q ≠ 0 ∧ s.unread = []) := fun ended => some_ ended.2.2
  rw [readFile, if_neg open_]
  exact ⟨_, _, _, rfl⟩

/-- While every stream has something left, so does the round give something. -/
theorem readAll_some (calls : Nat) (positive : ∀ i, 0 < reads i) (asked : 0 < q)
    (some_ : ∀ s ∈ streams, s.unread ≠ []) :
    ∃ n c streams', readAll reads calls q streams = some (n, c, streams') ∧ 0 < n := by
  induction streams generalizing calls q with
  | nil => exact ⟨q, calls, [], rfl, asked⟩
  | cons s rest ih =>
    have here := some_ s List.mem_cons_self
    obtain ⟨k, calls', s', first⟩ := readFile_some reads calls q here
    have length := (readFile_spec first).2.1
    have bound := List.length_pos_iff.mpr here
    have found := positive calls
    have given : 0 < k := by
      rw [length]
      split <;> omega
    obtain ⟨n, c, rest', later, most⟩ :=
      ih calls' given fun s mem => some_ s (List.mem_cons_of_mem _ mem)
    refine ⟨n, c, s' :: rest', ?_, most⟩
    rw [readAll_cons, first, Option.bind_some, later, Option.map_some]

/-- A round does not get past what a pipe in it has. -/
theorem readAll_pipe (pipe : ∃ s ∈ streams, s.pipe = true)
    (read : readAll reads calls q streams = some (n, c, streams')) : n ≤ reads calls := by
  induction streams generalizing calls q streams' with
  | nil =>
    obtain ⟨s, mem, -⟩ := pipe
    cases mem
  | cons s rest ih =>
    obtain ⟨k, calls', s', rest', first, later, rfl⟩ := readAll_cons_some read
    obtain ⟨-, length, count⟩ := readFile_spec first
    have below := (readAll_spec later).1
    cases kind : s.pipe with
    | false =>
      rw [kind] at count
      simp only [Bool.false_eq_true, if_false] at count
      obtain ⟨t, mem, other⟩ := pipe
      rcases List.mem_cons.mp mem with rfl | mem
      · rw [kind] at other
        cases other
      · rw [← count]
        exact ih ⟨t, mem, other⟩ later
    | true =>
      rw [kind, if_pos rfl] at length
      omega

end Rounds

theorem exists_right {α β : Type} {R : α → β → Prop} {xs : List α} {ys : List β}
    (related : List.Forall₂ R xs ys) {x : α} (mem : x ∈ xs) : ∃ y ∈ ys, R x y := by
  induction related with
  | nil => cases mem
  | cons head tail ih =>
    rcases List.mem_cons.mp mem with rfl | mem
    · exact ⟨_, List.mem_cons_self, head⟩
    · obtain ⟨y, found, same⟩ := ih mem
      exact ⟨y, List.mem_cons_of_mem _ found, same⟩

theorem exists_left {α β : Type} {R : α → β → Prop} {xs : List α} {ys : List β}
    (related : List.Forall₂ R xs ys) {y : β} (mem : y ∈ ys) : ∃ x ∈ xs, R x y := by
  induction related with
  | nil => cases mem
  | cons head tail ih =>
    rcases List.mem_cons.mp mem with rfl | mem
    · exact ⟨_, List.mem_cons_self, head⟩
    · obtain ⟨x, found, same⟩ := ih mem
      exact ⟨x, List.mem_cons_of_mem _ found, same⟩

/-- Every stream has been read up to the same position. -/
def Aligned (streams : List Stream) (p : Nat) (streams' : List Stream) : Prop :=
  List.Forall₂ (fun s s' => s'.pipe = s.pipe ∧ s'.unread = s.unread.drop p) streams streams'

section Alignment

variable {reads : Nat → Nat} {calls q n c p L : Nat} {streams now after : List Stream}

theorem aligned_start (streams : List Stream) : Aligned streams 0 streams := by
  induction streams with
  | nil => exact .nil
  | cons s rest ih => exact .cons ⟨rfl, rfl⟩ ih

theorem Aligned.step (aligned : Aligned streams p now) (taken : List.Forall₂ (Taken n) now after) :
    Aligned streams (p + n) after := by
  induction aligned generalizing after with
  | nil =>
    cases taken
    exact .nil
  | cons same rest ih =>
    cases taken with
    | cons first others =>
      refine .cons ⟨first.pipe.trans same.1, ?_⟩ (ih others)
      rw [first.unread, same.2, List.drop_drop]

theorem Aligned.left (aligned : Aligned streams p now) (most : ∀ s ∈ streams, L ≤ s.unread.length)
    (less : p + n < L) : ∀ s ∈ now, n < s.unread.length := by
  intro s' mem
  obtain ⟨s, found, -, unread⟩ := exists_left aligned mem
  have bound := most s found
  rw [unread, List.length_drop]
  omega

theorem Aligned.pipes (aligned : Aligned streams p now) :
    now.map Stream.pipe = streams.map Stream.pipe := by
  induction aligned with
  | nil => rfl
  | cons same rest ih => rw [List.map_cons, List.map_cons, same.1, ih]

theorem Aligned.tail (aligned : Aligned streams p now) (files : ∀ s ∈ streams.tail, s.pipe = false) :
    ∀ s ∈ now.tail, s.pipe = false := by
  cases aligned with
  | nil => exact fun s mem => absurd mem List.not_mem_nil
  | cons same rest =>
    intro s' mem
    obtain ⟨s, found, pipe, -⟩ := exists_left rest mem
    rw [pipe, files s found]

/-- What a round puts into the buffer are the bytes at the position it began at. -/
theorem Aligned.xorAt (aligned : Aligned streams p now)
    (taken : List.Forall₂ (TakenAtLeast n) now after) {i : Nat} (below : i < n) :
    xorAt after i = expectedAt streams (p + i) := by
  rw [Streams.xorAt, expectedAt]
  congr 1
  induction aligned generalizing after with
  | nil =>
    cases taken
    rfl
  | cons same rest ih =>
    cases taken with
    | cons first others =>
      obtain ⟨k, le, first⟩ := first
      rw [List.map_cons, List.map_cons, ih others, first.slot i (by omega), same.2]
      simp [List.getElem?_drop]

/-- A round ends no later than the shortest stream, and has read all of that if it ends with it. -/
theorem Aligned.round (aligned : Aligned streams p now) (least : ∃ s ∈ streams, s.unread.length = L)
    (inside : p ≤ L) (taken : List.Forall₂ (TakenAtLeast n) now after) :
    p + n ≤ L ∧ (p + n = L → ∃ s ∈ after, s.unread = []) := by
  obtain ⟨s, mem, length⟩ := least
  obtain ⟨s', mem', -, unread⟩ := exists_right aligned mem
  obtain ⟨s'', mem'', k, le, took⟩ := exists_right taken mem'
  have bound := took.le
  rw [unread, List.length_drop, length] at bound
  refine ⟨by omega, fun ended => ⟨s'', mem'', ?_⟩⟩
  rw [took.unread, unread, List.drop_drop]
  exact List.drop_eq_nil_of_le (by omega)

/-- Once a stream is at its end, nothing more is written. -/
theorem cxrLoop_ended (fuel : Nat) (ended : ∃ s ∈ now, s.unread = []) :
    cxrLoop reads (fuel + 1) calls q now = some [] := by
  rw [cxrLoop]
  rcases read : readAll reads calls q now with - | ⟨n, c, after⟩
  · rfl
  · obtain ⟨s, mem, empty⟩ := ended
    obtain ⟨s', -, k, le, took⟩ := exists_right (readAll_spec read).2 mem
    have bound := took.le
    rw [empty, List.length_nil] at bound
    exact if_pos (by omega)

/-- The output of a run whose rounds keep the streams aligned. -/
theorem cxrLoop_right {I : Nat → Nat → Nat → Prop} (most : ∀ s ∈ streams, L ≤ s.unread.length)
    (least : ∃ s ∈ streams, s.unread.length = L) (positive : ∀ i, 0 < reads i)
    (step : ∀ calls q p now n c after, Aligned streams p now → I calls q p →
      readAll reads calls q now = some (n, c, after) → p + n < L →
      List.Forall₂ (Taken n) now after ∧ I c n (p + n))
    {fuel : Nat} (aligned : Aligned streams p now) (inv : I calls q p) (asked : 0 < q)
    (inside : p ≤ L) (enough : L < p + fuel) :
    cxrLoop reads fuel calls q now = some ((List.range' p (L - p)).map (expectedAt streams)) := by
  induction fuel generalizing calls q p now with
  | zero => omega
  | succ fuel ih =>
    rcases Nat.eq_or_lt_of_le inside with last | before
    · obtain ⟨s, mem, length⟩ := least
      obtain ⟨s', mem', -, unread⟩ := exists_right aligned mem
      have empty : s'.unread = [] := by
        rw [unread]
        exact List.drop_eq_nil_of_le (by omega)
      rw [cxrLoop_ended fuel ⟨s', mem', empty⟩, last, Nat.sub_self]
      rfl
    · have some_ : ∀ s ∈ now, s.unread ≠ [] := by
        intro s mem
        exact List.length_pos_iff.mp (aligned.left most before s mem)
      obtain ⟨n, c, after, read, given⟩ := readAll_some calls positive asked some_
      have ⟨short, taken⟩ := readAll_spec read
      have ⟨within, ends⟩ := aligned.round least inside taken
      have block : (List.range n).map (Streams.xorAt after) =
          (List.range' p n).map (expectedAt streams) := by
        rw [List.range'_eq_map_range, List.map_map]
        apply List.map_congr_left
        intro i mem
        exact aligned.xorAt taken (List.mem_range.mp mem)
      have split : List.range' p (L - p) = List.range' p n ++ List.range' (p + n) (L - (p + n)) := by
        rw [show L - p = n + (L - (p + n)) by omega, ← List.range'_append_1]
      rw [cxrLoop, read]
      dsimp only
      rw [if_neg (Nat.ne_of_gt given), block, split, List.map_append]
      rcases Nat.eq_or_lt_of_le within with last | more
      · obtain ⟨rounds, rfl⟩ := Nat.exists_eq_add_of_lt (show 0 < fuel by omega)
        rw [Nat.zero_add, cxrLoop_ended rounds (ends last), last, Nat.sub_self]
        rfl
      · obtain ⟨took, kept⟩ := step calls q p now n c after aligned inv read more
        rw [ih (aligned.step took) kept given within (by omega)]
        rfl

end Alignment

theorem shortest_spec {streams : List Stream} (some_ : streams ≠ []) :
    (∀ s ∈ streams, shortest streams ≤ s.unread.length) ∧
      ∃ s ∈ streams, s.unread.length = shortest streams := by
  rcases least : (streams.map fun s => s.unread.length).min? with - | n
  · rw [List.min?_eq_none_iff, List.map_eq_nil_iff] at least
    exact absurd least some_
  · obtain ⟨mem, most⟩ := List.min?_eq_some_iff.mp least
    rw [shortest, least, Option.getD_some]
    exact ⟨fun s found => most _ (List.mem_map.mpr ⟨s, found, rfl⟩), List.mem_map.mp mem⟩

section Shapes

variable {reads : Nat → Nat} {streams : List Stream}

/-- With files only, or the pipe in front of them, every short read is the end of a stream. -/
theorem right_of_first (some_ : streams ≠ []) (positive : ∀ i, 0 < reads i)
    (files : ∀ s ∈ streams.tail, s.pipe = false) : Right reads streams := by
  obtain ⟨most, least⟩ := shortest_spec some_
  rcases streams with - | ⟨first, rest⟩
  · exact absurd rfl some_
  · have bound := most first List.mem_cons_self
    rw [Right, main, List.range_eq_range']
    refine cxrLoop_right (I := fun _ _ _ => True) most least positive ?_ (aligned_start _) trivial
      (by decide) (Nat.zero_le _) (by omega)
    intro calls q p now n c after aligned _ read more
    exact ⟨readAll_first (aligned.tail files) read (aligned.left most more), trivial⟩

/-- A round that starts at a full buffer, with a pipe somewhere among the streams. -/
theorem full_round {p L : Nat} {now after : List Stream} {calls n c : Nat}
    (pipe : (streams.map Stream.pipe).count true = 1)
    (most : ∀ s ∈ streams, L ≤ s.unread.length) (aligned : Aligned streams p now)
    (place : p = BUFFER_SIZE * calls)
    (full : BUFFER_SIZE ≤ reads calls ∨ L ≤ BUFFER_SIZE * calls + reads calls)
    (read : readAll reads calls BUFFER_SIZE now = some (n, c, after)) (more : p + n < L) :
    n = BUFFER_SIZE ∧ List.Forall₂ (Taken n) now after ∧ c = calls + 1 := by
  have count := congrArg (List.count true) aligned.pipes
  rw [pipe] at count
  rw [← count]
  exact readAll_full (Nat.le_of_eq count) (by omega) read (aligned.left most more)

theorem right_of_full (some_ : streams ≠ []) (positive : ∀ i, 0 < reads i)
    (pipe : (streams.map Stream.pipe).count true = 1) (full : Full reads (shortest streams)) :
    Right reads streams := by
  obtain ⟨most, least⟩ := shortest_spec some_
  rcases streams with - | ⟨first, rest⟩
  · exact absurd rfl some_
  · have bound := most first List.mem_cons_self
    rw [Right, main, List.range_eq_range']
    refine cxrLoop_right (I := fun calls q p => q = BUFFER_SIZE ∧ p = BUFFER_SIZE * calls) most least
      positive ?_ (aligned_start _) ⟨rfl, rfl⟩ (by decide) (Nat.zero_le _) (by omega)
    intro calls q p now n c after aligned inv read more
    obtain ⟨rfl, place⟩ := inv
    have reached := full calls (by omega)
    obtain ⟨size, taken, count⟩ := full_round pipe most aligned place reached read more
    refine ⟨taken, size, ?_⟩
    rw [count, size, place, Nat.mul_succ]

/-- Before the first read of the pipe that does not fill the buffer. -/
theorem run_to {L i d fuel calls : Nat} {now : List Stream} {out : List BYTE}
    (positive : ∀ i, 0 < reads i) (pipe : (streams.map Stream.pipe).count true = 1)
    (most : ∀ s ∈ streams, L ≤ s.unread.length) (inside : BUFFER_SIZE * i < L)
    (earlier : ∀ c < i, BUFFER_SIZE ≤ reads c ∨ L ≤ BUFFER_SIZE * c + reads c)
    (aligned : Aligned streams (BUFFER_SIZE * calls) now) (rounds : calls + d = i)
    (run : cxrLoop reads fuel calls BUFFER_SIZE now = some out) :
    ∃ front out' fuel' now', out = front ++ out' ∧ front.length = BUFFER_SIZE * d ∧
      cxrLoop reads fuel' i BUFFER_SIZE now' = some out' ∧
      Aligned streams (BUFFER_SIZE * i) now' := by
  induction d generalizing fuel calls now out with
  | zero =>
    subst rounds
    exact ⟨[], out, fuel, now, rfl, rfl, run, aligned⟩
  | succ d ih =>
    rcases fuel with - | fuel
    · cases run
    · have before : BUFFER_SIZE * calls + BUFFER_SIZE < L := by
        have reached : BUFFER_SIZE * (calls + 1) ≤ BUFFER_SIZE * i := Nat.mul_le_mul_left _ (by omega)
        rw [Nat.mul_succ] at reached
        omega
      have some_ : ∀ s ∈ now, s.unread ≠ [] := by
        intro s mem
        have left := aligned.left most before s mem
        exact List.length_pos_iff.mp (by omega)
      obtain ⟨n, c, after, read, given⟩ :=
        @readAll_some reads BUFFER_SIZE now calls positive (by decide) some_
      have short := (readAll_spec read).1
      obtain ⟨rfl, taken, rfl⟩ := full_round pipe most aligned rfl
        (earlier calls (by omega)) read (by omega)
      rw [cxrLoop, read] at run
      dsimp only at run
      rw [if_neg (Nat.ne_of_gt given)] at run
      obtain ⟨out', later, rfl⟩ := Option.map_eq_some_iff.mp run
      obtain ⟨front, rest, fuel', now', rfl, length, ends, aligned'⟩ :=
        ih (aligned.step taken) (by omega) later
      refine ⟨_, rest, fuel', now', (List.append_assoc _ _ _).symm, ?_, ends, aligned'⟩
      rw [List.length_append, List.length_map, List.length_range, length, Nat.mul_succ]
      omega

end Shapes

theorem cxrLoop_some {reads : Nat → Nat} {fuel calls q : Nat} {now : List Stream} {out : List BYTE}
    (run : cxrLoop reads (fuel + 1) calls q now = some out) :
    out = [] ∨ ∃ n c after out', readAll reads calls q now = some (n, c, after) ∧
      cxrLoop reads fuel c n after = some out' ∧ out = (List.range n).map (xorAt after) ++ out' := by
  rw [cxrLoop] at run
  rcases read : readAll reads calls q now with - | ⟨n, c, after⟩
  · rw [read] at run
    cases run
    exact Or.inl rfl
  · rw [read] at run
    dsimp only at run
    split at run
    · cases run
      exact Or.inl rfl
    · obtain ⟨out', later, rfl⟩ := Option.map_eq_some_iff.mp run
      exact Or.inr ⟨n, c, after, out', rfl, later, rfl⟩

theorem cxrLoop_zeros {reads : Nat → Nat} {fuel calls q : Nat} {now : List Stream} {out : List BYTE}
    (zeros : ∀ s ∈ now, ∀ b ∈ s.unread, b = 0) (run : cxrLoop reads fuel calls q now = some out) :
    ∀ b ∈ out, b = 0 := by
  induction fuel generalizing calls q now out with
  | zero => cases run
  | succ fuel ih =>
    rcases cxrLoop_some run with rfl | ⟨n, c, after, out', read, later, rfl⟩
    · exact fun b mem => absurd mem List.not_mem_nil
    · have taken := (readAll_spec read).2
      intro b mem
      rcases List.mem_append.mp mem with mem | mem
      · obtain ⟨i, below, rfl⟩ := List.mem_map.mp mem
        apply xorAll_zeros
        intro word found
        obtain ⟨s', mem', rfl⟩ := List.mem_map.mp found
        obtain ⟨s, mem, k, le, took⟩ := exists_left taken mem'
        have inside : i < s.unread.length := by
          have bound := took.le
          have less := List.mem_range.mp below
          omega
        rw [took.slot i (by have less := List.mem_range.mp below; omega),
          List.getD_eq_getElem _ _ inside]
        exact zeros s mem _ (List.getElem_mem inside)
      · refine ih (fun s' mem' b found => ?_) later b mem
        obtain ⟨s, mem, k, -, took⟩ := exists_left taken mem'
        rw [took.unread] at found
        exact zeros s mem b (List.mem_of_mem_drop found)

/-- Streams of the same lengths, all zero but for one byte of the first. -/
def marked (place : Nat) : List Stream → List Stream
  | [] => []
  | first :: rest =>
    { first with unread := (List.replicate first.unread.length 0).set place 1 } ::
      rest.map fun s => { s with unread := List.replicate s.unread.length 0 }

theorem marked_shape (place : Nat) (streams : List Stream) :
    SameShape streams (marked place streams) := by
  rcases streams with - | ⟨first, rest⟩
  · exact .nil
  · refine .cons ⟨rfl, by simp⟩ ?_
    rw [List.forall₂_map_right_iff, List.forall₂_same]
    exact fun s _ => ⟨rfl, List.length_replicate⟩

theorem marked_expectedAt {place : Nat} {first : Stream} {rest : List Stream}
    (inside : place < first.unread.length) : expectedAt (marked place (first :: rest)) place = 1 := by
  have zeros : xorAll ((rest.map fun s => { s with unread := List.replicate s.unread.length 0 }).map
      fun s => s.unread.getD place 0) = 0 := by
    apply xorAll_zeros
    intro word mem
    rw [List.map_map] at mem
    obtain ⟨s, -, rfl⟩ := List.mem_map.mp mem
    simp [List.getElem?_replicate]
    split <;> rfl
  rw [expectedAt, marked, List.map_cons, xorAll_cons, zeros, List.getD_eq_getElem _ _ (by simpa),
    List.getElem_set_self]
  rfl

theorem SameShape.pipes {streams streams' : List Stream} (same : SameShape streams streams') :
    streams'.map Stream.pipe = streams.map Stream.pipe := by
  induction same with
  | nil => rfl
  | cons head tail ih => rw [List.map_cons, List.map_cons, head.1, ih]

theorem SameShape.shortest {streams streams' : List Stream} (same : SameShape streams streams') :
    shortest streams' = shortest streams := by
  have lengths : (streams'.map fun s => s.unread.length) = streams.map fun s => s.unread.length := by
    induction same with
    | nil => rfl
    | cons head tail ih => rw [List.map_cons, List.map_cons, head.2, ih]
  rw [Streams.shortest, lengths, Streams.shortest]

/-- Once the first stream has been read beyond its marked byte, only zeros are left. -/
theorem after_zeros {reads : Nat → Nat} {first : Stream} {rest now after : List Stream}
    {i n c : Nat} (front : first.pipe = false) (short : reads i < BUFFER_SIZE)
    (before : BUFFER_SIZE * i + reads i < shortest (first :: rest))
    (aligned : Aligned (marked (BUFFER_SIZE * i + reads i) (first :: rest)) (BUFFER_SIZE * i) now)
    (read : readAll reads i BUFFER_SIZE now = some (n, c, after)) :
    ∀ s ∈ after, ∀ b ∈ s.unread, b = 0 := by
  have bound := (shortest_spec (List.cons_ne_nil first rest)).1 first List.mem_cons_self
  rcases now with - | ⟨s, tail⟩
  · cases aligned
  · cases aligned with
    | cons head others =>
      obtain ⟨k, calls', s', tail', given, later, rfl⟩ := readAll_cons_some read
      obtain ⟨taken, length, -⟩ := readFile_spec given
      have file : s.pipe = false := head.1.trans front
      rw [file, head.2] at length
      simp only [Bool.false_eq_true, if_false, List.length_drop, List.length_set,
        List.length_replicate] at length
      intro t mem b found
      rcases List.mem_cons.mp mem with rfl | mem
      · rw [taken.unread, head.2, List.drop_drop, List.drop_set_of_lt (by omega)] at found
        exact List.eq_of_mem_replicate (List.mem_of_mem_drop found)
      · obtain ⟨u, mem', j, -, took⟩ := exists_left (readAll_spec later).2 mem
        obtain ⟨v, mem'', -, unread⟩ := exists_left others mem'
        obtain ⟨w, -, rfl⟩ := List.mem_map.mp mem''
        rw [took.unread, unread] at found
        exact List.eq_of_mem_replicate (List.mem_of_mem_drop (List.mem_of_mem_drop found))

/-- A short read in the middle puts the streams before the pipe ahead of it, and the marked byte
    is skipped. -/
theorem not_right_marked {reads : Nat → Nat} {first : Stream} {rest : List Stream} {i : Nat}
    (positive : ∀ i, 0 < reads i) (front : first.pipe = false)
    (pipe : ((first :: rest).map Stream.pipe).count true = 1)
    (earlier : ∀ c < i, BUFFER_SIZE ≤ reads c ∨
      shortest (first :: rest) ≤ BUFFER_SIZE * c + reads c)
    (short : reads i < BUFFER_SIZE)
    (before : BUFFER_SIZE * i + reads i < shortest (first :: rest)) :
    ¬ Right reads (marked (BUFFER_SIZE * i + reads i) (first :: rest)) := by
  intro right
  have shape := marked_shape (BUFFER_SIZE * i + reads i) (first :: rest)
  have same := shape.shortest
  have pipes := congrArg (List.count true) shape.pipes
  rw [pipe] at pipes
  have value : expectedAt (marked (BUFFER_SIZE * i + reads i) (first :: rest))
      (BUFFER_SIZE * i + reads i) = 1 := by
    have bound := (shortest_spec (List.cons_ne_nil first rest)).1 first List.mem_cons_self
    exact marked_expectedAt (by omega)
  have most := (shortest_spec
    (show marked (BUFFER_SIZE * i + reads i) (first :: rest) ≠ [] from List.cons_ne_nil _ _)).1
  rw [Right, same] at right
  rw [same] at most
  obtain ⟨prior, out', fuel', now, split, length, run, aligned⟩ :=
    run_to positive pipes most (by omega) earlier (aligned_start _) (Nat.zero_add i) right
  have found : out'[reads i]? = some 1 := by
    have whole := congrArg (fun out => out[BUFFER_SIZE * i + reads i]?) split
    rw [List.getElem?_append_right (by omega), length, Nat.add_sub_cancel_left] at whole
    rw [← whole, List.getElem?_map, List.getElem?_range before, Option.map_some, value]
  rcases fuel' with - | fuel'
  · cases run
  rcases cxrLoop_some run with rfl | ⟨n, c, after, out'', read, later, rfl⟩
  · cases found
  · have count := congrArg (List.count true) aligned.pipes
    rw [pipes] at count
    have some_ : 0 < (now.map Stream.pipe).count true := by omega
    obtain ⟨s, mem, kind⟩ := List.mem_map.mp (List.count_pos_iff.mp some_)
    have bound := readAll_pipe ⟨s, mem, kind⟩ read
    have zeros := after_zeros front short before aligned read
    rw [List.getElem?_append_right (by simpa using bound)] at found
    have zero := cxrLoop_zeros zeros later 1 (List.mem_of_getElem? found)
    exact absurd zero (by decide)

/-- main is right on all contents of a shape exactly when no pipe stands behind another stream or
    the reads of the pipe are full. -/
theorem streams_right_iff {reads : Nat → Nat} {streams : List Stream} (some_ : streams ≠ [])
    (one : (streams.map Stream.pipe).count true ≤ 1) (positive : ∀ i, 0 < reads i) :
    (∀ streams', SameShape streams streams' → Right reads streams') ↔
      (∀ s ∈ streams.tail, s.pipe = false) ∨ Full reads (shortest streams) := by
  constructor
  · intro right
    by_contra other
    rw [not_or] at other
    rcases streams with - | ⟨first, rest⟩
    · exact some_ rfl
    have within : true ∈ rest.map Stream.pipe := by
      by_contra absent
      apply other.1
      intro s mem
      by_contra kind
      rw [Bool.not_eq_false] at kind
      exact absent (List.mem_map.mpr ⟨s, mem, kind⟩)
    have later := List.count_pos_iff.mpr within
    have front : first.pipe = false := by
      by_contra kind
      rw [Bool.not_eq_false] at kind
      rw [List.map_cons, kind, List.count_cons_self] at one
      omega
    have pipe : ((first :: rest).map Stream.pipe).count true = 1 := by
      rw [List.map_cons, front, List.count_cons_of_ne (by decide)] at one ⊢
      omega
    have failing : ∃ i, reads i < BUFFER_SIZE ∧
        BUFFER_SIZE * i + reads i < shortest (first :: rest) := by
      by_contra none_
      apply other.2
      intro i inside
      by_contra neither
      exact none_ ⟨i, by omega, by omega⟩
    have ⟨short, before⟩ := Nat.find_spec failing
    refine not_right_marked positive front pipe (fun c earlier => ?_) short before
      (right _ (marked_shape _ _))
    have full := Nat.find_min failing earlier
    omega
  · intro condition streams' same
    have nonempty : streams' ≠ [] := by
      intro empty
      rw [empty] at same
      cases same
      exact some_ rfl
    have tails : streams'.tail.map Stream.pipe = streams.tail.map Stream.pipe := by
      rw [List.map_tail, List.map_tail, same.pipes]
    have count : (streams'.map Stream.pipe).count true = (streams.map Stream.pipe).count true :=
      congrArg _ same.pipes
    rcases condition with files | full
    · apply right_of_first nonempty positive
      intro s mem
      have kind : s.pipe ∈ streams.tail.map Stream.pipe := tails ▸ List.mem_map_of_mem mem
      obtain ⟨t, found, equal⟩ := List.mem_map.mp kind
      rw [← equal, files t found]
    · by_cases pipe : (streams'.map Stream.pipe).count true = 1
      · exact right_of_full nonempty positive pipe (same.shortest ▸ full)
      · apply right_of_first nonempty positive
        intro s mem
        by_contra kind
        rw [Bool.not_eq_false] at kind
        have found := List.count_pos_iff.mpr
          (List.mem_map.mpr ⟨s, List.mem_of_mem_tail mem, kind⟩)
        omega

theorem main_right_full : Right (fun _ => BUFFER_SIZE)
    [⟨false, [1, 2], fun _ => 0⟩, ⟨true, [3, 4, 5], fun _ => 0⟩] :=
  (streams_right_iff (List.cons_ne_nil _ _) (by decide) (fun _ => by decide)).mpr
    (Or.inr fun _ _ => Or.inl (Nat.le_refl _)) _ (List.forall₂_same.mpr fun _ _ => ⟨rfl, rfl⟩)

/-- The second byte of the file is lost when the first read of the pipe returns one byte. -/
theorem main_skips : ¬ Right (fun _ => 1)
    [⟨false, [1, 2], fun _ => 0⟩, ⟨true, [3, 4, 5], fun _ => 0⟩] := by
  intro right
  exact absurd (show main _ _ = some [2, 6] from right) (by decide)

end Cxr.Streams
