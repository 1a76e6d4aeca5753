import LtrData.Library.Replacements
import Mathlib.Algebra.Group.Nat.Defs

namespace Reptxt32

open Occurrences

abbrev BYTE := BitVec 8

abbrev DWORD := BitVec 32

def MAX_COMPARE_LENGTH : Nat := 260

/-- What main passes to process: the file is at least as long as the text, which is not empty, and
    the replacement is as long as the text. -/
structure Job where
  content : List BYTE
  cmpstr : List BYTE
  newstr : List BYTE
  some_ : cmpstr ≠ []
  fits : cmpstr.length < MAX_COMPARE_LENGTH
  same : newstr.length = cmpstr.length
  long : cmpstr.length ≤ content.length

/-- The mapped file and the variables of the loop. -/
structure Scan where
  buffer : List BYTE
  now : DWORD
  occur : DWORD

namespace Job

/-- GetFileSize returns the low half of the size. -/
def stoppos (j : Job) : DWORD := BitVec.ofNat 32 j.content.length - BitVec.ofNat 32 j.cmpstr.length

def pass (j : Job) (s : Scan) : Scan :=
  if (s.buffer.drop s.now.toNat).take j.cmpstr.length = j.cmpstr then
    { buffer := overwrite s.buffer s.now.toNat j.newstr, now := s.now + 1, occur := s.occur + 1 }
  else { s with now := s.now + 1 }

def processLoop (j : Job) : Nat → Scan → Option Scan
  | 0, _ => none
  | fuel + 1, s => if s.now ≤ j.stoppos then j.processLoop fuel (j.pass s) else some s

def process (j : Job) (fuel : Nat) : Option Scan := j.processLoop fuel ⟨j.content, 0, 0⟩

/-- process returns with all occurrences in the original file replaced, and with their number. -/
def Replaces (j : Job) : Prop :=
  ∃ fuel s, j.process fuel = some s ∧ s.buffer = replaceAll j.cmpstr j.newstr j.content ∧
    s.occur.toNat = (occurrences j.cmpstr j.content).length

/-- The loop gets to every occurrence, and behind none of them the replacement makes a new one, with
    what follows in the file, before the place where the next one may start. -/
def Undisturbed (j : Job) : Prop :=
  ∀ o ∈ occurrences j.cmpstr j.content, o ≤ j.stoppos.toNat ∧
    ∀ d, 0 < d → d < j.cmpstr.length → o + d ≤ j.stoppos.toNat →
      ¬ j.cmpstr <+: (j.newstr ++ j.content.drop (o + j.cmpstr.length)).drop d

/-- Up to stoppos the text starts at as many places as there are occurrences that do not overlap. -/
def Counted (j : Job) : Prop :=
  ((List.range (j.stoppos.toNat + 1)).countP fun p => j.cmpstr <+: j.content.drop p) =
    (occurrences j.cmpstr j.content).length

def Exact (j : Job) : Prop :=
  j.stoppos.toNat ≠ 2 ^ 32 - 1 ∧ if j.newstr = j.cmpstr then j.Counted else j.Undisturbed

end Job

/-- The places where `passes` passes from `now` on replace something. -/
def hits (cmpstr newstr : List BYTE) : Nat → Nat → List BYTE → List Nat
  | 0, _, _ => []
  | passes + 1, now, buffer =>
    if cmpstr <+: buffer.drop now then
      now :: hits cmpstr newstr passes (now + 1) (overwrite buffer now newstr)
    else hits cmpstr newstr passes (now + 1) buffer

section hits

variable {cmpstr newstr buffer content : List BYTE} {passes now stop k : Nat}

theorem hits_step (inside : now < stop) : hits cmpstr newstr (stop - now) now buffer =
    if cmpstr <+: buffer.drop now then
      now :: hits cmpstr newstr (stop - (now + 1)) (now + 1) (overwrite buffer now newstr)
    else hits cmpstr newstr (stop - (now + 1)) (now + 1) buffer := by
  have length : stop - now = stop - (now + 1) + 1 := by omega
  rw [length, hits]

theorem hits_end (outside : stop ≤ now) : hits cmpstr newstr (stop - now) now buffer = [] := by
  rw [Nat.sub_eq_zero_of_le outside, hits]

theorem hits_skip (absent : ∀ d < k, now + d < stop → ¬ cmpstr <+: buffer.drop (now + d)) :
    hits cmpstr newstr (stop - now) now buffer =
      hits cmpstr newstr (stop - (now + k)) (now + k) buffer := by
  induction k with
  | zero => rfl
  | succ k ih =>
    rw [ih fun d less => absent d (by omega)]
    by_cases inside : now + k < stop
    · rw [hits_step inside, if_neg (absent k (Nat.lt_succ_self k) inside), Nat.add_assoc]
    · rw [hits_end (by omega), hits_end (by omega)]

theorem hits_self (now : Nat) (buffer : List BYTE) :
    (hits cmpstr cmpstr passes now buffer).length =
      (List.range' now passes).countP fun p => cmpstr <+: buffer.drop p := by
  induction passes generalizing now with
  | zero => rfl
  | succ passes ih =>
    rw [hits, List.range'_succ]
    split
    · next found =>
      rw [List.length_cons, overwrite_self found, ih, List.countP_cons_of_pos (by simpa using found)]
    · next absent => rw [ih, List.countP_cons_of_neg (by simpa using absent)]

theorem hits_behind (behind : stop ≤ now) :
    hits cmpstr newstr (stop - now) now buffer = occurrencesFrom cmpstr 0 now content ↔
      ∀ o ∈ occurrencesFrom cmpstr 0 now content, o < stop := by
  rw [hits_end behind]
  constructor
  · intro empty
    rw [← empty]
    simp
  · intro all
    rw [eq_comm, List.eq_nil_iff_forall_not_mem]
    intro o mem
    have later := le_of_mem_occurrencesFrom mem
    have early := all o mem
    omega

/-- The first occurrence that a replacement makes is replaced, too. -/
theorem hits_made {rest : List BYTE} (behind : ∀ d, buffer.drop (now + d) = rest.drop d)
    (made : ∃ d, 0 < d ∧ d < k ∧ now + d < stop ∧ cmpstr <+: rest.drop d) :
    hits cmpstr newstr (stop - (now + 1)) (now + 1) buffer ≠
      occurrencesFrom cmpstr 0 (now + k) content := by
  intro tail
  obtain ⟨least, shorter, reached, found⟩ := Nat.find_spec made
  have absent : ∀ d < Nat.find made - 1, now + 1 + d < stop → ¬ cmpstr <+: buffer.drop (now + 1 + d) := by
    intro d less reached' found'
    rw [Nat.add_assoc, behind] at found'
    exact Nat.find_min made (show 1 + d < Nat.find made by omega) ⟨by omega, by omega, by omega, found'⟩
  have position : now + 1 + (Nat.find made - 1) = now + Nat.find made := by omega
  rw [hits_skip absent, position, hits_step reached, behind, if_pos found] at tail
  have mem : now + Nat.find made ∈ occurrencesFrom cmpstr 0 (now + k) content := by
    rw [← tail]
    exact List.mem_cons_self
  have later := le_of_mem_occurrencesFrom mem
  omega

/-- The loop replaces the leftmost occurrences and no others if it gets to them and finds none that
    a replacement has made. -/
theorem hits_eq_iff (some_ : cmpstr ≠ []) (same : newstr.length = cmpstr.length)
    (inside : ∀ p < stop, p + cmpstr.length ≤ content.length)
    (rest : buffer.drop now = content.drop now) (length : buffer.length = content.length) :
    hits cmpstr newstr (stop - now) now buffer = occurrencesFrom cmpstr 0 now (content.drop now) ↔
      ∀ o ∈ occurrencesFrom cmpstr 0 now (content.drop now), o < stop ∧
        ∀ d, 0 < d → d < cmpstr.length → o + d < stop →
          ¬ cmpstr <+: (newstr ++ content.drop (o + cmpstr.length)).drop d := by
  generalize left : stop - now = n
  induction n using Nat.strongRecOn generalizing now buffer with
  | ind n ih =>
    rw [← left]
    by_cases before : now < stop
    swap
    · rw [hits_behind (Nat.not_lt.mp before)]
      constructor
      · intro all o mem
        have later := le_of_mem_occurrencesFrom mem
        have early := all o mem
        omega
      · intro all o mem
        exact (all o mem).1
    have positive : 0 < cmpstr.length := List.length_pos_iff.mpr some_
    have room := inside now before
    rw [hits_step before, rest]
    by_cases here : cmpstr <+: content.drop now
    swap
    · rw [if_neg here, occurrencesFrom_absent (by omega) here]
      refine ih (stop - (now + 1)) (by omega) ?_ length rfl
      rw [← List.drop_drop, rest, List.drop_drop]
    have behind (d : Nat) : (overwrite buffer now newstr).drop (now + d) =
        (newstr ++ content.drop (now + cmpstr.length)).drop d := by
      rw [drop_overwrite (by omega), ← List.drop_drop (l := buffer), rest, List.drop_drop, same]
    rw [if_pos here, occurrencesFrom_here some_ here, List.drop_drop, List.forall_mem_cons,
      List.cons_eq_cons]
    by_cases made : ∃ d, 0 < d ∧ d < cmpstr.length ∧ now + d < stop ∧
        cmpstr <+: (newstr ++ content.drop (now + cmpstr.length)).drop d
    · constructor
      · intro equal
        exact absurd equal.2 (hits_made behind made)
      · intro all
        obtain ⟨d, least, shorter, reached, found⟩ := made
        exact absurd found (all.1.2 d least shorter reached)
    · have absent : ∀ d < cmpstr.length - 1, now + 1 + d < stop →
          ¬ cmpstr <+: (overwrite buffer now newstr).drop (now + 1 + d) := by
        intro d less reached found
        rw [Nat.add_assoc, behind] at found
        exact made ⟨1 + d, by omega, by omega, by omega, found⟩
      have position : now + 1 + (cmpstr.length - 1) = now + cmpstr.length := by omega
      have left' : (overwrite buffer now newstr).drop (now + cmpstr.length) =
          content.drop (now + cmpstr.length) := by
        rw [behind, ← same, List.drop_left]
      have later := ih (stop - (now + cmpstr.length)) (by omega) left'
        (by rw [length_overwrite (by omega), length]) rfl
      rw [hits_skip absent, position, later]
      constructor
      · intro all
        exact ⟨⟨before, fun d least shorter reached found =>
          made ⟨d, least, shorter, reached, found⟩⟩, all.2⟩
      · intro all
        exact ⟨rfl, all.2⟩

end hits

section process

variable {j : Job} {s : Scan}

theorem stoppos_inside (j : Job) : j.stoppos.toNat + j.cmpstr.length ≤ j.content.length := by
  have fits := j.fits
  have long := j.long
  unfold MAX_COMPARE_LENGTH at fits
  rw [Job.stoppos, BitVec.toNat_sub, BitVec.toNat_ofNat, BitVec.toNat_ofNat]
  omega

theorem pass_eq (j : Job) (s : Scan) : j.pass s = if j.cmpstr <+: s.buffer.drop s.now.toNat then
    ⟨overwrite s.buffer s.now.toNat j.newstr, s.now + 1, s.occur + 1⟩
    else ⟨s.buffer, s.now + 1, s.occur⟩ := by
  unfold Job.pass
  by_cases found : j.cmpstr <+: s.buffer.drop s.now.toNat
  · rw [if_pos found, if_pos (List.prefix_iff_eq_take.mp found).symm]
  · rw [if_neg found, if_neg fun equal => found (List.prefix_iff_eq_take.mpr equal.symm)]

theorem toNat_succ {x : DWORD} (less : x.toNat + 1 < 2 ^ 32) : (x + 1).toNat = x.toNat + 1 := by
  rw [BitVec.toNat_add]
  exact Nat.mod_eq_of_lt less

/-- The loop ends behind stoppos with the replacements of its passes, and counts them. -/
theorem processLoop_hits (passes : Nat) (last : s.now.toNat + passes = j.stoppos.toNat + 1)
    (bounded : j.stoppos.toNat + 1 < 2 ^ 32) (counts : s.occur.toNat + passes < 2 ^ 32) :
    ∃ s', j.processLoop (passes + 1) s = some s' ∧
      Replaced j.cmpstr j.newstr s.now.toNat (hits j.cmpstr j.newstr passes s.now.toNat s.buffer)
        s.buffer s'.buffer ∧
      s'.occur.toNat =
        s.occur.toNat + (hits j.cmpstr j.newstr passes s.now.toNat s.buffer).length := by
  induction passes generalizing s with
  | zero =>
    have beyond : ¬ s.now ≤ j.stoppos := by
      rw [BitVec.le_def]
      omega
    exact ⟨s, if_neg beyond, .done, rfl⟩
  | succ passes ih =>
    have within : s.now ≤ j.stoppos := by
      rw [BitVec.le_def]
      omega
    have now : (s.now + 1).toNat = s.now.toNat + 1 := toNat_succ (by omega)
    rw [Job.processLoop, if_pos within, pass_eq, hits]
    by_cases found : j.cmpstr <+: s.buffer.drop s.now.toNat
    · have occur : (s.occur + 1).toNat = s.occur.toNat + 1 := toNat_succ (by omega)
      have next := ih (s := ⟨overwrite s.buffer s.now.toNat j.newstr, s.now + 1, s.occur + 1⟩)
      dsimp only at next
      rw [now, occur] at next
      obtain ⟨s', loop, replaced, count⟩ := next (by omega) (by omega)
      rw [if_pos found, if_pos found, List.length_cons]
      exact ⟨s', loop, .here (Nat.le_refl _) found replaced, by omega⟩
    · have next := ih (s := ⟨s.buffer, s.now + 1, s.occur⟩)
      dsimp only at next
      rw [now] at next
      obtain ⟨s', loop, replaced, count⟩ := next (by omega) (by omega)
      rw [if_neg found, if_neg found]
      exact ⟨s', loop, replaced.weaken (Nat.le_succ _), count⟩

/-- Where every position is up to stoppos, the loop does not end. -/
theorem processLoop_forever (all : j.stoppos.toNat = 2 ^ 32 - 1) (fuel : Nat) (s : Scan) :
    j.processLoop fuel s = none := by
  induction fuel generalizing s with
  | zero => rfl
  | succ fuel ih =>
    have within : s.now ≤ j.stoppos := by
      rw [BitVec.le_def]
      have small := s.now.isLt
      omega
    rw [Job.processLoop, if_pos within, ih]

theorem processLoop_more {fuel : Nat} {s' : Scan} (ends : j.processLoop fuel s = some s')
    (extra : Nat) : j.processLoop (fuel + extra) s = some s' := by
  induction fuel generalizing s with
  | zero => cases ends
  | succ fuel ih =>
    rw [Nat.add_right_comm, Job.processLoop]
    rw [Job.processLoop] at ends
    split
    · next within =>
      rw [if_pos within] at ends
      exact ih ends
    · next beyond =>
      rw [if_neg beyond] at ends
      exact ends

theorem process_unique {fuel fuel' : Nat} {s s' : Scan} (ends : j.process fuel = some s)
    (ends' : j.process fuel' = some s') : s = s' := by
  have first := processLoop_more ends fuel'
  have second := processLoop_more ends' fuel
  rw [Nat.add_comm fuel' fuel, first] at second
  exact Option.some.inj second

def Job.places (j : Job) : List Nat := hits j.cmpstr j.newstr (j.stoppos.toNat + 1) 0 j.content

theorem places_eq_iff (j : Job) :
    j.places = occurrences j.cmpstr j.content ↔ j.Undisturbed := by
  have room := stoppos_inside j
  have inside : ∀ p < j.stoppos.toNat + 1, p + j.cmpstr.length ≤ j.content.length := by
    intro p less
    omega
  have whole : j.content.drop 0 = j.content.drop 0 := rfl
  have equal := hits_eq_iff j.some_ j.same inside whole rfl
  simp only [Nat.sub_zero, List.drop_zero, Nat.lt_succ_iff] at equal
  exact equal

theorem replaced_occurrences (j : Job) : Replaced j.cmpstr j.newstr 0
    (occurrences j.cmpstr j.content) j.content (replaceAll j.cmpstr j.newstr j.content) := by
  have replaced := replaced_replaceAll j.some_ j.same (Nat.zero_le j.content.length)
  simp only [List.drop_zero, List.take_zero, List.nil_append] at replaced
  exact replaced

theorem length_places_self (self : j.newstr = j.cmpstr) : j.places.length =
    (List.range (j.stoppos.toNat + 1)).countP fun p => j.cmpstr <+: j.content.drop p := by
  rw [Job.places, self, hits_self, List.range_eq_range']

/-- process does what it should do if and only if the end position is no maximal DWORD and the loop
    meets the occurrences of the original file one by one. -/
theorem replaces_iff (j : Job) : j.Replaces ↔ j.Exact := by
  by_cases all : j.stoppos.toNat = 2 ^ 32 - 1
  · constructor
    · intro replaces
      obtain ⟨fuel, s, ends, _⟩ := replaces
      rw [Job.process, processLoop_forever all] at ends
      cases ends
    · intro exact_
      exact absurd all exact_.1
  have small := j.stoppos.isLt
  have bounded : 0 + (j.stoppos.toNat + 1) < 2 ^ 32 := by omega
  obtain ⟨s', ends, replaced, count⟩ := processLoop_hits (j := j) (s := ⟨j.content, 0, 0⟩)
    (j.stoppos.toNat + 1) (Nat.zero_add _) (by omega) bounded
  have reference := replaced_occurrences j
  have counted : s'.occur.toNat = j.places.length := by
    rw [count]
    exact Nat.zero_add _
  have outcome : j.Replaces ↔ s'.buffer = replaceAll j.cmpstr j.newstr j.content ∧
      j.places.length = (occurrences j.cmpstr j.content).length := by
    constructor
    · intro replaces
      obtain ⟨fuel, s, ends', buffer, number⟩ := replaces
      obtain rfl := process_unique ends' ends
      exact ⟨buffer, counted.symm.trans number⟩
    · intro both
      exact ⟨_, s', ends, both.1, counted.trans both.2⟩
  rw [outcome, Job.Exact]
  by_cases self : j.newstr = j.cmpstr
  · rw [if_pos self, length_places_self self]
    rw [self] at replaced reference
    constructor
    · intro both
      exact ⟨all, both.2⟩
    · intro both
      exact ⟨by rw [replaced.self, self, reference.self], both.2⟩
  · rw [if_neg self, ← places_eq_iff]
    constructor
    · intro both
      rw [← both.1] at reference
      exact ⟨all, replaced.unique j.some_ j.same self reference⟩
    · intro both
      have same := both.2
      refine ⟨?_, by rw [same]⟩
      rw [← same] at reference
      exact replaced.functional reference

end process

/-- The replacement makes an occurrence with what follows it. -/
def madeTwice : Job where
  content := [97, 97, 97]
  cmpstr := [97, 97]
  newstr := [98, 97]
  some_ := by decide
  fits := by decide
  same := rfl
  long := by decide

theorem replaces_made : ¬ madeTwice.Replaces := by
  intro replaces
  obtain ⟨fuel, s, ends, buffer, _⟩ := replaces
  have result : madeTwice.process 4 = some ⟨[98, 98, 97], 2, 2⟩ := by rfl
  rw [process_unique ends result] at buffer
  revert buffer
  decide

end Reptxt32
