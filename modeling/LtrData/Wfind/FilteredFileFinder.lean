import Mathlib.Algebra.Group.Nat.Defs
import Mathlib.Data.List.Basic

namespace Wfind

abbrev DWORD := BitVec 32
abbrev QWORD := BitVec 64

def MAXDWORD : DWORD := 0xffffffff

structure FILETIME where
  dwLowDateTime : DWORD
  dwHighDateTime : DWORD
deriving DecidableEq

def FILETIME.qword (time : FILETIME) : QWORD := time.dwHighDateTime ++ time.dwLowDateTime

structure WIN32_FIND_DATA where
  dwFileAttributes : DWORD
  ftCreationTime : FILETIME
  ftLastAccessTime : FILETIME
  ftLastWriteTime : FILETIME
  nFileSizeHigh : DWORD
  nFileSizeLow : DWORD
  cFileName : List Char
deriving DecidableEq

def WIN32_FIND_DATA.GetFile64BitSize (data : WIN32_FIND_DATA) : QWORD :=
  data.nFileSizeHigh.setWidth 64 * MAXDWORD.setWidth 64 + data.nFileSizeLow.setWidth 64

/-- A search: the data of the entry found last and, for an open handle, the entries still to come. -/
structure WFileFinder where
  data : WIN32_FIND_DATA
  hFind : Option (List WIN32_FIND_DATA)
deriving DecidableEq

def FindFirstFile : List WIN32_FIND_DATA → WIN32_FIND_DATA → WFileFinder
  | [], data => ⟨data, none⟩
  | entry :: rest, _ => ⟨entry, some rest⟩

def WFileFinder.Next (finder : WFileFinder) : Bool × WFileFinder :=
  match finder.hFind with
  | some (entry :: rest) => (true, ⟨entry, some rest⟩)
  | _ => (false, finder)

structure Filters where
  dwFileAttrMask : DWORD
  dwFileAttrRequired : DWORD
  qwMinSize : QWORD
  qwMaxSize : QWORD
  ftLastWriteTime1 : QWORD
  ftLastWriteTime2 : QWORD
  ftLastAccessTime1 : QWORD
  ftLastAccessTime2 : QWORD
  ftCreationTime1 : QWORD
  ftCreationTime2 : QWORD

/-- The conditions of Filter but for those on the size. -/
def Filters.others (filters : Filters) (data : WIN32_FIND_DATA) : Bool :=
  data.dwFileAttributes &&& filters.dwFileAttrMask = 0 &&
    ~~~data.dwFileAttributes &&& filters.dwFileAttrRequired = 0 &&
    filters.ftCreationTime1 ≤ data.ftCreationTime.qword &&
    data.ftCreationTime.qword ≤ filters.ftCreationTime2 &&
    filters.ftLastAccessTime1 ≤ data.ftLastAccessTime.qword &&
    data.ftLastAccessTime.qword ≤ filters.ftLastAccessTime2 &&
    filters.ftLastWriteTime1 ≤ data.ftLastWriteTime.qword &&
    data.ftLastWriteTime.qword ≤ filters.ftLastWriteTime2

def Filters.passes (filters : Filters) (data : WIN32_FIND_DATA) : Bool :=
  filters.others data && filters.qwMinSize ≤ data.GetFile64BitSize &&
    data.GetFile64BitSize ≤ filters.qwMaxSize

structure WFilteredFileFinder extends WFileFinder, Filters

namespace WFilteredFileFinder

def coming (finder : WFilteredFileFinder) : List WIN32_FIND_DATA := finder.hFind.getD []

/-- WFileFinder's Next leaves the filters as they are. -/
def step (finder : WFilteredFileFinder) : Bool × WFilteredFileFinder :=
  (finder.toWFileFinder.Next.1, { finder with toWFileFinder := finder.toWFileFinder.Next.2 })

theorem step_none {finder : WFilteredFileFinder} (last : finder.coming = []) :
    finder.step = (false, finder) := by
  rw [step, WFileFinder.Next]
  rw [coming] at last
  rcases handle : finder.hFind with - | - | ⟨entry, rest⟩
  · rfl
  · rfl
  · rw [handle] at last
    cases last

theorem step_some {finder : WFilteredFileFinder} {entry : WIN32_FIND_DATA}
    {rest : List WIN32_FIND_DATA} (next : finder.coming = entry :: rest) :
    finder.step = (true, { finder with data := entry, hFind := some rest }) := by
  rw [step, WFileFinder.Next]
  rw [coming] at next
  rcases handle : finder.hFind with - | entries
  · rw [handle] at next
    cases next
  · rw [handle] at next
    cases next
    rfl

theorem step_shorter {finder next : WFilteredFileFinder} (run : finder.step = (true, next)) :
    next.coming.length < finder.coming.length := by
  rcases entries : finder.coming with - | ⟨entry, rest⟩
  · rw [step_none entries] at run
    cases run
  · rw [step_some entries] at run
    cases run
    exact Nat.lt_succ_self _

def Filter (finder : WFilteredFileFinder) : Bool × WFilteredFileFinder :=
  if finder.passes finder.data then (true, finder)
  else
    -- find next if this didn't match
    match _run : finder.step with
    | (false, finder) => (false, finder)
    | (true, finder) => finder.Filter
termination_by finder.coming.length
decreasing_by exact step_shorter ‹_›

/-- What the constructor and operator= do once FindFirstFile has returned. -/
def start (finder : WFilteredFileFinder) : WFilteredFileFinder :=
  if finder.hFind = none then finder
  else
    match finder.Filter with
    | (true, finder) => finder
    -- closed, which is how a caller sees that nothing was found
    | (false, finder) => { finder with hFind := none }

/-- The constructor. -/
def construct (filters : Filters) (listing : List WIN32_FIND_DATA) (data : WIN32_FIND_DATA) :
    WFilteredFileFinder := start ⟨FindFirstFile listing data, filters⟩

/-- operator=. -/
def assign (finder : WFilteredFileFinder) (listing : List WIN32_FIND_DATA) : WFilteredFileFinder :=
  start { finder with toWFileFinder := FindFirstFile listing finder.data }

def Next (finder : WFilteredFileFinder) : Bool × WFilteredFileFinder :=
  match finder.step with
  | (false, finder) => (false, finder)
  | (true, finder) => finder.Filter

theorem Filter_true {finder after : WFilteredFileFinder} (run : finder.Filter = (true, after)) :
    after.toFilters = finder.toFilters ∧
      (finder.data :: finder.coming).filter finder.passes =
        after.data :: after.coming.filter finder.passes ∧
      after.coming.length ≤ finder.coming.length ∧
      (finder.hFind ≠ none → after.hFind ≠ none) := by
  induction finder using Filter.induct with
  | case1 finder passes =>
    rw [Filter, if_pos passes] at run
    cases run
    exact ⟨rfl, List.filter_cons_of_pos passes, Nat.le_refl _, id⟩
  | case2 finder fails last stopped =>
    rw [Filter, if_neg fails] at run
    split at run
    · cases run
    · next found =>
      rw [stopped] at found
      cases found
  | case3 finder fails next stepped ih =>
    rw [Filter, if_neg fails] at run
    split at run
    · cases run
    · next found =>
      rw [stepped] at found
      cases found
      have ⟨same, entries, shorter, opened⟩ := ih run
      rw [List.filter_cons_of_neg fails]
      rcases coming : finder.coming with - | ⟨entry, rest⟩
      · rw [step_none coming] at stepped
        cases stepped
      · rw [step_some coming] at stepped
        cases stepped
        exact ⟨same, entries, Nat.le_succ_of_le shorter, fun _ => opened nofun⟩

theorem Filter_false {finder after : WFilteredFileFinder} (run : finder.Filter = (false, after)) :
    (finder.data :: finder.coming).filter finder.passes = [] := by
  induction finder using Filter.induct with
  | case1 finder passes =>
    rw [Filter, if_pos passes] at run
    cases run
  | case2 finder fails last stopped =>
    rw [List.filter_cons_of_neg fails]
    rcases coming : finder.coming with - | ⟨entry, rest⟩
    · rfl
    · rw [step_some coming] at stopped
      cases stopped
  | case3 finder fails next stepped ih =>
    rw [Filter, if_neg fails] at run
    split at run
    · next found =>
      rw [stepped] at found
      cases found
    · next found =>
      rw [stepped] at found
      cases found
      rw [List.filter_cons_of_neg fails]
      rcases coming : finder.coming with - | ⟨entry, rest⟩
      · rfl
      · rw [step_some coming] at stepped
        cases stepped
        exact ih run

theorem Next_true {finder after : WFilteredFileFinder} (run : finder.Next = (true, after)) :
    after.toFilters = finder.toFilters ∧
      finder.coming.filter finder.passes = after.data :: after.coming.filter finder.passes ∧
      after.coming.length < finder.coming.length := by
  rw [Next] at run
  rcases coming : finder.coming with - | ⟨entry, rest⟩
  · rw [step_none coming] at run
    cases run
  · rw [step_some coming] at run
    obtain ⟨same, entries, shorter, -⟩ := Filter_true run
    exact ⟨same, entries, Nat.lt_succ_of_le shorter⟩

theorem Next_false {finder after : WFilteredFileFinder} (run : finder.Next = (false, after)) :
    finder.coming.filter finder.passes = [] := by
  rw [Next] at run
  rcases coming : finder.coming with - | ⟨entry, rest⟩
  · rfl
  · rw [step_some coming] at run
    have none_ := Filter_false run
    exact none_

/-- The entries that calls of Next give until one fails. -/
def nexts (finder : WFilteredFileFinder) : List WIN32_FIND_DATA :=
  match _run : finder.Next with
  | (false, _) => []
  | (true, finder) => finder.data :: finder.nexts
termination_by finder.coming.length
decreasing_by exact (Next_true ‹_›).2.2

/-- The entries that are seen in an object, from the one it has to the last one. -/
def seen (finder : WFilteredFileFinder) : List WIN32_FIND_DATA :=
  if finder.hFind = none then [] else finder.data :: finder.nexts

theorem nexts_eq (finder : WFilteredFileFinder) :
    finder.nexts = finder.coming.filter finder.passes := by
  induction finder using nexts.induct with
  | case1 finder after stopped =>
    rw [nexts, Next_false stopped]
    split
    · rfl
    · next found =>
      rw [stopped] at found
      cases found
  | case2 finder after found ih =>
    have ⟨same, entries, _⟩ := Next_true found
    rw [nexts, entries]
    split
    · next stopped =>
      rw [found] at stopped
      cases stopped
    · next found_ =>
      rw [found] at found_
      cases found_
      rw [ih, same]

/-- An object over a listing sees the entries that pass, and is closed when there are none. -/
theorem seen_start (filters : Filters) (listing : List WIN32_FIND_DATA) (data : WIN32_FIND_DATA) :
    (start ⟨FindFirstFile listing data, filters⟩).seen = listing.filter filters.passes ∧
      ((start ⟨FindFirstFile listing data, filters⟩).hFind = none ↔
        listing.filter filters.passes = []) := by
  rcases listing with - | ⟨entry, rest⟩
  · have closed : (⟨FindFirstFile [] data, filters⟩ : WFilteredFileFinder).hFind = none := rfl
    rw [start, if_pos closed, seen, if_pos closed]
    exact ⟨rfl, iff_of_true closed rfl⟩
  · rw [start, if_neg nofun]
    rcases run : Filter ⟨FindFirstFile (entry :: rest) data, filters⟩ with ⟨- | -, after⟩
    · have none_ := Filter_false run
      rw [seen, if_pos rfl]
      exact ⟨none_.symm, iff_of_true rfl none_⟩
    · have ⟨same, entries, _, opened⟩ := Filter_true run
      have open_ : after.hFind ≠ none := opened nofun
      have entries_ : (entry :: rest).filter filters.passes =
        after.data :: after.coming.filter filters.passes := entries
      dsimp only
      rw [seen, if_neg open_, nexts_eq, entries_, same]
      exact ⟨rfl, iff_of_false open_ nofun⟩

theorem seen_assign (finder : WFilteredFileFinder) (listing : List WIN32_FIND_DATA) :
    (finder.assign listing).seen = listing.filter finder.passes :=
  (seen_start finder.toFilters listing finder.data).1

end WFilteredFileFinder

/-! ### The entries that should be seen -/

def size (data : WIN32_FIND_DATA) : Nat := data.nFileSizeHigh.toNat * 2 ^ 32 + data.nFileSizeLow.toNat

def Filters.within (filters : Filters) (n : Nat) : Prop :=
  filters.qwMinSize.toNat ≤ n ∧ n ≤ filters.qwMaxSize.toNat

instance (filters : Filters) (n : Nat) : Decidable (filters.within n) :=
  inferInstanceAs (Decidable (_ ∧ _))

def Filters.wanted (filters : Filters) (data : WIN32_FIND_DATA) : Bool :=
  filters.others data && filters.within (size data)

/-- What is seen of a listing are the entries wanted, and the object is false when there are none. -/
def Right (filters : Filters) (listing : List WIN32_FIND_DATA) (data : WIN32_FIND_DATA) : Prop :=
  (WFilteredFileFinder.construct filters listing data).seen = listing.filter filters.wanted ∧
    ((WFilteredFileFinder.construct filters listing data).hFind = none ↔
      listing.filter filters.wanted = [])

/-- A size from 4 GB on comes out too small, by as many bytes as there are times 4 GB in it. -/
theorem toNat_GetFile64BitSize (data : WIN32_FIND_DATA) :
    data.GetFile64BitSize.toNat = size data - data.nFileSizeHigh.toNat := by
  have high := data.nFileSizeHigh.isLt
  have low := data.nFileSizeLow.isLt
  have max : MAXDWORD.toNat = 2 ^ 32 - 1 := rfl
  rw [WIN32_FIND_DATA.GetFile64BitSize, size, BitVec.toNat_add, BitVec.toNat_mul,
    BitVec.toNat_setWidth_of_le (by decide), BitVec.toNat_setWidth_of_le (by decide),
    BitVec.toNat_setWidth_of_le (by decide), max]
  omega

theorem passes_iff (filters : Filters) (data : WIN32_FIND_DATA) :
    filters.passes data = true ↔ filters.others data = true ∧
      filters.within (size data - data.nFileSizeHigh.toNat) := by
  rw [Filters.passes, Filters.within, Bool.and_eq_true, Bool.and_eq_true, decide_eq_true_iff,
    decide_eq_true_iff, BitVec.le_def, BitVec.le_def, toNat_GetFile64BitSize, and_assoc]

theorem wanted_iff (filters : Filters) (data : WIN32_FIND_DATA) :
    filters.wanted data = true ↔ filters.others data = true ∧ filters.within (size data) := by
  rw [Filters.wanted, Bool.and_eq_true, decide_eq_true_iff]

/-- The entries wanted are seen exactly when none that meets the other conditions is in the interval
    with its size alone, or with the size that is compared alone. -/
theorem WFilteredFileFinder_right_iff (filters : Filters) (listing : List WIN32_FIND_DATA)
    (data : WIN32_FIND_DATA) :
    Right filters listing data ↔
      ∀ entry ∈ listing, filters.others entry = true →
        (filters.within (size entry) ↔
          filters.within (size entry - entry.nFileSizeHigh.toNat)) := by
  have ⟨entries, closed⟩ := WFilteredFileFinder.seen_start filters listing data
  rw [Right, WFilteredFileFinder.construct, entries, closed]
  constructor
  · intro right entry mem others
    have both : entry ∈ listing.filter filters.passes ↔ entry ∈ listing.filter filters.wanted := by
      rw [right.1]
    rw [List.mem_filter, List.mem_filter, passes_iff, wanted_iff] at both
    constructor
    · intro inside
      exact (both.mpr ⟨mem, others, inside⟩).2.2
    · intro inside
      exact (both.mp ⟨mem, others, inside⟩).2.2
  · intro same
    have filtered : listing.filter filters.passes = listing.filter filters.wanted := by
      apply List.filter_congr
      intro entry mem
      rw [Bool.eq_iff_iff, passes_iff, wanted_iff]
      exact and_congr_right fun others => (same entry mem others).symm
    rw [filtered]
    exact ⟨rfl, Iff.rfl⟩

def fourGB : WIN32_FIND_DATA := ⟨0, ⟨0, 0⟩, ⟨0, 0⟩, ⟨0, 0⟩, 1, 0, ['a']⟩

/-- Looked for by its size, it is not found. -/
theorem WFilteredFileFinder_misses :
    ¬ Right ⟨0, 0, 0x100000000, 0x100000000, 0, 0, 0, 0, 0, 0⟩ [fourGB] fourGB := by
  intro right
  have ⟨entries, _⟩ := WFilteredFileFinder.seen_start
    ⟨0, 0, 0x100000000, 0x100000000, 0, 0, 0, 0, 0, 0⟩ [fourGB] fourGB
  exact absurd (entries.symm.trans right.1) (by decide)

end Wfind
