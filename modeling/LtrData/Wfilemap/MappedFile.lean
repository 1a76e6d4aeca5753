import Mathlib.Algebra.Group.Nat.Defs
import Mathlib.Tactic.Common

namespace Wfilemap

abbrev DWORD := BitVec 32

abbrev QWORD := BitVec 64

/-- A mapped view: no view starts at NULL, and none goes round the end of the address space. -/
structure View (w : Nat) where
  base : BitVec w
  length : Nat
  notNull : base ≠ 0
  fits : base.toNat + length ≤ 2 ^ w

/-- What the system answers in one mapping step: the size of the mapping object that it creates or
    opens, the address of the view, and the size of an open file. -/
structure Answers (w : Nat) where
  object : Option Nat
  base : Option (BitVec w)
  fileSize : QWORD

/-- A view of 0 bytes reaches to the end of the mapping object. -/
def viewLength (size : Nat) (offset : QWORD) (bytes : DWORD) : Nat :=
  if bytes ≠ 0 then bytes.toNat else size - offset.toNat

/-- MapViewOfFileEx -/
def mapViewOfFile {w : Nat} (object : Option Nat) (offset : QWORD) (bytes : DWORD)
    (base : Option (BitVec w)) : Option (View w) :=
  match object, base with
  | some size, some base =>
    if given : offset.toNat ≤ size ∧ base ≠ 0 ∧ base.toNat + viewLength size offset bytes ≤ 2 ^ w then
      some ⟨base, viewLength size offset bytes, given.2.1, given.2.2⟩
    else none
  | _, _ => none

/-- GetFileSize, which gives INVALID_FILE_SIZE for a handle that is not valid. -/
def getFileSize (hObject : Bool) (fileSize : QWORD) : QWORD := if hObject then fileSize else 0xFFFFFFFF

/-- `object` and `view` are the members of `map`; `hObject` tells whether the file handle is valid. -/
structure WMappedFile (w : Nat) where
  hObject : Bool
  object : Option Nat
  view : Option (View w)
  qwFileSize : QWORD
  qwMapOffset : QWORD
  dwBytesMapped : DWORD

variable {w : Nat}

namespace WMappedFile

def mapView (s : WMappedFile w) (answers : Answers w) : Bool × WMappedFile w :=
  match mapViewOfFile s.object s.qwMapOffset s.dwBytesMapped answers.base with
  | none => (false, { s with view := none })
  | some view =>
    let qwFileSize :=
      if s.qwFileSize = 0 then getFileSize s.hObject answers.fileSize else s.qwFileSize
    let dwBytesMapped :=
      if s.dwBytesMapped = 0 then (qwFileSize - s.qwMapOffset).setWidth 32 else s.dwBytesMapped
    (true, { s with view := some view, qwFileSize := qwFileSize, dwBytesMapped := dwBytesMapped })

def closeMap (s : WMappedFile w) : WMappedFile w := { s with object := none, view := none }

/-- CreateMapAndView, and OpenMapAndView, which differs in the call that gives the object. -/
def mapAndView (s : WMappedFile w) (answers : Answers w) : WMappedFile w :=
  match answers.object with
  | none => s.closeMap
  | some size =>
    let (mapped, s) := mapView { s with object := some size, view := none } answers
    if mapped then s else s.closeMap

def openMapAndView (s : WMappedFile w) (answers : Answers w) : WMappedFile w := s.mapAndView answers

def createMapAndView (s : WMappedFile w) (answers : Answers w) : WMappedFile w := s.mapAndView answers

def new (qwNewFileSize qwNewMapOffset : QWORD) (dwBytesToMap : DWORD) : WMappedFile w :=
  ⟨false, none, none, qwNewFileSize, qwNewMapOffset, dwBytesToMap⟩

/-- The first attempt of the constructor by file name, made if the mapping has a name. -/
def openExisting (s : WMappedFile w) (existing : Option (Answers w)) : WMappedFile w :=
  match existing with
  | none => s
  | some answers => s.openMapAndView answers

/-- The second one, where `opened` is whether CreateFile succeeds. -/
def openFile (s : WMappedFile w) (opened : Bool) (created : Answers w) : WMappedFile w :=
  if s.view.isSome then s
  else if opened then createMapAndView { s with hObject := true } created
  else s.closeMap

def byName (qwNewFileSize qwNewMapOffset : QWORD) (dwBytesToMap : DWORD)
    (existing : Option (Answers w)) (opened : Bool) (created : Answers w) : WMappedFile w :=
  ((new qwNewFileSize qwNewMapOffset dwBytesToMap).openExisting existing).openFile opened created

/-- The constructor by an open file handle, valid or INVALID_HANDLE_VALUE. -/
def byHandle (qwNewFileSize qwNewMapOffset : QWORD) (dwBytesToMap : DWORD)
    (hOpenFile duplicated : Bool) (created : Answers w) : WMappedFile w :=
  let s := new qwNewFileSize qwNewMapOffset dwBytesToMap
  let s := { s with hObject := hOpenFile && duplicated }
  if s.hObject || !hOpenFile then s.createMapAndView created else s

def copy (filemap : WMappedFile w) (duplicated : Bool) (created : Answers w) : WMappedFile w :=
  let s := new filemap.qwFileSize filemap.qwMapOffset filemap.dwBytesMapped
  if !filemap.hObject then s.createMapAndView created
  else if duplicated then createMapAndView { s with hObject := true } created
  else s

def resize (s : WMappedFile w) (dwBytesToMap : DWORD) (qwNewMapOffset qwNewFileSize : QWORD)
    (answers : Answers w) : WMappedFile w :=
  let s := { s with qwMapOffset := qwNewMapOffset, dwBytesMapped := dwBytesToMap }
  if qwNewFileSize ≠ 0 then createMapAndView { s with qwFileSize := qwNewFileSize } answers
  else (s.mapView answers).2

/-- GetView, where NULL is 0. -/
def getView (s : WMappedFile w) : BitVec w :=
  match s.view with
  | none => 0
  | some view => view.base

/-- operator[] -/
def index (s : WMappedFile w) (dwRecLen dwRecNr : DWORD) : BitVec w :=
  if s.dwBytesMapped < dwRecNr * dwRecLen + dwRecLen then 0
  else s.getView + BitVec.ofNat w (dwRecNr * dwRecLen).toNat

/-- A pointer that is not NULL is one to a record inside the view. -/
def RecordInside (s : WMappedFile w) (dwRecLen dwRecNr : DWORD) : Prop :=
  s.index dwRecLen dwRecNr ≠ 0 → ∃ view, s.view = some view ∧
    view.base.toNat ≤ (s.index dwRecLen dwRecNr).toNat ∧
    (s.index dwRecLen dwRecNr).toNat + dwRecLen.toNat ≤ view.base.toNat + view.length

end WMappedFile

/-- A construction of an object, maybe from another one, and the calls of Resize on it, with the
    answers of the system. -/
inductive History (w : Nat)
  | byName (qwNewFileSize qwNewMapOffset : QWORD) (dwBytesToMap : DWORD)
      (existing : Option (Answers w)) (opened : Bool) (created : Answers w)
  | byHandle (qwNewFileSize qwNewMapOffset : QWORD) (dwBytesToMap : DWORD)
      (hOpenFile duplicated : Bool) (created : Answers w)
  | copy (filemap : History w) (duplicated : Bool) (created : Answers w)
  | resize (h : History w) (dwBytesToMap : DWORD) (qwNewMapOffset qwNewFileSize : QWORD)
      (answers : Answers w)

namespace History

def run : History w → WMappedFile w
  | byName size offset bytes existing opened created =>
    WMappedFile.byName size offset bytes existing opened created
  | byHandle size offset bytes hOpenFile duplicated created =>
    WMappedFile.byHandle size offset bytes hOpenFile duplicated created
  | copy filemap duplicated created => filemap.run.copy duplicated created
  | resize h bytes offset size answers => h.run.resize bytes offset size answers

/-- The number of bytes that the last call asked to map, where 0 stands for all of them. -/
def requested : History w → DWORD
  | byName _ _ bytes _ _ _ => bytes
  | byHandle _ _ bytes _ _ _ => bytes
  | copy filemap _ _ => filemap.run.dwBytesMapped
  | resize _ bytes _ _ _ => bytes

/-- When the index operator keeps to the view. A file without a view must refuse the record, or be
    asked for its first byte. Where a length was asked for, the record must be refused, or end below
    2 ^ 32. Where none was asked for, it must be refused by the size that the object has in mind, or
    end within the mapping object. A pointer may also come out as NULL, at the very end of the
    address space. -/
def IndexSafe (h : History w) (dwRecLen dwRecNr : DWORD) : Prop :=
  let start := (dwRecNr * dwRecLen).toNat
  match h.run.view with
  | none => h.requested < dwRecNr * dwRecLen + dwRecLen ∨ start = 0
  | some view =>
    view.base.toNat + start = 2 ^ w ∨
      if h.requested ≠ 0 then
        h.requested < dwRecNr * dwRecLen + dwRecLen ∨ start + dwRecLen.toNat < 2 ^ 32
      else
        (h.run.qwFileSize - h.run.qwMapOffset).setWidth 32 < dwRecNr * dwRecLen + dwRecLen ∨
          ∃ size, h.run.object = some size ∧ h.run.qwMapOffset.toNat + start + dwRecLen.toNat ≤ size

end History

/-- How the members and the view go with the number of bytes that was asked for. -/
structure Follows (s : WMappedFile w) (requested : DWORD) : Prop where
  unmapped : s.view = none → s.dwBytesMapped = requested
  mapped : ∀ view, s.view = some view → ∃ size, s.object = some size ∧ s.qwMapOffset.toNat ≤ size ∧
    (requested ≠ 0 → s.dwBytesMapped = requested ∧ view.length = requested.toNat) ∧
    (requested = 0 → s.dwBytesMapped = (s.qwFileSize - s.qwMapOffset).setWidth 32 ∧
      view.length = size - s.qwMapOffset.toNat)

section steps

variable {s : WMappedFile w} {answers : Answers w} {requested : DWORD}

theorem mapViewOfFile_some {object : Option Nat} {offset : QWORD} {bytes : DWORD}
    {base : Option (BitVec w)} {view : View w}
    (mapped : mapViewOfFile object offset bytes base = some view) :
    ∃ size, object = some size ∧ offset.toNat ≤ size ∧ view.length = viewLength size offset bytes := by
  unfold mapViewOfFile at mapped
  split at mapped
  · next size base =>
    split at mapped
    · next given =>
      exact ⟨size, rfl, given.1, (congrArg View.length (Option.some.inj mapped)).symm⟩
    · cases mapped
  · cases mapped

theorem Follows.of_none (nothing : s.view = none) (recorded : s.dwBytesMapped = requested) :
    Follows s requested where
  unmapped _ := recorded
  mapped view found := by
    rw [nothing] at found
    cases found

theorem mapView_follows (s : WMappedFile w) (answers : Answers w) :
    Follows (s.mapView answers).2 s.dwBytesMapped ∧
      ((s.mapView answers).1 = false → (s.mapView answers).2.dwBytesMapped = s.dwBytesMapped) := by
  rw [WMappedFile.mapView]
  split
  · exact ⟨Follows.of_none rfl rfl, fun _ => rfl⟩
  · next view found =>
    obtain ⟨size, object, le, length⟩ := mapViewOfFile_some found
    refine ⟨⟨fun nothing => ?_, fun view' same => ?_⟩, fun failed => ?_⟩
    · cases nothing
    rotate_left
    · cases failed
    obtain rfl := Option.some.inj same
    refine ⟨size, object, le, fun some_ => ?_, fun zero => ?_⟩
    · exact ⟨if_neg some_, by rw [length, viewLength, if_pos some_]⟩
    · exact ⟨if_pos zero, by rw [length, viewLength, if_neg (not_not.mpr zero)]⟩

theorem mapAndView_follows (s : WMappedFile w) (answers : Answers w) :
    Follows (s.mapAndView answers) s.dwBytesMapped := by
  rw [WMappedFile.mapAndView]
  split
  · exact Follows.of_none rfl rfl
  · next size _ =>
    obtain ⟨follows, failed⟩ := mapView_follows { s with object := some size, view := none } answers
    dsimp only
    split
    · exact follows
    · next not_mapped => exact Follows.of_none rfl (failed (Bool.eq_false_iff.mpr not_mapped))

theorem openFile_follows (follows : Follows s requested) (opened : Bool) (created : Answers w) :
    Follows (s.openFile opened created) requested := by
  rw [WMappedFile.openFile]
  split
  · exact follows
  · next no_view =>
    have recorded := follows.unmapped (Option.not_isSome_iff_eq_none.mp no_view)
    rw [← recorded]
    split
    · exact mapAndView_follows { s with hObject := true } created
    · exact Follows.of_none rfl rfl

theorem byName_follows (size offset : QWORD) (bytes : DWORD) (existing : Option (Answers w))
    (opened : Bool) (created : Answers w) :
    Follows (WMappedFile.byName size offset bytes existing opened created) bytes := by
  apply openFile_follows
  cases existing with
  | none => exact Follows.of_none rfl rfl
  | some answers => exact mapAndView_follows _ answers

theorem byHandle_follows (size offset : QWORD) (bytes : DWORD) (hOpenFile duplicated : Bool)
    (created : Answers w) :
    Follows (WMappedFile.byHandle size offset bytes hOpenFile duplicated created) bytes := by
  rw [WMappedFile.byHandle]
  dsimp only
  split
  · exact mapAndView_follows _ created
  · exact Follows.of_none rfl rfl

theorem copy_follows (filemap : WMappedFile w) (duplicated : Bool) (created : Answers w) :
    Follows (filemap.copy duplicated created) filemap.dwBytesMapped := by
  rw [WMappedFile.copy]
  split
  · exact mapAndView_follows _ created
  · split
    · exact mapAndView_follows _ created
    · exact Follows.of_none rfl rfl

theorem resize_follows (s : WMappedFile w) (bytes : DWORD) (offset size : QWORD)
    (answers : Answers w) : Follows (s.resize bytes offset size answers) bytes := by
  rw [WMappedFile.resize]
  split
  · exact mapAndView_follows _ answers
  · exact (mapView_follows _ answers).1

/-- After every call the members follow the number of bytes that the call asked for. -/
theorem History.follows (h : History w) : Follows h.run h.requested := by
  cases h with
  | byName size offset bytes existing opened created =>
    exact byName_follows size offset bytes existing opened created
  | byHandle size offset bytes hOpenFile duplicated created =>
    exact byHandle_follows size offset bytes hOpenFile duplicated created
  | copy filemap duplicated created => exact copy_follows filemap.run duplicated created
  | resize h bytes offset size answers => exact resize_follows h.run bytes offset size answers

end steps

section indexing

variable {s : WMappedFile w} {dwRecLen dwRecNr : DWORD}

theorem toNat_end (dwRecLen dwRecNr : DWORD) : (dwRecNr * dwRecLen + dwRecLen).toNat =
    ((dwRecNr * dwRecLen).toNat + dwRecLen.toNat) % 2 ^ 32 := BitVec.toNat_add _ _

/-- Pointers of 32 bits or more hold the offset of a record. -/
theorem toNat_start_lt (wide : 32 ≤ w) (dwRecLen dwRecNr : DWORD) :
    (dwRecNr * dwRecLen).toNat < 2 ^ w :=
  Nat.lt_of_lt_of_le (BitVec.isLt _) (Nat.pow_le_pow_right (by decide) wide)

theorem recordInside_of_refused (refused : s.dwBytesMapped < dwRecNr * dwRecLen + dwRecLen) :
    s.RecordInside dwRecLen dwRecNr := by
  intro some_
  rw [WMappedFile.index, if_pos refused] at some_
  exact absurd rfl some_

/-- Without a view the pointer is the offset of the record. -/
theorem recordInside_iff_of_none (wide : 32 ≤ w) (nothing : s.view = none)
    (accepted : ¬ s.dwBytesMapped < dwRecNr * dwRecLen + dwRecLen) :
    s.RecordInside dwRecLen dwRecNr ↔ (dwRecNr * dwRecLen).toNat = 0 := by
  have small := toNat_start_lt wide dwRecLen dwRecNr
  have pointer : s.index dwRecLen dwRecNr = BitVec.ofNat w (dwRecNr * dwRecLen).toNat := by
    rw [WMappedFile.index, if_neg accepted, WMappedFile.getView, nothing]
    exact BitVec.zero_add _
  rw [WMappedFile.RecordInside, pointer]
  constructor
  · intro inside
    by_contra some_
    have not_null : BitVec.ofNat w (dwRecNr * dwRecLen).toNat ≠ 0 := by
      intro null
      have value := congrArg BitVec.toNat null
      rw [BitVec.toNat_ofNat, Nat.mod_eq_of_lt small] at value
      exact some_ (by simpa using value)
    obtain ⟨view, found, -⟩ := inside not_null
    rw [nothing] at found
    cases found
  · intro zero some_
    rw [zero] at some_
    exact absurd rfl some_

/-- With a view, and short of NULL, the end of the record decides. -/
theorem recordInside_iff_of_some (wide : 32 ≤ w) {view : View w} (found : s.view = some view)
    (accepted : ¬ s.dwBytesMapped < dwRecNr * dwRecLen + dwRecLen) :
    s.RecordInside dwRecLen dwRecNr ↔ view.base.toNat + (dwRecNr * dwRecLen).toNat = 2 ^ w ∨
      (dwRecNr * dwRecLen).toNat + dwRecLen.toNat ≤ view.length := by
  have small := toNat_start_lt wide dwRecLen dwRecNr
  have fits := view.fits
  have base_lt := view.base.isLt
  have positive := BitVec.toNat_pos_of_ne_zero view.notNull
  have pointer : (s.index dwRecLen dwRecNr).toNat =
      (view.base.toNat + (dwRecNr * dwRecLen).toNat) % 2 ^ w := by
    rw [WMappedFile.index, if_neg accepted, WMappedFile.getView, found, BitVec.toNat_add,
      BitVec.toNat_ofNat, Nat.mod_eq_of_lt small]
  have null_iff : s.index dwRecLen dwRecNr = 0 ↔ (s.index dwRecLen dwRecNr).toNat = 0 :=
    ⟨fun null => by rw [null]; simp, fun zero => BitVec.eq_of_toNat_eq (by simpa using zero)⟩
  have same_view : (∃ view', s.view = some view' ∧
      view'.base.toNat ≤ (s.index dwRecLen dwRecNr).toNat ∧
      (s.index dwRecLen dwRecNr).toNat + dwRecLen.toNat ≤ view'.base.toNat + view'.length) ↔
      view.base.toNat ≤ (s.index dwRecLen dwRecNr).toNat ∧
        (s.index dwRecLen dwRecNr).toNat + dwRecLen.toNat ≤ view.base.toNat + view.length := by
    rw [found]
    constructor
    · intro facts
      obtain ⟨view', same, inside⟩ := facts
      obtain rfl := Option.some.inj same
      exact inside
    · exact fun inside => ⟨view, rfl, inside⟩
  rw [WMappedFile.RecordInside, same_view, Ne, null_iff, pointer]
  rcases Nat.lt_trichotomy (view.base.toNat + (dwRecNr * dwRecLen).toNat) (2 ^ w) with
    less | same | more
  · rw [Nat.mod_eq_of_lt less]
    omega
  · rw [same, Nat.mod_self]
    simp
  · rw [Nat.mod_eq_sub_mod (Nat.le_of_lt more), Nat.mod_eq_of_lt (by omega)]
    omega

theorem recordInside_iff (wide : 32 ≤ w) (h : History w) (dwRecLen dwRecNr : DWORD) :
    h.run.RecordInside dwRecLen dwRecNr ↔ h.IndexSafe dwRecLen dwRecNr := by
  have follows := h.follows
  have end_ := toNat_end dwRecLen dwRecNr
  rw [History.IndexSafe]
  cases found : h.run.view with
  | none =>
    rw [← follows.unmapped found]
    by_cases refused : h.run.dwBytesMapped < dwRecNr * dwRecLen + dwRecLen
    · exact iff_of_true (recordInside_of_refused refused) (Or.inl refused)
    · rw [recordInside_iff_of_none wide found refused]
      exact ⟨Or.inr, fun either => either.resolve_left refused⟩
  | some view =>
    obtain ⟨size, object, le, asked, unasked⟩ := follows.mapped view found
    dsimp only
    split
    · next some_ =>
      obtain ⟨recorded, length⟩ := asked some_
      have bound := h.requested.isLt
      rw [← recorded]
      by_cases refused : h.run.dwBytesMapped < dwRecNr * dwRecLen + dwRecLen
      · exact iff_of_true (recordInside_of_refused refused) (Or.inr (Or.inl refused))
      · rw [recordInside_iff_of_some wide found refused, length]
        rw [recorded, BitVec.lt_def, end_] at refused
        rw [recorded, BitVec.lt_def, end_]
        omega
    · next zero =>
      obtain ⟨recorded, length⟩ := unasked (not_not.mp zero)
      rw [← recorded, object]
      by_cases refused : h.run.dwBytesMapped < dwRecNr * dwRecLen + dwRecLen
      · exact iff_of_true (recordInside_of_refused refused) (Or.inr (Or.inl refused))
      · rw [recordInside_iff_of_some wide found refused, length]
        simp only [Option.some.injEq, refused, false_or, exists_eq_left']
        omega

/-- A file of 4096 bytes, mapped as a whole at 0x10000. -/
def mapped4096 : Answers 64 := ⟨some 4096, some 0x10000, 4096⟩

theorem record_of_4096 :
    (History.byHandle 0 0 4096 true true mapped4096).run.RecordInside 8 10 ↔
      (History.byHandle 0 0 4096 true true mapped4096).IndexSafe 8 10 :=
  recordInside_iff (by decide) (History.byHandle 0 0 4096 true true mapped4096) 8 10

/-- Three pointers that are no records of a view: in a file that could not be opened, behind an end
    that wraps, and in a named mapping whose size nobody asked for. -/
theorem records_outside :
    ¬ (History.byName 0 0 4096 none false mapped4096).run.RecordInside 1 5 ∧
    ¬ (History.byHandle 0 0 4096 true true mapped4096).run.RecordInside 8 0x1FFFFFFF ∧
    ¬ (History.byName 0 0 0 (some mapped4096) false mapped4096).run.RecordInside 1 5000 := by
  refine ⟨fun inside => ?_, fun inside => ?_, fun inside => ?_⟩
  · have zero := (recordInside_iff_of_none (by decide) rfl (by decide)).mp inside
    cases zero
  · rcases (recordInside_iff_of_some (by decide) rfl (by decide)).mp inside with null | fits
    · cases null
    · exact absurd fits (by decide)
  · rcases (recordInside_iff_of_some (by decide) rfl (by decide)).mp inside with null | fits
    · cases null
    · exact absurd fits (by decide)

end indexing

end Wfilemap
