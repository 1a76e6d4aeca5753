import LtrData.Cxr.Parity
import Mathlib.Data.List.GetD
import Mathlib.Algebra.Order.BigOperators.Group.List

namespace Cxr

section bytes

variable {data : List BYTE} {files : List (List BYTE)} {i : Nat}

theorem byteAt_append_left {front back : List BYTE} (inside : i < front.length) :
    byteAt (front ++ back) i = byteAt front i := List.getD_append front back 0 i inside

theorem byteAt_append_right {front back : List BYTE} (behind : front.length ≤ i) :
    byteAt (front ++ back) i = byteAt back (i - front.length) :=
  List.getD_append_right front back 0 i behind

theorem byteAt_drop (data : List BYTE) (n i : Nat) : byteAt (data.drop n) i = byteAt data (n + i) := by
  rw [byteAt, byteAt, List.getD_eq_getElem?_getD, List.getD_eq_getElem?_getD, List.getElem?_drop]

theorem byteAt_behind (behind : data.length ≤ i) : byteAt data i = 0 :=
  List.getD_eq_default data 0 behind

theorem byteAt_replicate (n i : Nat) : byteAt (List.replicate n 0) i = 0 := by
  by_cases inside : i < n
  · rw [byteAt, List.getD_eq_getElem?_getD, List.getElem?_replicate, if_pos inside]
    rfl
  · exact byteAt_behind (by rw [List.length_replicate]; omega)

theorem byteAt_slot (inside : i < blockSize) : byteAt (slot (data.take blockSize)) i = byteAt data i := by
  by_cases short : i < (data.take blockSize).length
  · rw [slot, byteAt_append_left short]
    rw [byteAt, byteAt, List.getD_eq_getElem?_getD, List.getD_eq_getElem?_getD,
      List.getElem?_take_of_lt inside]
  · have behind : data.length ≤ i := by
      rw [List.length_take] at short
      omega
    rw [slot, byteAt_append_right (Nat.le_of_not_lt short), byteAt_replicate, byteAt_behind behind]

theorem length_xorSlots (slots : List (List BYTE)) : (xorSlots slots).length = blockSize := by
  rw [xorSlots, List.length_map, List.length_range]

theorem byteAt_xorSlots (slots : List (List BYTE)) (inside : i < blockSize) :
    byteAt (xorSlots slots) i = xorAll (slots.map fun slot => byteAt slot i) := by
  rw [byteAt, List.getD_eq_getElem _ 0 (by rwa [length_xorSlots])]
  simp only [xorSlots, List.getElem_map, List.getElem_range]

theorem byteAt_xorBlocks (files : List (List BYTE)) (inside : i < blockSize) :
    byteAt (xorSlots ((files.map (List.take blockSize)).map slot)) i =
      xorAll (files.map fun data => byteAt data i) := by
  rw [byteAt_xorSlots _ inside, List.map_map, List.map_map]
  congr 1
  exact List.map_congr_left fun data _ => byteAt_slot inside

theorem xorAll_behind (behind : ∀ data ∈ files, data.length ≤ i) :
    xorAll (files.map fun data => byteAt data i) = 0 := by
  refine xorAll_zeros fun word mem => ?_
  obtain ⟨data, there, rfl⟩ := List.mem_map.mp mem
  exact byteAt_behind (behind data there)

theorem xorAll_drop (files : List (List BYTE)) (behind : blockSize ≤ i) :
    xorAll ((files.map (List.drop blockSize)).map fun data => byteAt data (i - blockSize)) =
      xorAll (files.map fun data => byteAt data i) := by
  rw [List.map_map]
  congr 1
  refine List.map_congr_left fun data _ => ?_
  rw [Function.comp_apply, byteAt_drop, Nat.add_sub_cancel' behind]

/-- Every byte of the parity is the sum of the bytes of the files. -/
theorem byteAt_backupLoop (fuel : Nat) : ∀ {files : List (List BYTE)},
    (∀ data ∈ files, data.length < fuel) → ∀ i,
      byteAt (backupLoop fuel files) i = xorAll (files.map fun data => byteAt data i) := by
  induction fuel with
  | zero =>
    intro files short i
    exact (xorAll_behind fun data mem => absurd (short data mem) (Nat.not_lt_zero _)).symm
  | succ fuel ih =>
    intro files short i
    have size : blockSize = 4096 := rfl
    unfold backupLoop
    by_cases ended : ∀ block ∈ files.map (List.take blockSize), block = []
    · rw [if_pos ended]
      refine (xorAll_behind fun data mem => ?_).symm
      have none := ended _ (List.mem_map_of_mem mem)
      rw [(List.take_eq_nil_iff.mp none).resolve_left (by decide)]
      exact Nat.zero_le i
    · rw [if_neg ended]
      by_cases inside : i < blockSize
      · rw [byteAt_append_left (by rwa [length_xorSlots]), byteAt_xorBlocks files inside]
      · have behind := Nat.le_of_not_lt inside
        rw [byteAt_append_right (by rwa [length_xorSlots]), length_xorSlots, ih ?_,
          xorAll_drop files behind]
        intro rest mem
        obtain ⟨data, there, rfl⟩ := List.mem_map.mp mem
        have length := short data there
        -- a block that is not empty has been read from some file
        push Not at ended
        obtain ⟨block, mem', nonempty⟩ := ended
        obtain ⟨data', there', rfl⟩ := List.mem_map.mp mem'
        have length' := short data' there'
        have positive := List.length_pos_iff.mpr nonempty
        rw [List.length_take] at positive
        rw [List.length_drop]
        omega

end bytes

section restoreLoop

/-- The handles of the files before the lost one, of the checksum file and of the files after it. -/
def handlesOf (before after : List (List BYTE)) : List Handle :=
  before.map Handle.file ++ .hStdIn :: after.map Handle.file

theorem readBlocks_files (files : List (List BYTE)) (handles : List Handle) (input : List BYTE) :
    readBlocks (files.map Handle.file ++ handles) input =
      (files.map (List.take blockSize) ++ (readBlocks handles input).1,
        (files.map (List.drop blockSize)).map Handle.file ++ (readBlocks handles input).2.1,
        (readBlocks handles input).2.2) := by
  induction files with
  | nil => rfl
  | cons data files ih =>
    rw [List.map_cons, List.cons_append, readBlocks, ih]
    rfl

theorem readBlocks_handlesOf (before after : List (List BYTE)) (input : List BYTE) :
    readBlocks (handlesOf before after) input =
      ((before ++ input :: after).map (List.take blockSize),
        handlesOf (before.map (List.drop blockSize)) (after.map (List.drop blockSize)),
        input.drop blockSize) := by
  have behind := readBlocks_files after [] (input.drop blockSize)
  rw [List.append_nil] at behind
  rw [handlesOf, readBlocks_files, readBlocks, behind]
  simp [readBlocks, handlesOf]

theorem restoreLoop_bytes (size fuel : Nat) : ∀ (written : Nat) (before after : List (List BYTE))
    (input : List BYTE), size ≤ written + fuel →
    size - written ≤ (restoreLoop (before ++ input :: after).length size fuel written
      (handlesOf before after) input).length ∧
    ∀ i < size - written, byteAt (restoreLoop (before ++ input :: after).length size fuel written
        (handlesOf before after) input) i =
      xorAll ((before ++ input :: after).dropLast.map fun data => byteAt data i) := by
  induction fuel with
  | zero =>
    intro written before after input enough
    have none : size - written = 0 := by omega
    rw [none]
    exact ⟨Nat.zero_le _, fun i absurd => (Nat.not_lt_zero i absurd).elim⟩
  | succ fuel ih =>
    intro written before after input enough
    have block : blockSize = 4096 := rfl
    by_cases more : written < size
    swap
    · have none : size - written = 0 := by omega
      rw [none]
      exact ⟨Nat.zero_le _, fun i absurd => (Nat.not_lt_zero i absurd).elim⟩
    obtain ⟨length, bytes⟩ := ih (written + blockSize) (before.map (List.drop blockSize))
      (after.map (List.drop blockSize)) (input.drop blockSize) (by omega)
    have count : (before.map (List.drop blockSize) ++
        input.drop blockSize :: after.map (List.drop blockSize)).length =
        (before ++ input :: after).length := by simp
    have all : before.map (List.drop blockSize) ++
        input.drop blockSize :: after.map (List.drop blockSize) =
        (before ++ input :: after).map (List.drop blockSize) := by simp
    rw [count] at length bytes
    have slots : (((before ++ input :: after).map (List.take blockSize)).map slot).take
        ((before ++ input :: after).length - 1) =
        ((before ++ input :: after).dropLast.map (List.take blockSize)).map slot := by
      rw [List.dropLast_eq_take, List.map_take, List.map_take]
    unfold restoreLoop
    rw [if_pos more, readBlocks_handlesOf]
    dsimp only
    rw [slots]
    constructor
    · rw [List.length_append, length_xorSlots]
      omega
    · intro i inside
      by_cases first : i < blockSize
      · rw [byteAt_append_left (by rwa [length_xorSlots]), byteAt_xorBlocks _ first]
      · have behind := Nat.le_of_not_lt first
        rw [byteAt_append_right (by rwa [length_xorSlots]), length_xorSlots, bytes _ (by omega), all,
          ← List.map_dropLast, xorAll_drop _ behind]

end restoreLoop

/-- A file on the volume. Names are C strings, and the size of a file is a LARGE_INTEGER. -/
structure File where
  name : Name
  data : List BYTE
  terminated : (0 : BYTE) ∉ name
  fits : data.length < 2 ^ 63

section openRecords

theorem readName_terminated : ∀ {room : Nat} {name : Name} (rest : List BYTE), (0 : BYTE) ∉ name →
    name.length < room → readName room (name ++ 0 :: rest) = some (name, rest)
  | 0, _, _, _, short => absurd short (Nat.not_lt_zero _)
  | room + 1, [], rest, _, _ => rfl
  | room + 1, char :: name, rest, terminated, short => by
    have tail := readName_terminated rest (fun mem => terminated (List.mem_cons_of_mem _ mem))
      (Nat.lt_of_succ_lt_succ short)
    have other : char ≠ 0 := fun same => terminated (same ▸ List.mem_cons_self)
    rw [List.cons_append, readName, if_neg other, tail]
    rfl

theorem readSize_leBytes {size : Nat} (fits : size < 2 ^ 63) (rest : List BYTE) :
    readSize (leBytes 8 size ++ rest) = some (size, rest) := by
  have long : ¬ (leBytes 8 size ++ rest).length < 8 := by
    rw [List.length_append, length_leBytes]
    omega
  rw [readSize, if_neg long, List.take_left' (length_leBytes 8 size),
    List.drop_left' (length_leBytes 8 size), leNat_leBytes 8 size (Nat.lt_trans fits (by decide))]

def headers (files : List File) : List BYTE := (files.map fun file => header file.name file.data).flatten

def File.record (file : File) : FileRec := ⟨file.name, file.data.length, .file file.data⟩

theorem ne_nil_of_open {v : Volume} {name : Name} {data : List BYTE}
    (there : v.openExisting name = some data) : name ≠ [] := by
  intro empty
  rw [Volume.openExisting, if_pos empty] at there
  cases there

variable {argv1 : Name} {v : Volume}

theorem openRecords_others : ∀ (files : List File) (fuel : Nat) (rest : List BYTE)
    (size : Option Nat),
    (∀ file ∈ files, file.name.map lower ≠ argv1.map lower) →
    (∀ file ∈ files, v.openExisting file.name = some file.data) →
    (∀ file ∈ files, file.name.length < maxPath) →
    openRecords argv1 (fuel + files.length) v (headers files ++ rest) size =
      (openRecords argv1 fuel v rest size).map fun opened =>
        (files.map File.record ++ opened.1, opened.2)
  | [], fuel, rest, size, _, _, _ => by
    rw [headers, List.map_nil, List.flatten_nil, List.nil_append]
    cases openRecords argv1 fuel v rest size <;> rfl
  | file :: files, fuel, rest, size, other, there, short => by
    have tail := openRecords_others files fuel rest size
      (fun file mem => other file (List.mem_cons_of_mem _ mem))
      (fun file mem => there file (List.mem_cons_of_mem _ mem))
      (fun file mem => short file (List.mem_cons_of_mem _ mem))
    have opened := there file List.mem_cons_self
    have split : headers (file :: files) ++ rest =
        file.name ++ 0 :: (leBytes 8 file.data.length ++ (headers files ++ rest)) := by
      simp [headers, header]
    rw [split, List.length_cons, ← Nat.add_assoc, openRecords,
      readName_terminated _ file.terminated (short file List.mem_cons_self)]
    simp only [Option.bind_eq_bind, Option.bind_some, if_neg (ne_nil_of_open opened),
      readSize_leBytes file.fits, if_neg (other file List.mem_cons_self), opened, ne_eq,
      not_true_eq_false, if_false, tail]
    cases openRecords argv1 fuel v rest size <;> rfl

theorem openRecords_lost {lost : File} (fuel : Nat) (rest : List BYTE) (size : Option Nat)
    (nonempty : lost.name ≠ []) (short : lost.name.length < maxPath) :
    openRecords lost.name (fuel + 1) v (header lost.name lost.data ++ rest) size =
      (openRecords lost.name fuel (v.store lost.name []) rest (some lost.data.length)).map fun opened =>
        (⟨lost.name, lost.data.length, .hStdIn⟩ :: opened.1, opened.2) := by
  have split : header lost.name lost.data ++ rest =
      lost.name ++ 0 :: (leBytes 8 lost.data.length ++ rest) := by
    simp [header]
  rw [split, openRecords, readName_terminated _ lost.terminated short]
  simp only [Option.bind_eq_bind, Option.bind_some, if_neg nonempty, readSize_leBytes lost.fits, if_true]
  cases openRecords lost.name fuel (v.store lost.name []) rest (some lost.data.length) <;> rfl

theorem openRecords_end (fuel : Nat) (rest : List BYTE) (size : Option Nat) :
    openRecords argv1 (fuel + 1) v ([0] ++ rest) size = some ([], rest, v, size) := by
  rw [openRecords]
  rfl

theorem openExisting_store {name name' : Name} (data : List BYTE)
    (other : name.map lower ≠ name'.map lower) :
    (v.store name' data).openExisting name = v.openExisting name := by
  rw [Volume.openExisting, Volume.openExisting, Volume.store, if_neg other]

theorem openExisting_stored {name : Name} (data : List BYTE) (nonempty : name ≠ []) :
    (v.store name data).openExisting name = some data := by
  rw [Volume.openExisting, Volume.store, if_neg nonempty, if_pos rfl]

end openRecords

theorem mapM_openExisting {v : Volume} : ∀ files : List File,
    (∀ file ∈ files, v.openExisting file.name = some file.data) →
    (files.map File.name).mapM v.openExisting = some (files.map File.data)
  | [], _ => rfl
  | file :: files, there => by
    have tail := mapM_openExisting files
      fun file mem => there file (List.mem_cons_of_mem _ mem)
    rw [List.map_cons, List.mapM_cons, there file List.mem_cons_self, tail]
    rfl

theorem cxrbackup_writes {v : Volume} {files : List File} (nonempty : files ≠ [])
    (there : ∀ file ∈ files, v.openExisting file.name = some file.data) :
    ∃ parity, cxrbackup v (files.map File.name) = some (headers files ++ ([0] ++ parity)) ∧
      ∀ i, byteAt parity i = xorAll (files.map fun file => byteAt file.data i) := by
  refine ⟨backupLoop (((files.map File.data).map List.length).sum + 1) (files.map File.data), ?_,
    fun i => ?_⟩
  · rw [cxrbackup, if_neg (by simpa using nonempty), mapM_openExisting _ there]
    show some _ = some _
    rw [List.append_assoc, List.zipWith_map, List.zipWith_self]
    rfl
  · rw [byteAt_backupLoop _ fun data mem => ?_, List.map_map]
    · rfl
    · exact Nat.lt_succ_of_le (List.single_le_sum (fun _ _ => Nat.zero_le _) _ (List.mem_map_of_mem mem))

/-- The byte of the slot that is left out of the sum that restores a byte: of the last file, or of the
    parity where the lost file is the last. -/
def lastSlotByte (before : List File) (lost : File) (after : List File) (i : Nat) : BYTE :=
  match after.getLast? with
  | some last => byteAt last.data i
  | none => xorAll ((before ++ [lost]).map fun file => byteAt file.data i)

theorem eq_iff_byteAt {data data' : List BYTE} (length : data.length = data'.length) :
    data = data' ↔ ∀ i < data'.length, byteAt data i = byteAt data' i := by
  constructor
  · intro same i _
    rw [same]
  · intro same
    refine List.ext_getElem length fun i inside inside' => ?_
    have byte := same i inside'
    rwa [byteAt, byteAt, List.getD_eq_getElem _ 0 inside, List.getD_eq_getElem _ 0 inside'] at byte

theorem getLast_slots {before after : List File} {lost : File} {parity : List BYTE} {i : Nat}
    (sum : byteAt parity i = xorAll ((before ++ lost :: after).map fun file => byteAt file.data i))
    (nonempty : ((before.map File.data ++ parity :: after.map File.data).map fun data => byteAt data i) ≠ []) :
    ((before.map File.data ++ parity :: after.map File.data).map fun data => byteAt data i).getLast nonempty =
      lastSlotByte before lost after i := by
  rcases List.eq_nil_or_concat after with rfl | ⟨front, last, rfl⟩
  · simpa [lastSlotByte] using sum
  · simp [lastSlotByte]

theorem length_le_headers (files : List File) : files.length ≤ (headers files).length := by
  induction files with
  | nil => exact Nat.le_refl 0
  | cons file files ih =>
    have split : headers (file :: files) = header file.name file.data ++ headers files := rfl
    rw [split, List.length_append, header, List.length_append, List.length_append, List.length_cons,
      List.length_singleton]
    omega

/-- The records of the checksum file, with the handles that cxrrestore reads. -/
theorem openRecords_all {v : Volume} {before after : List File} {lost : File} {parity : List BYTE}
    (distinct : ((before ++ lost :: after).map fun file => file.name.map lower).Nodup)
    (short : ∀ file ∈ before ++ lost :: after, file.name.length < maxPath) (nonempty : lost.name ≠ [])
    (unchanged : ∀ file ∈ before ++ after, v.openExisting file.name = some file.data) :
    openRecords lost.name ((headers (before ++ lost :: after) ++ ([0] ++ parity)).length + 1) v
        (headers (before ++ lost :: after) ++ ([0] ++ parity)) none =
      some (before.map File.record ++ ⟨lost.name, lost.data.length, .hStdIn⟩ :: after.map File.record,
        parity, v.store lost.name [], some lost.data.length) := by
  rw [List.map_append, List.map_cons, List.nodup_append, List.nodup_cons] at distinct
  obtain ⟨-, ⟨distinct_after, -⟩, distinct_before⟩ := distinct
  have other_before (file : File) (mem : file ∈ before) : file.name.map lower ≠ lost.name.map lower :=
    distinct_before _ (List.mem_map_of_mem mem) _ List.mem_cons_self
  have other_after (file : File) (mem : file ∈ after) : file.name.map lower ≠ lost.name.map lower :=
    fun same => distinct_after (same ▸ List.mem_map_of_mem (f := fun file => file.name.map lower) mem)
  have split : headers (before ++ lost :: after) ++ ([0] ++ parity) =
      headers before ++ (header lost.name lost.data ++ (headers after ++ ([0] ++ parity))) := by
    simp [headers]
  have count := length_le_headers (before ++ lost :: after)
  rw [List.length_append, List.length_cons] at count
  obtain ⟨k, fuel⟩ : ∃ k, (headers (before ++ lost :: after) ++ ([0] ++ parity)).length + 1 =
      k + 1 + after.length + 1 + before.length := by
    refine ⟨(headers (before ++ lost :: after)).length + parity.length - before.length - after.length, ?_⟩
    rw [List.length_append, List.length_append, List.length_singleton]
    omega
  rw [fuel, split, openRecords_others _ _ _ none other_before
      (fun file mem => unchanged file (List.mem_append_left _ mem))
      (fun file mem => short file (List.mem_append_left _ mem)),
    openRecords_lost _ _ none nonempty (short lost (List.mem_append_right _ List.mem_cons_self)),
    openRecords_others _ _ _ _ other_after
      (fun file mem => by
        rw [openExisting_store _ (other_after file mem)]
        exact unchanged file (List.mem_append_right _ mem))
      (fun file mem => short file (List.mem_append_right _ (List.mem_cons_of_mem _ mem))),
    openRecords_end]
  simp

/-- What cxrrestore makes of a lost file: its bytes, each with the byte that is left out added. -/
theorem cxrrestore_bytes {v v' : Volume} {before after : List File} {lost : File}
    {stream : List BYTE}
    (distinct : ((before ++ lost :: after).map fun file => file.name.map lower).Nodup)
    (short : ∀ file ∈ before ++ lost :: after, file.name.length < maxPath)
    (there : ∀ file ∈ before ++ lost :: after, v.openExisting file.name = some file.data)
    (backup : cxrbackup v ((before ++ lost :: after).map File.name) = some stream)
    (unchanged : ∀ file ∈ before ++ after, v'.openExisting file.name = some file.data) :
    ∃ v'' restored, cxrrestore v' stream lost.name = some v'' ∧
      v''.openExisting lost.name = some restored ∧ restored.length = lost.data.length ∧
      ∀ i < lost.data.length,
        byteAt restored i = byteAt lost.data i ^^^ lastSlotByte before lost after i := by
  have mem_lost : lost ∈ before ++ lost :: after := List.mem_append_right _ List.mem_cons_self
  have nonempty := ne_nil_of_open (there lost mem_lost)
  obtain ⟨parity, written, sum⟩ := cxrbackup_writes (by simp) there
  cases backup.symm.trans written
  obtain ⟨long, bytes⟩ := restoreLoop_bytes lost.data.length lost.data.length 0 (before.map File.data)
    (after.map File.data) parity (by omega)
  obtain ⟨written, loop⟩ : ∃ written, written =
    restoreLoop (before.map File.data ++ parity :: after.map File.data).length lost.data.length
      lost.data.length 0 (handlesOf (before.map File.data) (after.map File.data)) parity := ⟨_, rfl⟩
  rw [← loop] at long bytes
  refine ⟨(v'.store lost.name []).store lost.name (written.take lost.data.length), _, ?_,
    openExisting_stored _ nonempty, ?_, fun i inside => ?_⟩
  · have handles : (before.map File.record ++
        ⟨lost.name, lost.data.length, .hStdIn⟩ :: after.map File.record).map FileRec.handle =
        handlesOf (before.map File.data) (after.map File.data) := by
      simp [handlesOf, File.record, Function.comp_def]
    have count : (before.map File.record ++
        ⟨lost.name, lost.data.length, .hStdIn⟩ :: after.map File.record).length =
        (before.map File.data ++ parity :: after.map File.data).length := by simp
    rw [cxrrestore, openRecords_all distinct short nonempty unchanged]
    simp only [Option.bind_eq_bind, Option.bind_some, if_pos lost.fits, handles, count, ← loop]
  · rw [List.length_take]
    omega
  · have taken : byteAt (written.take lost.data.length) i = byteAt written i := by
      rw [byteAt, byteAt, List.getD_eq_getElem?_getD, List.getD_eq_getElem?_getD,
        List.getElem?_take_of_lt inside]
    have slots_ne : ((before.map File.data ++ parity :: after.map File.data).map
        fun data => byteAt data i) ≠ [] := by simp
    have restored : xorAll ((before.map File.data ++ parity :: after.map File.data).map
        fun data => byteAt data i) = byteAt lost.data i := by
      have restored := xorAll_restored (before.map fun file => byteAt file.data i)
        (after.map fun file => byteAt file.data i) (byteAt lost.data i)
      have parity_i := sum i
      rw [List.map_append, List.map_cons] at parity_i
      rw [← parity_i] at restored
      rw [List.map_append, List.map_cons, List.map_map, List.map_map]
      exact restored
    rw [taken, bytes i (by omega), List.map_dropLast, xorAll_dropLast slots_ne, restored,
      getLast_slots (sum i) slots_ne]

def twoFiles (a b : List BYTE) : Volume := fun key =>
  if key = [0x61] then some a else if key = [0x62] then some b else none

def fileA (data : List BYTE) (fits : data.length < 2 ^ 63) : File := ⟨[0x61], data, by decide, fits⟩

def fileB (data : List BYTE) (fits : data.length < 2 ^ 63) : File := ⟨[0x62], data, by decide, fits⟩

theorem openExisting_twoFiles {a b : List BYTE} (fits : a.length < 2 ^ 63) (fits' : b.length < 2 ^ 63) :
    ∀ file ∈ [fileA a fits, fileB b fits'], (twoFiles a b).openExisting file.name = some file.data := by
  intro file mem
  rcases List.mem_cons.mp mem with rfl | mem
  · rfl
  · rw [List.mem_singleton.mp mem]
    rfl

end Cxr
