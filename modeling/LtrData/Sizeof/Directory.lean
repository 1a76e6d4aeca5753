import LtrData.Library.CStrings
import LtrData.Library.FirstMet
import LtrData.Sizeof.FileTable
import Mathlib.Data.BitVec
import Mathlib.Tactic.Positivity
import Mathlib.Data.Set.Function
import Mathlib.Tactic.Ring

namespace Sizeof

abbrev BYTE := BitVec 8
abbrev CString := {text : List BYTE // 0 ∉ text}

def backslash : BYTE := 92
def star : BYTE := 42
def dot : BYTE := 46

def FILE_ATTRIBUTE_DIRECTORY : DWORD := 0x10
def FILE_ATTRIBUTE_SPARSE_FILE : DWORD := 0x200
def FILE_ATTRIBUTE_REPARSE_POINT : DWORD := 0x400
def FILE_ATTRIBUTE_COMPRESSED : DWORD := 0x800

structure WIN32_FIND_DATA where
  dwFileAttributes : DWORD
  nFileSizeHigh : DWORD
  nFileSizeLow : DWORD
  cFileName : CString

abbrev WIN32_FIND_DATA.name (data : WIN32_FIND_DATA) : List BYTE := data.cFileName.val

def WIN32_FIND_DATA.has (data : WIN32_FIND_DATA) (attributes : DWORD) : Bool :=
  data.dwFileAttributes &&& attributes ≠ 0

structure BY_HANDLE_FILE_INFORMATION where
  dwVolumeSerialNumber : DWORD
  nFileIndexHigh : DWORD
  nFileIndexLow : DWORD
deriving DecidableEq

/-- What the calls of sizeof answer for a path: the entries that a search finds, sectors for each
    cluster and bytes for each sector (of the current drive for no path), the information on a file
    that can be opened, and the size of a compressed file. -/
structure Windows where
  FindFirst : List BYTE → List WIN32_FIND_DATA
  GetDiskFreeSpace : Option (List BYTE) → Option (DWORD × DWORD)
  GetFileInformation : List BYTE → Option BY_HANDLE_FILE_INFORMATION
  GetCompressedFileSize : List BYTE → Option (BitVec 64)

structure Options where
  follow_reparse_points : Bool
  count_files : Bool

def sizeofFile : Nat := 32769

structure State where
  file : Cells BYTE
  FileHashTable : FileHashTable
  TotalFileSize : BitVec 64

/-- The loop that shifts BytesPerCluster away, which is not negative, and counts in dwClusterMask. -/
def shifts (BytesPerCluster : Nat) : Nat :=
  if BytesPerCluster >>> 1 = 0 then 0 else shifts (BytesPerCluster >>> 1) + 1
termination_by BytesPerCluster
decreasing_by
  rw [Nat.shiftRight_eq_div_pow]
  omega

def rounded (filesize : BitVec 64) (dwClusterMask : Nat) : BitVec 64 :=
  ((filesize - 1).sshiftRight dwClusterMask + 1) <<< dwClusterMask

section

variable (os : Windows) (o : Options)

/-- What the loop in directory does with a file. -/
def countFile (finddata : WIN32_FIND_DATA) (fptr dwClusterMask : Nat) (s : State) : State :=
  if finddata.name.length + fptr ≥ sizeofFile then
    -- too long path
    { s with file := s.file.write fptr [0] }
  else
    let file := s.file.write fptr (finddata.name ++ [0])
    let path := file.textAt sizeofFile 0
    let (skip_this, table) := match os.GetFileInformation path with
      | some info => FindOrAdd info.nFileIndexLow (info.nFileIndexHigh &&& 0xffff)
          info.dwVolumeSerialNumber s.FileHashTable
      | none => (false, s.FileHashTable)
    if skip_this then ⟨file, table, s.TotalFileSize⟩
    else if finddata.has (FILE_ATTRIBUTE_COMPRESSED ||| FILE_ATTRIBUTE_SPARSE_FILE) then
      match os.GetCompressedFileSize path with
      | some filesize => ⟨file, table, s.TotalFileSize + filesize⟩
      -- win_perror
      | none => ⟨file, table, s.TotalFileSize⟩
    else
      let filesize := finddata.nFileSizeHigh ++ finddata.nFileSizeLow
      ⟨file, table, s.TotalFileSize + rounded filesize dwClusterMask⟩

mutual

def directory (fptr dwLastClusterMask : Nat) (s : State) : State :=
  let dwClusterMask := match os.GetDiskFreeSpace (some (s.file.textAt sizeofFile 0)) with
    | some (dwSectorsPerCluster, dwBytesPerSector) =>
      shifts (dwSectorsPerCluster.toNat * dwBytesPerSector.toNat)
    | none => dwLastClusterMask
  let file := s.file.write fptr [star, 0]
  directoryLoop (os.FindFirst (file.textAt sizeofFile 0)) fptr dwClusterMask { s with file := file }
termination_by (sizeofFile - fptr, 1, 0)
decreasing_by exact .right _ (.left _ _ Nat.zero_lt_one)

/-- The loop over the entries that are found. -/
def directoryLoop (entries : List WIN32_FIND_DATA) (fptr dwClusterMask : Nat) (s : State) : State :=
  match entries with
  | [] => s
  | finddata :: rest =>
    if finddata.has FILE_ATTRIBUTE_DIRECTORY then
      if finddata.has FILE_ATTRIBUTE_REPARSE_POINT && !o.follow_reparse_points then
        directoryLoop rest fptr dwClusterMask s
      else if finddata.name ≠ [dot] && finddata.name ≠ [dot, dot] then
        if finddata.name.length + 13 + fptr ≥ sizeofFile then
          -- too long path
          directoryLoop rest fptr dwClusterMask { s with file := s.file.write fptr [0] }
        else
          let file := s.file.write fptr (finddata.name ++ [backslash, 0])
          directoryLoop rest fptr dwClusterMask
            (directory (fptr + (finddata.name ++ [backslash]).length) dwClusterMask { s with file := file })
      else directoryLoop rest fptr dwClusterMask s
    else if o.count_files then
      directoryLoop rest fptr dwClusterMask { s with TotalFileSize := s.TotalFileSize + 1 }
    else directoryLoop rest fptr dwClusterMask (countFile os finddata fptr dwClusterMask s)
termination_by (sizeofFile - fptr, 0, entries.length)
decreasing_by
  · exact .right _ (.right _ (Nat.lt_succ_self _))
  · exact .right _ (.right _ (Nat.lt_succ_self _))
  · rw [List.length_append, List.length_singleton]
    exact .left _ _ (by omega)
  · exact .right _ (.right _ (Nat.lt_succ_self _))
  · exact .right _ (.right _ (Nat.lt_succ_self _))
  · exact .right _ (.right _ (Nat.lt_succ_self _))
  · exact .right _ (.right _ (Nat.lt_succ_self _))

end

end

/-! ### What is reached below a directory -/

/-- A file where it is met: its volume and index, its size and the cluster size in effect. -/
structure Visit where
  file : BY_HANDLE_FILE_INFORMATION
  size : Nat
  cluster : Nat

def Visit.allocated (visit : Visit) : Nat :=
  (visit.size + visit.cluster - 1) / visit.cluster * visit.cluster

def WIN32_FIND_DATA.size (data : WIN32_FIND_DATA) : Nat :=
  (data.nFileSizeHigh ++ data.nFileSizeLow).toNat

/-- A directory that is entered, not a reparse point that is not followed, . or .. -/
def Entered (o : Options) (data : WIN32_FIND_DATA) : Prop :=
  (data.has FILE_ATTRIBUTE_REPARSE_POINT && !o.follow_reparse_points) = false ∧
    data.name ≠ [dot] ∧ data.name ≠ [dot, dot]

/-- The cluster size in effect in a directory, a power of two, or that of the directory above where
    the system does not tell. -/
def ClusterIn (os : Windows) (path : List BYTE) (above cluster : Nat) : Prop :=
  match os.GetDiskFreeSpace (some path) with
  | some (dwSectorsPerCluster, dwBytesPerSector) =>
    cluster = dwSectorsPerCluster.toNat * dwBytesPerSector.toNat ∧ ∃ k, cluster = 2 ^ k
  | none => cluster = above

/-- The files that are met from the entries of a directory on, in their order: plain files that can
    be opened, in a finite tree whose paths fit the buffer. -/
inductive Walk (os : Windows) (o : Options) :
    List BYTE → Nat → List WIN32_FIND_DATA → List Visit → Prop
  | nil {path cluster} : Walk os o path cluster [] []
  | file {path cluster data rest visits info}
      (file : data.has FILE_ATTRIBUTE_DIRECTORY = false)
      (plain : data.has (FILE_ATTRIBUTE_COMPRESSED ||| FILE_ATTRIBUTE_SPARSE_FILE) = false)
      (fits : data.name.length + path.length < sizeofFile)
      (opened : os.GetFileInformation (path ++ data.name) = some info)
      (walk : Walk os o path cluster rest visits) :
      Walk os o path cluster (data :: rest) (⟨info, data.size, cluster⟩ :: visits)
  | passed {path cluster data rest visits}
      (directory : data.has FILE_ATTRIBUTE_DIRECTORY = true)
      (passed : ¬ Entered o data)
      (walk : Walk os o path cluster rest visits) :
      Walk os o path cluster (data :: rest) visits
  | directory {path cluster data rest visits inner found}
      (directory : data.has FILE_ATTRIBUTE_DIRECTORY = true)
      (entered : Entered o data)
      (fits : data.name.length + 13 + path.length < sizeofFile)
      (clusters : ClusterIn os (path ++ (data.name ++ [backslash])) cluster inner)
      (below : Walk os o (path ++ (data.name ++ [backslash])) inner
        (os.FindFirst (path ++ (data.name ++ [backslash]) ++ [star])) found)
      (walk : Walk os o path cluster rest visits) :
      Walk os o path cluster (data :: rest) (found ++ visits)

/-! ### The size of a file on the disk -/

theorem shifts_two_pow (k : Nat) : shifts (2 ^ k) = k := by
  induction k with
  | zero =>
    rw [shifts]
    rfl
  | succ k ih =>
    have half : 2 ^ (k + 1) >>> 1 = 2 ^ k := by
      rw [Nat.shiftRight_eq_div_pow, Nat.pow_succ, Nat.mul_div_cancel _ Nat.two_pos]
    have positive : 2 ^ k ≠ 0 := Nat.two_pow_pos k |>.ne'
    rw [shifts, half, if_neg positive, ih]

theorem mask_lt {dwSectorsPerCluster dwBytesPerSector : DWORD} {k : Nat}
    (power : dwSectorsPerCluster.toNat * dwBytesPerSector.toNat = 2 ^ k) : k < 64 := by
  have bound : 2 ^ k < 2 ^ 32 * 2 ^ 32 := by
    rw [← power]
    exact Nat.mul_lt_mul'' dwSectorsPerCluster.isLt dwBytesPerSector.isLt
  rw [← Nat.pow_add] at bound
  exact (Nat.pow_lt_pow_iff_right (by decide)).mp bound

theorem allocated_pow (file : BY_HANDLE_FILE_INFORMATION) (size k : Nat) :
    ((Visit.allocated ⟨file, size, 2 ^ k⟩ : Nat) : Int) = (((size : Int) - 1) / 2 ^ k + 1) * 2 ^ k := by
  have positive : (2 ^ k : Int) ≠ 0 := by positivity
  have one : 1 ≤ size + 2 ^ k := Nat.le_trans Nat.one_le_two_pow (Nat.le_add_left _ _)
  have shift : ((size : Int) + 2 ^ k - 1) / 2 ^ k = ((size : Int) - 1) / 2 ^ k + 1 := by
    rw [show (size : Int) + 2 ^ k - 1 = (size : Int) - 1 + 1 * 2 ^ k by ring,
      Int.add_mul_ediv_right _ _ positive]
  rw [Visit.allocated, ← shift]
  push_cast [Nat.cast_sub one]
  rfl

theorem shiftLeft_ofInt (n : Int) (k : Nat) :
    BitVec.ofInt 64 n <<< k = BitVec.ofInt 64 (n * 2 ^ k) := by
  have power : BitVec.twoPow 64 k = BitVec.ofNat 64 (2 ^ k) := by
    apply BitVec.eq_of_toNat_eq
    rw [BitVec.toNat_twoPow, BitVec.toNat_ofNat]
  rw [BitVec.shiftLeft_eq_mul_twoPow, power, ← BitVec.ofInt_natCast, ← BitVec.ofInt_mul]
  push_cast
  rfl

theorem sub_one_toInt (filesize : BitVec 64) :
    ∃ j, (filesize - 1).toInt = (filesize.toNat : Int) - 1 + 2 ^ 64 * j := by
  have same : filesize - 1 = BitVec.ofInt 64 ((filesize.toNat : Int) + -1) := by
    have minus : BitVec.ofInt 64 (-1) = -1 := by decide
    rw [BitVec.ofInt_add, BitVec.ofInt_natCast, BitVec.ofNat_toNat, BitVec.setWidth_eq, minus,
      BitVec.sub_eq_add_neg]
  refine ⟨-((filesize.toNat : Int) + -1).bdiv (2 ^ 64), ?_⟩
  have split := Int.bmod_add_bdiv ((filesize.toNat : Int) + -1) (2 ^ 64)
  rw [same, BitVec.toInt_ofInt]
  omega

/-- The rounding in signed numbers is right for all sizes, up to a multiple of 2^64. -/
theorem rounded_eq (file : BY_HANDLE_FILE_INFORMATION) (filesize : BitVec 64) {k : Nat}
    (below : k < 64) :
    rounded filesize k = BitVec.ofNat 64 (Visit.allocated ⟨file, filesize.toNat, 2 ^ k⟩) := by
  obtain ⟨j, value⟩ := sub_one_toInt filesize
  -- what the sign makes of the number is a multiple of 2^64, and so of 2^k
  have positive : (2 ^ k : Int) ≠ 0 := by positivity
  have whole : (2 ^ 64 : Int) = 2 ^ k * 2 ^ (64 - k) := by
    rw [← pow_add, Nat.add_sub_of_le (Nat.le_of_lt below)]
  have shifted : (filesize - 1).sshiftRight k =
      BitVec.ofInt 64 (((filesize.toNat : Int) - 1) / 2 ^ k + 2 ^ (64 - k) * j) := by
    rw [← @BitVec.ofInt_toInt _ ((filesize - 1).sshiftRight k), BitVec.toInt_sshiftRight,
      Int.shiftRight_eq_div_pow, value, whole, mul_assoc]
    push_cast
    rw [Int.add_mul_ediv_left _ _ positive]
  have multiple (n : Int) : (n + 2 ^ (64 - k) * j + 1) * 2 ^ k = (n + 1) * 2 ^ k + j * (2 ^ 64 : Nat) := by
    have modulus : ((2 ^ 64 : Nat) : Int) = 2 ^ k * 2 ^ (64 - k) := whole
    rw [modulus]
    ring
  rw [← BitVec.ofInt_natCast, allocated_pow, rounded, shifted, show (1 : BitVec 64) = BitVec.ofInt 64 1 from rfl, ← BitVec.ofInt_add,
    shiftLeft_ofInt, multiple]
  apply BitVec.eq_of_toInt_eq
  rw [BitVec.toInt_ofInt, BitVec.toInt_ofInt, Int.add_mul_bmod_self_right]

/-! ### The run over what is reached -/

/-- The part of the index that the table keeps. -/
def number (info : BY_HANDLE_FILE_INFORMATION) : FileTableClass :=
  ⟨(info.nFileIndexHigh &&& 0xffff) ++ info.nFileIndexLow, info.dwVolumeSerialNumber⟩

/-- Among some files, the table holds those that have been seen. -/
def Recorded (table : FileHashTable) (files : Set BY_HANDLE_FILE_INFORMATION)
    (seen : Finset BY_HANDLE_FILE_INFORMATION) : Prop :=
  ∀ info ∈ files, Holds table (number info) ↔ info ∈ seen

structure InBuffer (file : Cells BYTE) (path : List BYTE) : Prop where
  cells : file.read 0 path.length = path
  clean : ∀ c ∈ path, c ≠ 0

section

variable {table : FileHashTable} {files : Set BY_HANDLE_FILE_INFORMATION}
  {seen : Finset BY_HANDLE_FILE_INFORMATION} {info : BY_HANDLE_FILE_INFORMATION}

theorem FindOrAdd_recorded (distinct : Set.InjOn number files) (mem : info ∈ files)
    (recorded : Recorded table files seen) :
    ∃ later, FindOrAdd info.nFileIndexLow (info.nFileIndexHigh &&& 0xffff) info.dwVolumeSerialNumber
        table = (decide (info ∈ seen), later) ∧ Recorded later files (insert info seen) := by
  by_cases already : info ∈ seen
  · have held : Holds table (number info) := (recorded info mem).mpr already
    rw [FindOrAdd_held held, Finset.insert_eq_of_mem already]
    exact ⟨table, by rw [decide_eq_true already], recorded⟩
  · have new : ¬ Holds table (number info) := fun held => already ((recorded info mem).mp held)
    rw [FindOrAdd_new new]
    refine ⟨_, by rw [decide_eq_false already], ?_⟩
    intro other other_mem
    have added := @Holds_added table (number info) (number other)
    rw [Finset.mem_insert, ← recorded other other_mem, ← distinct.eq_iff other_mem mem]
    exact added

end

section

variable {file : Cells BYTE} {path name : List BYTE}

theorem InBuffer.write (there : InBuffer file path) (name : List BYTE) :
    InBuffer (file.write path.length name) path := by
  refine ⟨?_, there.clean⟩
  rw [Cells.read_write_before _ _ (Nat.le_of_eq (Nat.zero_add _)), there.cells]

theorem InBuffer.front (there : InBuffer file (path ++ name)) : InBuffer file path := by
  refine ⟨?_, fun c mem => there.clean c (List.mem_append_left _ mem)⟩
  have cells := there.cells
  exact (Cells.read_append cells).1

theorem InBuffer.of_holds (holds : Cells.Holds file sizeofFile 0 path) : InBuffer file path := by
  have size : path.length + 1 = (path ++ [0]).length := by
    rw [List.length_append]
    rfl
  have cells := holds.cells
  rw [size] at cells
  exact ⟨(Cells.read_append cells).1, holds.clean⟩

/-- A name that is written behind the path makes a longer one. -/
theorem InBuffer.holds (there : InBuffer file path) (clean : ∀ c ∈ name, c ≠ 0)
    (fits : path.length + name.length < sizeofFile) :
    Cells.Holds (file.write path.length (name ++ [0])) sizeofFile 0 (path ++ name) := by
  have size : (path ++ name).length + 1 = path.length + (name ++ [0]).length := by
    rw [List.length_append, List.length_append, Nat.add_assoc]
    rfl
  have cells := Cells.read_write_append file (name ++ [0]) 0 path.length
  rw [Nat.zero_add, there.cells, ← size, ← List.append_assoc] at cells
  refine ⟨cells, ?_, by rw [Nat.zero_add, List.length_append]; exact fits⟩
  intro c mem
  rcases List.mem_append.mp mem with mem | mem
  · exact there.clean c mem
  · exact clean c mem

theorem clean_backslash (clean : ∀ c ∈ name, c ≠ 0) : ∀ c ∈ name ++ [backslash], c ≠ 0 := by
  intro c mem
  rcases List.mem_append.mp mem with mem | mem
  · exact clean c mem
  · rw [List.mem_singleton.mp mem]
    decide

end

/-- What a part of the run leaves that has met some files: the path as it was, the table with them
    and the total with what they add to it. -/
structure Outcome (path : List BYTE) (files : Set BY_HANDLE_FILE_INFORMATION)
    (seen : Finset BY_HANDLE_FILE_INFORMATION) (visits : List Visit) (s after : State) : Prop where
  path : InBuffer after.file path
  table : Recorded after.FileHashTable files (seen ∪ FirstMet.keys Visit.file visits)
  total : after.TotalFileSize =
    s.TotalFileSize + BitVec.ofNat 64 (FirstMet.total Visit.file Visit.allocated seen visits)

section

variable {os : Windows} {o : Options} {path : List BYTE} {files : Set BY_HANDLE_FILE_INFORMATION}
  {seen : Finset BY_HANDLE_FILE_INFORMATION} {visits more : List Visit} {s s' after : State}
  {data : WIN32_FIND_DATA}

theorem name_clean (data : WIN32_FIND_DATA) : ∀ c ∈ data.name, c ≠ 0 :=
  fun _ mem zero => data.cFileName.property (zero ▸ mem)

theorem Outcome.nil (there : InBuffer s.file path) (recorded : Recorded s.FileHashTable files seen) :
    Outcome path files seen [] s s := by
  refine ⟨there, ?_, ?_⟩
  · rw [FirstMet.keys_nil, Finset.union_empty]
    exact recorded
  · rw [FirstMet.total_nil]
    exact (BitVec.add_zero _).symm

theorem Outcome.append (first : Outcome path files seen visits s s')
    (second : Outcome path files (seen ∪ FirstMet.keys Visit.file visits) more s' after) :
    Outcome path files seen (visits ++ more) s after := by
  refine ⟨second.path, ?_, ?_⟩
  · rw [FirstMet.keys_append, ← Finset.union_assoc]
    exact second.table
  · rw [second.total, first.total, FirstMet.total_append, BitVec.add_assoc, BitVec.ofNat_add]

/-- A plain file that can be opened is counted unless it has been seen. -/
theorem countFile_spec {info : BY_HANDLE_FILE_INFORMATION} {k : Nat} (below : k < 64)
    (distinct : Set.InjOn number files) (mem : info ∈ files)
    (plain : data.has (FILE_ATTRIBUTE_COMPRESSED ||| FILE_ATTRIBUTE_SPARSE_FILE) = false)
    (fits : data.name.length + path.length < sizeofFile)
    (opened : os.GetFileInformation (path ++ data.name) = some info)
    (there : InBuffer s.file path) (recorded : Recorded s.FileHashTable files seen) :
    Outcome path files seen [⟨info, data.size, 2 ^ k⟩] s (countFile os data path.length k s) := by
  have text := (there.holds (name_clean data) (by omega)).textAt
  obtain ⟨later, run, records⟩ := FindOrAdd_recorded distinct mem recorded
  have records_ : Recorded later files
      (seen ∪ FirstMet.keys Visit.file [⟨info, data.size, 2 ^ k⟩]) := by
    rw [FirstMet.keys_cons, FirstMet.keys_nil, Finset.union_insert, Finset.union_empty]
    exact records
  rw [countFile, if_neg (Nat.not_le.mpr fits)]
  simp only [text, opened, run, plain, decide_eq_true_eq, Bool.false_eq_true, if_false]
  by_cases already : info ∈ seen
  · rw [if_pos already]
    refine ⟨there.write _, records_, ?_⟩
    rw [FirstMet.total_cons_seen _ _ already, FirstMet.total_nil]
    exact (BitVec.add_zero _).symm
  · rw [if_neg already]
    refine ⟨there.write _, records_, ?_⟩
    rw [FirstMet.total_cons_new _ _ already, FirstMet.total_nil]
    exact congrArg (s.TotalFileSize + ·) (rounded_eq info _ below)

theorem directory_eq {above cluster mask : Nat} (there : InBuffer s.file path)
    (text : s.file.textAt sizeofFile 0 = path) (fits : path.length + 1 < sizeofFile)
    (clusters : ClusterIn os path above cluster) (mask_eq : above = 2 ^ mask) (below : mask < 64) :
    ∃ k, k < 64 ∧ cluster = 2 ^ k ∧
      directory os o path.length mask s =
        directoryLoop os o (os.FindFirst (path ++ [star])) path.length k
          { s with file := s.file.write path.length ([star] ++ [0]) } := by
  have pattern := (@InBuffer.holds s.file path [star] there (by decide) fits).textAt
  rw [directory, text, show [star, 0] = [star] ++ [0] from rfl, pattern]
  rw [ClusterIn] at clusters
  rcases answer : os.GetDiskFreeSpace (some path) with - | ⟨dwSectorsPerCluster, dwBytesPerSector⟩
  · rw [answer] at clusters
    exact ⟨mask, below, clusters.trans mask_eq, rfl⟩
  · rw [answer] at clusters
    obtain ⟨product, k, power⟩ := clusters
    refine ⟨k, mask_lt (product.symm.trans power), power, ?_⟩
    dsimp only
    rw [← product, power, shifts_two_pow]

theorem directory_walk {above cluster mask : Nat} (there : InBuffer s.file path)
    (text : s.file.textAt sizeofFile 0 = path) (fits : path.length + 1 < sizeofFile)
    (clusters : ClusterIn os path above cluster) (mask_eq : above = 2 ^ mask) (below : mask < 64)
    (recorded : Recorded s.FileHashTable files seen)
    (loop : ∀ (k : Nat) (s : State), cluster = 2 ^ k → k < 64 → InBuffer s.file path →
      Recorded s.FileHashTable files seen →
      Outcome path files seen visits s
        (directoryLoop os o (os.FindFirst (path ++ [star])) path.length k s)) :
    Outcome path files seen visits s (directory os o path.length mask s) := by
  obtain ⟨k, inner, power, run⟩ := @directory_eq os o path s above cluster mask there text fits
    clusters mask_eq below
  have found := loop k { s with file := s.file.write path.length ([star] ++ [0]) } power inner
    (there.write _) recorded
  rw [run]
  exact ⟨found.path, found.table, found.total⟩

/-- The run over the entries of a directory counts the files that are met for the first time. -/
theorem directoryLoop_walk (counting : o.count_files = false) (distinct : Set.InjOn number files)
    {cluster : Nat} {entries : List WIN32_FIND_DATA} (walk : Walk os o path cluster entries visits) :
    ∀ (k : Nat) (s : State) (seen : Finset BY_HANDLE_FILE_INFORMATION), cluster = 2 ^ k → k < 64 →
      (∀ visit ∈ visits, visit.file ∈ files) → InBuffer s.file path →
      Recorded s.FileHashTable files seen →
      Outcome path files seen visits s (directoryLoop os o entries path.length k s) := by
  induction walk with
  | nil =>
    intro k s seen _ _ _ there recorded
    rw [directoryLoop]
    exact Outcome.nil there recorded
  | file isFile plain fits opened walk ih =>
    intro k s seen power below mem there recorded
    rw [directoryLoop, isFile, if_neg Bool.false_ne_true, counting, if_neg Bool.false_ne_true]
    have counted := countFile_spec below distinct (mem _ List.mem_cons_self) plain fits opened there
      recorded
    rw [← power] at counted
    exact counted.append (ih k _ _ power below (fun visit more => mem visit (List.mem_cons_of_mem _ more))
      counted.path counted.table)
  | passed isDirectory passed walk ih =>
    intro k s seen power below mem there recorded
    have skipped := ih k s seen power below mem there recorded
    rw [directoryLoop, if_pos isDirectory]
    split
    · exact skipped
    · next followed =>
      split
      · next named =>
        have ⟨here, above⟩ := Bool.and_eq_true_iff.mp named
        refine absurd ⟨Bool.eq_false_iff.mpr followed, ?_, ?_⟩ passed
        · exact of_decide_eq_true here
        · exact of_decide_eq_true above
      · exact skipped
  | @directory path _ data rest _ _ _ isDirectory entered fits clusters walkBelow walk ihBelow ih =>
    intro k s seen power below mem there recorded
    obtain ⟨followed, here, above⟩ := entered
    have size : (data.name ++ [backslash]).length = data.name.length + 1 := List.length_append
    have holds := there.holds (clean_backslash (name_clean data)) (by omega)
    have inside := InBuffer.of_holds holds
    have entered_ := @directory_walk os o (path ++ (data.name ++ [backslash])) files seen _
      ⟨s.file.write path.length (data.name ++ [backslash] ++ [0]), s.FileHashTable, s.TotalFileSize⟩
      _ _ k inside holds.textAt (by rw [List.length_append]; omega) clusters power below recorded
      fun inner s power below => ihBelow inner s seen power below
        fun visit member => mem visit (List.mem_append_left _ member)
    have counted : Outcome path files seen _ s _ :=
      ⟨entered_.path.front, entered_.table, entered_.total⟩
    rw [directoryLoop, if_pos isDirectory, followed, if_neg Bool.false_ne_true,
      if_pos (Bool.and_eq_true_iff.mpr ⟨decide_eq_true here, decide_eq_true above⟩),
      if_neg (Nat.not_le.mpr fits), ← List.length_append,
      show data.name ++ [backslash, 0] = data.name ++ [backslash] ++ [0] by simp]
    exact counted.append (ih k _ _ power below
      (fun visit member => mem visit (List.mem_append_right _ member)) counted.path counted.table)

end

end Sizeof
