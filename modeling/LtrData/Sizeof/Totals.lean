import LtrData.Sizeof.Directory

namespace Sizeof

def slash : BYTE := 47

def strrchr (text : List BYTE) (c : BYTE) : Option Nat :=
  if c ∈ text then some (text.length - 1 - text.reverse.idxOf c) else none

/-- An argument with its last slash turned. -/
def converted (argv : CString) : List BYTE :=
  match strrchr argv.val slash with
  | some place => argv.val.set place backslash
  | none => argv.val

def filepart (text : List BYTE) : Nat :=
  match strrchr text backslash with
  | some place => place + 1
  | none => 0

def specialdirnode (text : List BYTE) : Option (List BYTE) :=
  if text.drop (filepart text) = [dot] then some [dot]
  else if text.drop (filepart text) = [dot, dot] then some [dot, dot]
  else none

/-- A line of the output: the path and the total in bytes. -/
abbrev Printed := List BYTE × Int

section

variable (os : Windows) (o : Options)

/-- The loop over what is found for an argument. Behind a path that is too long one entry more is
    left out. -/
def mainLoop (entries : List WIN32_FIND_DATA) (filepart dwClusterMask : Nat)
    (specialdirnode : Option (List BYTE)) (s : State) : List Printed × State :=
  match entries with
  | [] => ([], s)
  | finder :: rest =>
    if finder.name = [dot] || finder.name = [dot, dot] then
      mainLoop rest filepart dwClusterMask specialdirnode s
    else
      let name := specialdirnode.getD finder.name
      let cut := s.file.write filepart [0]
      if (cut.textAt sizeofFile 0).length + name.length ≥ sizeofFile then
        -- Next is called here, and once more where the loop goes on
        mainLoop (rest.drop 1) filepart dwClusterMask specialdirnode { s with file := cut }
      else
        let file := cut.write filepart (name ++ [0])
        let path := file.textAt sizeofFile 0
        let print := fun (s : State) =>
          let (lines, after) := mainLoop rest filepart dwClusterMask specialdirnode s
          ((path, s.TotalFileSize.toInt) :: lines, after)
        if finder.has FILE_ATTRIBUTE_DIRECTORY then
          if path.length + 13 ≥ sizeofFile then
            mainLoop (rest.drop 1) filepart dwClusterMask specialdirnode { s with file := file }
          else
            let file := file.write filepart (name ++ [backslash, 0])
            print (directory os o (filepart + (name ++ [backslash]).length) dwClusterMask
              ⟨file, s.FileHashTable, 0⟩)
        else if o.count_files then print ⟨file, s.FileHashTable, 1⟩
        else if finder.has (FILE_ATTRIBUTE_COMPRESSED ||| FILE_ATTRIBUTE_SPARSE_FILE) then
          match os.GetCompressedFileSize path with
          | some size => print ⟨file, s.FileHashTable, size⟩
          | none => mainLoop rest filepart dwClusterMask specialdirnode { s with file := file }
        else
          let size := finder.nFileSizeHigh ++ finder.nFileSizeLow
          print ⟨file, s.FileHashTable, rounded size dwClusterMask⟩
termination_by entries.length
decreasing_by
  all_goals simp only [List.length_cons, List.length_drop]
  all_goals omega

/-- What main does with an argument, none where it returns -1. -/
def argument (argv : CString) (s : State) : Option (List Printed × State) :=
  if argv.val.length > sizeofFile then some ([], s)
  else
    let text := converted argv
    let s := { s with file := s.file.write 0 (text ++ [0]) }
    match os.FindFirst text with
    | [] => some ([], s)
    | entries =>
      let s := { s with file := s.file.write (filepart text) [0] }
      match os.GetDiskFreeSpace (some (s.file.textAt sizeofFile 0)) <|> os.GetDiskFreeSpace none with
      | none => none
      | some (dwSectorsPerCluster, dwBytesPerSector) =>
        some (mainLoop os o entries (filepart text)
          (shifts (dwSectorsPerCluster.toNat * dwBytesPerSector.toNat)) (specialdirnode text) s)

def main : List CString → State → List Printed
  | [], _ => []
  | argv :: rest, s =>
    match argument os o argv s with
    | none => []
    | some (lines, s) => lines ++ main rest s

end

def start : State := ⟨fun _ => 0, fun _ => [], 0⟩

/-! ### The totals that should be printed -/

/-- The files met below the directories that are found for an argument. -/
inductive Directories (os : Windows) (o : Options) (path : List BYTE) (above : Nat)
    (specialdirnode : Option (List BYTE)) : List WIN32_FIND_DATA → List (List Visit) → Prop
  | nil : Directories os o path above specialdirnode [] []
  | dots {data rest founds}
      (dots : data.name = [dot] ∨ data.name = [dot, dot])
      (directories : Directories os o path above specialdirnode rest founds) :
      Directories os o path above specialdirnode (data :: rest) founds
  | directory {data rest founds name cluster visits}
      (directory : data.has FILE_ATTRIBUTE_DIRECTORY = true)
      (named : data.name ≠ [dot] ∧ data.name ≠ [dot, dot])
      (called : name = specialdirnode.getD data.name)
      (fits : path.length + name.length + 13 < sizeofFile)
      (clusters : ClusterIn os (path ++ (name ++ [backslash])) above cluster)
      (walk : Walk os o (path ++ (name ++ [backslash])) cluster
        (os.FindFirst (path ++ (name ++ [backslash]) ++ [star])) visits)
      (directories : Directories os o path above specialdirnode rest founds) :
      Directories os o path above specialdirnode (data :: rest) (visits :: founds)

/-- The cluster size in effect where the directory of an argument stands, or else on the current
    drive. -/
def TopCluster (os : Windows) (path : List BYTE) (above : Nat) : Prop :=
  match os.GetDiskFreeSpace (some path) <|> os.GetDiskFreeSpace none with
  | some (dwSectorsPerCluster, dwBytesPerSector) =>
    above = dwSectorsPerCluster.toNat * dwBytesPerSector.toNat ∧ ∃ k, above = 2 ^ k
  | none => False

/-- An argument that names directories, with the files met below each of them. -/
def Argument (os : Windows) (o : Options) (argv : CString) (founds : List (List Visit)) : Prop :=
  argv.val.length < sizeofFile ∧
    ∃ above, TopCluster os ((converted argv).take (filepart (converted argv))) above ∧
      Directories os o ((converted argv).take (filepart (converted argv))) above
        (specialdirnode (converted argv)) (os.FindFirst (converted argv)) founds

def reached (founds : List (List Visit)) : Set BY_HANDLE_FILE_INFORMATION :=
  {info | ∃ visits ∈ founds, ∃ visit ∈ visits, visit.file = info}

/-- The sum for the directory j of a run over the distinct files below it that are not counted
    earlier. -/
def expected (founds : List (List Visit)) (j : Nat) (visits : List Visit) : Nat :=
  FirstMet.total Visit.file Visit.allocated (FirstMet.keys Visit.file (founds.take j).flatten) visits

/-- The totals of the directories of a run, from the files seen before on. -/
def totals (seen : Finset BY_HANDLE_FILE_INFORMATION) : List (List Visit) → List Int
  | [] => []
  | visits :: rest =>
    (BitVec.ofNat 64 (FirstMet.total Visit.file Visit.allocated seen visits)).toInt ::
      totals (seen ∪ FirstMet.keys Visit.file visits) rest

theorem totals_append (seen : Finset BY_HANDLE_FILE_INFORMATION) (founds more : List (List Visit)) :
    totals seen (founds ++ more) =
      totals seen founds ++ totals (seen ∪ FirstMet.keys Visit.file founds.flatten) more := by
  induction founds generalizing seen with
  | nil => simp [totals]
  | cons visits founds ih =>
    rw [List.cons_append, totals, totals, ih, List.cons_append, List.flatten_cons,
      FirstMet.keys_append, Finset.union_assoc]

theorem length_totals (seen : Finset BY_HANDLE_FILE_INFORMATION) (founds : List (List Visit)) :
    (totals seen founds).length = founds.length := by
  induction founds generalizing seen with
  | nil => rfl
  | cons visits founds ih => rw [totals, List.length_cons, List.length_cons, ih]

theorem getElem_totals {founds : List (List Visit)} {j : Nat} {visits : List Visit}
    (found : founds[j]? = some visits) (seen : Finset BY_HANDLE_FILE_INFORMATION) :
    (totals seen founds)[j]? = some (BitVec.ofNat 64 (FirstMet.total Visit.file Visit.allocated
      (seen ∪ FirstMet.keys Visit.file (founds.take j).flatten) visits)).toInt := by
  induction founds generalizing j seen with
  | nil => cases found
  | cons first founds ih =>
    cases j with
    | zero =>
      cases found
      simp [totals]
    | succ j =>
      rw [List.getElem?_cons_succ] at found
      rw [totals, List.getElem?_cons_succ, ih found, List.take_succ_cons, List.flatten_cons,
        FirstMet.keys_append, Finset.union_assoc]

/-! ### The arguments in the buffer -/

theorem strrchr_lt {text : List BYTE} {c : BYTE} {place : Nat} (found : strrchr text c = some place) :
    place < text.length := by
  rw [strrchr] at found
  split at found
  · next mem =>
    cases found
    have some_ := List.length_pos_of_mem mem
    omega
  · cases found

theorem filepart_le (text : List BYTE) : filepart text ≤ text.length := by
  rw [filepart]
  split
  · next found => exact strrchr_lt found
  · exact Nat.zero_le _

theorem length_converted (argv : CString) : (converted argv).length = argv.val.length := by
  rw [converted]
  split
  · exact List.length_set
  · rfl

theorem converted_clean (argv : CString) : ∀ c ∈ converted argv, c ≠ 0 := by
  have clean : ∀ c ∈ argv.val, c ≠ 0 := fun c mem zero => argv.property (zero ▸ mem)
  rw [converted]
  split
  · intro c mem
    rcases List.mem_or_eq_of_mem_set mem with mem | same
    · exact clean c mem
    · rw [same]
      decide
  · exact clean

theorem specialdirnode_clean {text name : List BYTE} (special : specialdirnode text = some name) :
    ∀ c ∈ name, c ≠ 0 := by
  rw [specialdirnode] at special
  split at special
  · cases special
    decide
  · split at special
    · cases special
      decide
    · cases special

theorem front_holds (argv : CString) (file : Cells BYTE) (fits : argv.val.length < sizeofFile) :
    Cells.Holds ((file.write 0 (converted argv ++ [0])).write (filepart (converted argv)) [0])
      sizeofFile 0 ((converted argv).take (filepart (converted argv))) := by
  have whole := @Cells.holds_write BYTE _ _ sizeofFile 0 file (converted argv ++ [0])
    (List.mem_append_right _ (List.mem_singleton_self 0))
    (by rw [List.length_append, length_converted, Nat.zero_add]; exact fits)
  rw [Cells.takeWhile_text (converted_clean argv)] at whole
  have cut := whole.cut (filepart_le (converted argv))
  rw [Nat.zero_add] at cut
  exact cut

/-! ### The run over the arguments -/

section

variable {os : Windows} {o : Options} {files : Set BY_HANDLE_FILE_INFORMATION}

structure Printing (files : Set BY_HANDLE_FILE_INFORMATION) (seen : Finset BY_HANDLE_FILE_INFORMATION)
    (founds : List (List Visit)) (lines : List Printed) (after : State) : Prop where
  lines : lines.map Prod.snd = totals seen founds
  table : Recorded after.FileHashTable files (seen ∪ FirstMet.keys Visit.file founds.flatten)

theorem Printing.nil {seen : Finset BY_HANDLE_FILE_INFORMATION} {s : State}
    (recorded : Recorded s.FileHashTable files seen) : Printing files seen [] [] s := by
  refine ⟨rfl, ?_⟩
  rw [List.flatten_nil, FirstMet.keys_nil, Finset.union_empty]
  exact recorded

theorem Printing.append {seen : Finset BY_HANDLE_FILE_INFORMATION} {founds more : List (List Visit)}
    {lines others : List Printed} {s after : State} (first : Printing files seen founds lines s)
    (second : Printing files (seen ∪ FirstMet.keys Visit.file founds.flatten) more others after) :
    Printing files seen (founds ++ more) (lines ++ others) after := by
  constructor
  · rw [List.map_append, totals_append, first.lines, second.lines]
  · rw [List.flatten_append, FirstMet.keys_append, ← Finset.union_assoc]
    exact second.table

/-- The buffer with a directory's name behind the path. -/
def named (file : Cells BYTE) (filepart : Nat) (name : List BYTE) : Cells BYTE :=
  ((file.write filepart [0]).write filepart (name ++ [0])).write filepart (name ++ [backslash] ++ [0])

theorem mainLoop_round {path name : List BYTE} {s : State} {data : WIN32_FIND_DATA}
    {special : Option (List BYTE)} (there : InBuffer s.file path) (clean : ∀ c ∈ name, c ≠ 0)
    (isDirectory : data.has FILE_ATTRIBUTE_DIRECTORY = true)
    (other : data.name ≠ [dot] ∧ data.name ≠ [dot, dot]) (called : name = special.getD data.name)
    (fits : path.length + name.length + 13 < sizeofFile) (rest : List WIN32_FIND_DATA) (mask : Nat) :
    ∃ line, mainLoop os o (data :: rest) path.length mask special s =
      (let after := directory os o (path ++ (name ++ [backslash])).length mask
        ⟨named s.file path.length name, s.FileHashTable, 0⟩
      ((line, after.TotalFileSize.toInt) :: (mainLoop os o rest path.length mask special after).1,
        (mainLoop os o rest path.length mask special after).2)) := by
  have cut := (@InBuffer.holds s.file path [] there nofun (by rw [List.length_nil]; omega)).textAt
  rw [List.nil_append, List.append_nil] at cut
  have whole := ((there.write [0]).holds clean (by omega)).textAt
  have unnamed : ¬ (decide (data.name = [dot]) || decide (data.name = [dot, dot])) = true := by
    intro either
    rcases Bool.or_eq_true_iff.mp either with here | above
    · exact other.1 (of_decide_eq_true here)
    · exact other.2 (of_decide_eq_true above)
  have short : ¬ path.length + name.length ≥ sizeofFile := by omega
  have short_ : ¬ (path ++ name).length + 13 ≥ sizeofFile := by
    rw [List.length_append]
    omega
  refine ⟨path ++ name, ?_⟩
  rw [mainLoop, if_neg unnamed, ← called]
  dsimp only
  rw [cut, if_neg short, whole, if_pos isDirectory, if_neg short_, ← List.length_append,
    show name ++ [backslash, 0] = name ++ [backslash] ++ [0] by simp, named]

theorem mainLoop_directories (distinct : Set.InjOn number files) (counting : o.count_files = false)
    {path : List BYTE} {above mask : Nat} (power : above = 2 ^ mask) (below : mask < 64)
    {special : Option (List BYTE)} (clean : ∀ name, special = some name → ∀ c ∈ name, c ≠ 0)
    {entries : List WIN32_FIND_DATA} {founds : List (List Visit)}
    (directories : Directories os o path above special entries founds) :
    ∀ (s : State) (seen : Finset BY_HANDLE_FILE_INFORMATION), InBuffer s.file path →
      (∀ visits ∈ founds, ∀ visit ∈ visits, visit.file ∈ files) →
      Recorded s.FileHashTable files seen →
      Printing files seen founds (mainLoop os o entries path.length mask special s).1
        (mainLoop os o entries path.length mask special s).2 := by
  induction directories with
  | nil =>
    intro s seen _ _ recorded
    rw [mainLoop]
    exact Printing.nil recorded
  | dots dots directories ih =>
    intro s seen there mem recorded
    have passed : (_ || _) = true := Bool.or_eq_true_iff.mpr (dots.imp decide_eq_true decide_eq_true)
    rw [mainLoop, if_pos passed]
    exact ih s seen there mem recorded
  | @directory data rest founds name cluster visits isDirectory others called fits clusters walk
      directories ih =>
    intro s seen there mem recorded
    have clean_name : ∀ c ∈ name, c ≠ 0 := by
      rw [called]
      cases special with
      | none => exact name_clean data
      | some name => exact clean name rfl
    have size : (name ++ [backslash]).length = name.length + 1 := List.length_append
    have holds := ((there.write [0]).write (name ++ [0])).holds (clean_backslash clean_name) (by omega)
    have counted := @directory_walk os o (path ++ (name ++ [backslash])) files seen visits
      ⟨named s.file path.length name, s.FileHashTable, 0⟩ above cluster mask
      (InBuffer.of_holds holds) holds.textAt (by rw [List.length_append]; omega) clusters power below recorded
      fun k s power below there recorded => directoryLoop_walk counting distinct walk k s seen power
        below (mem visits List.mem_cons_self) there recorded
    obtain ⟨line, run⟩ := @mainLoop_round os o path name s data special there clean_name isDirectory
      others called fits rest mask
    have later := ih _ _ counted.path.front (fun found member => mem found (List.mem_cons_of_mem _ member))
      counted.table
    rw [run]
    constructor
    · rw [List.map_cons, later.lines, totals, counted.total]
      exact congrArg (fun total : BitVec 64 => total.toInt :: _) (BitVec.zero_add _)
    · rw [List.flatten_cons, FirstMet.keys_append, ← Finset.union_assoc]
      exact later.table

theorem argument_directories (distinct : Set.InjOn number files) (counting : o.count_files = false)
    {argv : CString} {founds : List (List Visit)} (named : Argument os o argv founds) {s : State}
    {seen : Finset BY_HANDLE_FILE_INFORMATION}
    (mem : ∀ visits ∈ founds, ∀ visit ∈ visits, visit.file ∈ files)
    (recorded : Recorded s.FileHashTable files seen) :
    ∃ lines after, argument os o argv s = some (lines, after) ∧
      Printing files seen founds lines after := by
  obtain ⟨fits, above, top, directories⟩ := named
  rw [argument, if_neg (Nat.not_lt.mpr (Nat.le_of_lt fits))]
  dsimp only
  rcases entries : os.FindFirst (converted argv) with - | ⟨data, rest⟩
  · rw [entries] at directories
    cases directories
    exact ⟨[], _, rfl, Printing.nil recorded⟩
  · have holds := front_holds argv s.file fits
    have front : ((converted argv).take (filepart (converted argv))).length =
        filepart (converted argv) := List.length_take_of_le (filepart_le _)
    have special : ∀ name, specialdirnode (converted argv) = some name → ∀ c ∈ name, c ≠ 0 :=
      fun name special => specialdirnode_clean special
    dsimp only
    rw [holds.textAt]
    rw [TopCluster] at top
    rcases answer : os.GetDiskFreeSpace (some ((converted argv).take (filepart (converted argv)))) <|>
        os.GetDiskFreeSpace none with - | ⟨dwSectorsPerCluster, dwBytesPerSector⟩
    · rw [answer] at top
      cases top
    · rw [answer] at top
      obtain ⟨product, k, power⟩ := top
      have below : k < 64 := mask_lt (product.symm.trans power)
      have lines := mainLoop_directories distinct counting power below special directories
        ⟨(s.file.write 0 (converted argv ++ [0])).write (filepart (converted argv)) [0],
          s.FileHashTable, s.TotalFileSize⟩ seen (InBuffer.of_holds holds) mem recorded
      rw [front, entries] at lines
      dsimp only
      rw [← product, power, shifts_two_pow]
      exact ⟨_, _, rfl, lines⟩

theorem main_directories (distinct : Set.InjOn number files) (counting : o.count_files = false)
    {args : List CString} {founds : List (List (List Visit))}
    (named : List.Forall₂ (Argument os o) args founds) :
    ∀ (s : State) (seen : Finset BY_HANDLE_FILE_INFORMATION),
      (∀ visits ∈ founds.flatten, ∀ visit ∈ visits, visit.file ∈ files) →
      Recorded s.FileHashTable files seen →
      (main os o args s).map Prod.snd = totals seen founds.flatten := by
  induction named with
  | nil => exact fun _ _ _ _ => rfl
  | cons argument_ named ih =>
    intro s seen mem recorded
    rw [List.flatten_cons] at mem ⊢
    obtain ⟨lines, after, run, printing⟩ := argument_directories distinct counting argument_
      (fun visits member => mem visits (List.mem_append_left _ member)) recorded
    have rest := ih after _ (fun visits member => mem visits (List.mem_append_right _ member))
      printing.table
    rw [main, run]
    dsimp only
    rw [List.map_append, printing.lines, rest, totals_append]

/-- What is printed are the totals of the directories, as signed 64-bit numbers. -/
theorem main_totals (counting : o.count_files = false) {args : List CString}
    {founds : List (List (List Visit))} (named : List.Forall₂ (Argument os o) args founds)
    (distinct : Set.InjOn number (reached founds.flatten)) :
    (main os o args start).map Prod.snd = totals ∅ founds.flatten := by
  apply main_directories distinct counting named start ∅
  · exact fun visits found visit mem => ⟨visits, found, visit, mem, rfl⟩
  · exact fun info _ => iff_of_false List.not_mem_nil (Finset.notMem_empty info)

end

/-- The run prints a line for every directory, each with the sum over the files counted for it, if
    the sum is below 2^63. -/
theorem main_counts_once (os : Windows) (o : Options) (counting : o.count_files = false)
    {args : List CString} {founds : List (List (List Visit))}
    (named : List.Forall₂ (Argument os o) args founds)
    (distinct : Set.InjOn number (reached founds.flatten)) :
    (main os o args start).length = founds.flatten.length ∧
      ∀ j visits, founds.flatten[j]? = some visits → expected founds.flatten j visits < 2 ^ 63 →
        ((main os o args start)[j]?).map Prod.snd = some (expected founds.flatten j visits : Int) := by
  have lines := main_totals counting named distinct
  constructor
  · rw [← List.length_map, lines, length_totals]
  · intro j visits found small
    have line := getElem_totals found ∅
    rw [Finset.empty_union, ← expected] at line
    rw [← List.getElem?_map, lines, line, ← BitVec.ofInt_natCast, BitVec.toInt_ofInt,
      Int.bmod_eq_of_le]
    · omega
    · omega

/-- A system that knows some searches and some files, all in clusters of 4096 bytes. -/
def known (searches : List (List BYTE × List WIN32_FIND_DATA))
    (informations : List (List BYTE × BY_HANDLE_FILE_INFORMATION)) : Windows where
  FindFirst path := (searches.lookup path).getD []
  GetDiskFreeSpace _ := some (8, 512)
  GetFileInformation path := informations.lookup path
  GetCompressedFileSize _ := none

def folder (name : CString) : WIN32_FIND_DATA := ⟨FILE_ATTRIBUTE_DIRECTORY, 0, 0, name⟩

def argA : CString := ⟨[97], by decide⟩
def argB : CString := ⟨[98], by decide⟩

/-- One file of 5 bytes with the names a\f, a\b\f and b\f, and the file b\g of 4097 bytes. -/
def linked : Windows := known
  [([97], [folder argA]), ([98], [folder argB]),
    ([97, 92, 42], [⟨0, 0, 5, ⟨[102], by decide⟩⟩, folder argB]),
    ([97, 92, 98, 92, 42], [⟨0, 0, 5, ⟨[102], by decide⟩⟩]),
    ([98, 92, 42], [⟨0, 0, 5, ⟨[102], by decide⟩⟩, ⟨0, 0, 4097, ⟨[103], by decide⟩⟩])]
  [([97, 92, 102], ⟨0, 0, 1⟩), ([97, 92, 98, 92, 102], ⟨0, 0, 1⟩), ([98, 92, 102], ⟨0, 0, 1⟩),
    ([98, 92, 103], ⟨0, 0, 2⟩)]

def visitsA : List Visit := ⟨⟨0, 0, 1⟩, 5, 4096⟩ :: ([⟨⟨0, 0, 1⟩, 5, 4096⟩] ++ [])
def visitsB : List Visit := [⟨⟨0, 0, 1⟩, 5, 4096⟩, ⟨⟨0, 0, 2⟩, 4097, 4096⟩]

theorem linked_clusters (path : List BYTE) (above : Nat) : ClusterIn linked path above 4096 :=
  ⟨rfl, 12, rfl⟩

theorem linked_a : Argument linked ⟨true, false⟩ argA [visitsA] := by
  refine ⟨by decide, 4096, ⟨rfl, 12, rfl⟩, ?_⟩
  refine .directory rfl ⟨by decide, by decide⟩ rfl (by decide) (linked_clusters _ _) ?_ .nil
  refine .file rfl rfl (by decide) rfl ?_
  refine .directory rfl ⟨rfl, by decide, by decide⟩ (by decide) (linked_clusters _ _) ?_ .nil
  exact .file rfl rfl (by decide) rfl .nil

theorem linked_b : Argument linked ⟨true, false⟩ argB [visitsB] := by
  refine ⟨by decide, 4096, ⟨rfl, 12, rfl⟩, ?_⟩
  refine .directory rfl ⟨by decide, by decide⟩ rfl (by decide) (linked_clusters _ _) ?_ .nil
  refine .file rfl rfl (by decide) rfl ?_
  exact .file rfl rfl (by decide) rfl .nil

theorem injOn_reached {founds : List (List Visit)}
    (distinct : ∀ visits ∈ founds, ∀ visit ∈ visits, ∀ others ∈ founds, ∀ other ∈ others,
      number visit.file = number other.file → visit.file = other.file) :
    Set.InjOn number (reached founds) := by
  intro file found file_ found_ same
  obtain ⟨visits, mem, visit, visit_mem, rfl⟩ := found
  obtain ⟨others, mem_, other, other_mem, rfl⟩ := found_
  exact distinct visits mem visit visit_mem others mem_ other other_mem same

theorem main_counts_linked : (main linked ⟨true, false⟩ [argA, argB] start).length = 2 ∧
    ((main linked ⟨true, false⟩ [argA, argB] start)[0]?).map Prod.snd = some 4096 ∧
    ((main linked ⟨true, false⟩ [argA, argB] start)[1]?).map Prod.snd = some 8192 := by
  have ⟨lines, totals⟩ := main_counts_once linked ⟨true, false⟩ rfl
    (.cons linked_a (.cons linked_b .nil)) (injOn_reached (by decide))
  exact ⟨lines, totals 0 visitsA rfl (by decide), totals 1 visitsB rfl (by decide)⟩

/-- The directory a with one file of 2^63 - 1 bytes. -/
def huge : Windows := known
  [([97], [folder argA]), ([97, 92, 42], [⟨0, 0x7fffffff, 0xffffffff, ⟨[102], by decide⟩⟩])]
  [([97, 92, 102], ⟨0, 0, 1⟩)]

def visitsHuge : List Visit := [⟨⟨0, 0, 1⟩, 2 ^ 63 - 1, 4096⟩]

theorem huge_a : Argument huge ⟨true, false⟩ argA [visitsHuge] := by
  refine ⟨by decide, 4096, ⟨rfl, 12, rfl⟩, ?_⟩
  refine .directory rfl ⟨by decide, by decide⟩ rfl (by decide) ⟨rfl, 12, rfl⟩ ?_ .nil
  exact .file rfl rfl (by decide) rfl .nil

/-- Its total is 2^63, and what is printed is negative. -/
theorem main_overflows : List.Forall₂ (Argument huge ⟨true, false⟩) [argA] [[visitsHuge]] ∧
    Set.InjOn number (reached [visitsHuge]) ∧ expected [visitsHuge] 0 visitsHuge = 2 ^ 63 ∧
    ((main huge ⟨true, false⟩ [argA] start)[0]?).map Prod.snd = some (-2 ^ 63) := by
  have named : List.Forall₂ (Argument huge ⟨true, false⟩) [argA] [[visitsHuge]] := .cons huge_a .nil
  have distinct : Set.InjOn number (reached [visitsHuge]) := injOn_reached (by decide)
  have lines := main_totals rfl named distinct
  refine ⟨named, distinct, by decide, ?_⟩
  rw [← List.getElem?_map, lines]
  decide

end Sizeof
