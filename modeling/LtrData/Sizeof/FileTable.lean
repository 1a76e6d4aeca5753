import Mathlib.Logic.Function.Basic

namespace Sizeof

abbrev DWORD := BitVec 32
abbrev ULARGE_INTEGER := BitVec 64

def FILE_HASH_TABLE_SIZE : Nat := 1024

structure FileTableClass where
  FileNumber : ULARGE_INTEGER
  VolumeSerialNumber : DWORD
deriving DecidableEq

/-- The chains of FileHashTable, from the pointer in the table on. -/
abbrev FileHashTable := Fin FILE_HASH_TABLE_SIZE → List FileTableClass

def bucket (FileNumber : ULARGE_INTEGER) : Fin FILE_HASH_TABLE_SIZE :=
  ⟨(FileNumber &&& (BitVec.ofNat 64 FILE_HASH_TABLE_SIZE - 1)).toNat, by
    rw [BitVec.toNat_and]
    exact Nat.lt_of_le_of_lt Nat.and_le_right (by decide)⟩

/-- Returns true if the table already held the file. -/
def FindOrAdd (dwLowPart dwHighPart dwVolumeSerialNumber : DWORD) (table : FileHashTable) :
    Bool × FileHashTable :=
  let FileNumber := dwHighPart ++ dwLowPart
  if (table (bucket FileNumber)).any fun ptr =>
      ptr.FileNumber = FileNumber && ptr.VolumeSerialNumber = dwVolumeSerialNumber then
    (true, table)
  else
    (false, Function.update table (bucket FileNumber)
      (⟨FileNumber, dwVolumeSerialNumber⟩ :: table (bucket FileNumber)))

/-- A file is in the chain that it is looked for in. -/
def Holds (table : FileHashTable) (file : FileTableClass) : Prop :=
  file ∈ table (bucket file.FileNumber)

instance (table : FileHashTable) (file : FileTableClass) : Decidable (Holds table file) :=
  inferInstanceAs (Decidable (_ ∈ _))

variable {low high serial : DWORD} {table : FileHashTable}

theorem FindOrAdd_held (held : Holds table ⟨high ++ low, serial⟩) :
    FindOrAdd low high serial table = (true, table) := by
  apply if_pos
  rw [List.any_eq_true]
  exact ⟨_, held, by simp⟩

theorem FindOrAdd_new (new : ¬ Holds table ⟨high ++ low, serial⟩) :
    FindOrAdd low high serial table =
      (false, Function.update table (bucket (high ++ low))
        (⟨high ++ low, serial⟩ :: table (bucket (high ++ low)))) := by
  apply if_neg
  intro found
  obtain ⟨ptr, mem, same⟩ := List.any_eq_true.mp found
  have ⟨number, volume⟩ := Bool.and_eq_true_iff.mp same
  apply new
  rw [Holds, ← of_decide_eq_true number, ← of_decide_eq_true volume]
  rw [← of_decide_eq_true number] at mem
  exact mem

/-- A chain is only ever extended, by the file itself. -/
theorem Holds_added {added file : FileTableClass} :
    Holds (Function.update table (bucket added.FileNumber)
      (added :: table (bucket added.FileNumber))) file ↔ file = added ∨ Holds table file := by
  rw [Holds, Holds]
  by_cases same : bucket file.FileNumber = bucket added.FileNumber
  · rw [same, Function.update_self, List.mem_cons]
  · have other : file ≠ added := fun equal => same (congrArg (bucket ·.FileNumber) equal)
    rw [Function.update_of_ne same]
    exact ⟨.inr, fun either => either.resolve_left other⟩

end Sizeof
