import LtrData.Library.LittleEndian
import LtrData.Library.XorAll

namespace Cxr

abbrev BYTE := BitVec 8

abbrev Name := List BYTE

def blockSize : Nat := 4096

def maxPath : Nat := 260

/-- The comparison of strcmpi and of the file system. -/
def lower (char : BYTE) : BYTE := if 0x41 ≤ char ∧ char ≤ 0x5a then char + 0x20 else char

/-- The contents of the files on a volume, by their names in lower case. -/
def Volume := Name → Option (List BYTE)

/-- CreateFile with OPEN_EXISTING. -/
def Volume.openExisting (v : Volume) (name : Name) : Option (List BYTE) :=
  if name = [] then none else v (name.map lower)

/-- What is in a file after it has been created, written and closed. -/
def Volume.store (v : Volume) (name : Name) (data : List BYTE) : Volume := fun key =>
  if key = name.map lower then some data else v key

/-- A byte of a file, or of a zeroed buffer that the file does not reach. -/
def byteAt (data : List BYTE) (i : Nat) : BYTE := data.getD i 0

/-- A buffer slot that has been zeroed before the block was read into it. -/
def slot (block : List BYTE) : List BYTE := block ++ List.replicate (blockSize - block.length) 0

/-- The loops over `bytecount` and `filecount`. -/
def xorSlots (slots : List (List BYTE)) : List BYTE :=
  (List.range blockSize).map fun bytecount => xorAll (slots.map fun slot => byteAt slot bytecount)

/-- What cxrbackup writes of a file in front of the parity. -/
def header (name : Name) (data : List BYTE) : List BYTE := name ++ [0] ++ leBytes 8 data.length

/-- The loop of cxrbackup, with what is left to read of the files. Each round but the last reads a
    byte at least. -/
def backupLoop : Nat → List (List BYTE) → List BYTE
  | 0, _ => []
  | fuel + 1, files =>
    let blocks := files.map (List.take blockSize)
    if ∀ block ∈ blocks, block = [] then []
    else xorSlots (blocks.map slot) ++ backupLoop fuel (files.map (List.drop blockSize))

/-- What cxrbackup writes to stdout if it succeeds. -/
def cxrbackup (v : Volume) (argv : List Name) : Option (List BYTE) :=
  if argv = [] then none
  else do
    let files ← argv.mapM v.openExisting
    some ((List.zipWith header argv files).flatten ++ [0] ++
      backupLoop ((files.map List.length).sum + 1) files)

inductive Handle
  | hStdIn
  | file (unread : List BYTE)

structure FileRec where
  cName : Name
  ui64Size : Nat
  handle : Handle

/-- The name of a record, with the room that is left for it. -/
def readName : Nat → List BYTE → Option (Name × List BYTE)
  | 0, _ => none
  | _ + 1, [] => none
  | room + 1, char :: input =>
    if char = 0 then some ([], input)
    else (readName room input).map fun (name, input) => (char :: name, input)

def readSize (input : List BYTE) : Option (Nat × List BYTE) :=
  if input.length < 8 then none else some (leNat (input.take 8), input.drop 8)

/-- The loop over the records. The last one, which has no name, is left out, and the size of the file
    to restore is returned if it is among the records. -/
def openRecords (argv1 : Name) : Nat → Volume → List BYTE → Option Nat →
    Option (List FileRec × List BYTE × Volume × Option Nat)
  | 0, _, _, _ => none
  | fuel + 1, v, input, ui64OutFileSize => do
    let (cName, input) ← readName maxPath input
    if cName = [] then some ([], input, v, ui64OutFileSize)
    else
      let (ui64Size, input) ← readSize input
      if cName.map lower = argv1.map lower then
        let (records, opened) ← openRecords argv1 fuel (v.store argv1 []) input (some ui64Size)
        some (⟨cName, ui64Size, .hStdIn⟩ :: records, opened)
      else
        let data ← v.openExisting cName
        if data.length ≠ ui64Size then none
        else
          let (records, opened) ← openRecords argv1 fuel v input ui64OutFileSize
          some (⟨cName, ui64Size, .file data⟩ :: records, opened)

/-- One block from every handle, and what is left to read. -/
def readBlocks : List Handle → List BYTE → List (List BYTE) × List Handle × List BYTE
  | [], input => ([], [], input)
  | .hStdIn :: handles, input =>
    let (blocks, handles, rest) := readBlocks handles (input.drop blockSize)
    (input.take blockSize :: blocks, .hStdIn :: handles, rest)
  | .file unread :: handles, input =>
    let (blocks, handles, rest) := readBlocks handles input
    (unread.take blockSize :: blocks, .file (unread.drop blockSize) :: handles, rest)

/-- The restore loop. The buffer has `filerecn` slots, and the first is the sum, so that the block
    read last is written behind the buffer and takes no part. -/
def restoreLoop (filerecn ui64OutFileSize : Nat) : Nat → Nat → List Handle → List BYTE → List BYTE
  | 0, _, _, _ => []
  | fuel + 1, ui64BytesWritten, handles, input =>
    if ui64BytesWritten < ui64OutFileSize then
      let (blocks, handles, input) := readBlocks handles input
      xorSlots ((blocks.map slot).take (filerecn - 1)) ++
        restoreLoop filerecn ui64OutFileSize fuel (ui64BytesWritten + blockSize) handles input
    else []

/-- The volume after cxrrestore has succeeded with the name of a file, which is not empty. -/
def cxrrestore (v : Volume) (input : List BYTE) (argv1 : Name) : Option Volume := do
  let (records, input, v, ui64OutFileSize) ← openRecords argv1 (input.length + 1) v input none
  let ui64OutFileSize ← ui64OutFileSize
  let filerecn := records.length
  let written := restoreLoop filerecn ui64OutFileSize ui64OutFileSize 0 (records.map FileRec.handle) input
  -- a size from 2^63 on is a negative distance for SetFilePointer
  if ui64OutFileSize < 2 ^ 63 then some (v.store argv1 (written.take ui64OutFileSize)) else none

end Cxr
