import Mathlib.Algebra.Group.Nat.Defs
import Mathlib.Data.List.Basic
import Mathlib.Data.List.GetD

namespace Rawcopy

abbrev BYTE := BitVec 8

/-- An output file, with zeros behind its end. -/
@[ext] structure OutFile where
  size : Nat
  byte : Nat → BYTE
  behind : ∀ i, size ≤ i → byte i = 0

namespace OutFile

/-- WriteFile of the first bytes of a buffer. A gap in front of them is filled with zeros. -/
def write (out : OutFile) (position n : Nat) (buffer : Nat → BYTE) : OutFile where
  size := max out.size (position + n)
  byte i := if position ≤ i ∧ i < position + n then buffer (i - position) else out.byte i
  behind i outside := by
    rw [if_neg (by omega)]
    exact out.behind i (by omega)

def setEndOfFile (out : OutFile) (position : Nat) : OutFile where
  size := position
  byte i := if i < position then out.byte i else 0
  behind i outside := if_neg (by omega)

variable (out : OutFile) (position n i : Nat) (buffer : Nat → BYTE)

@[simp] theorem write_size : (out.write position n buffer).size = max out.size (position + n) := rfl

@[simp] theorem write_byte : (out.write position n buffer).byte i =
    if position ≤ i ∧ i < position + n then buffer (i - position) else out.byte i := rfl

@[simp] theorem setEndOfFile_size : (out.setEndOfFile position).size = position := rfl

@[simp] theorem setEndOfFile_byte : (out.setEndOfFile position).byte i =
    if i < position then out.byte i else 0 := rfl

end OutFile

/-- The calls that fail, after all retries, are told by the position they are made at, and are ignored
    as with -i. `memory` is what is at the buffer and behind it. -/
structure Config where
  input : List BYTE
  skipforward : Nat
  copylength : Int
  bufsiz : Nat
  bufsiz_pos : 0 < bufsiz
  bufsiz_dword : bufsiz < 2 ^ 32
  bCreateSparse : Bool
  bDifferential : Bool
  memory : Nat → BYTE
  existing : OutFile
  current_out_pointer : Nat
  sizWriteOffset : Nat
  readFails : Nat → Bool
  writeFails : Nat → Bool

/-- What is in the output file behind the position it has been opened at. -/
def Config.existing_out_file_size (c : Config) : Int := c.existing.size - c.current_out_pointer

inductive Point
  | running
  | ended
  | failed
deriving DecidableEq

structure State where
  point : Point
  inPosition : Nat
  readbytes : Nat
  buffer : Nat → BYTE
  out : OutFile
  outPosition : Nat
  writtenblocks : Nat

def start (c : Config) : State where
  point := .running
  inPosition := c.skipforward
  readbytes := 0
  buffer := c.memory
  out := c.existing
  outPosition := c.current_out_pointer + c.sizWriteOffset
  writtenblocks := 0

def dwBlockSize (c : Config) (s : State) : Nat :=
  if c.copylength ≠ 0 ∧ c.copylength ≤ c.bufsiz + s.readbytes then (c.copylength - s.readbytes).toNat
  else c.bufsiz

/-- The buffer after a block has been read into it. -/
def load (buffer : Nat → BYTE) (block : List BYTE) : Nat → BYTE := fun i =>
  if i < block.length then block.getD i 0 else buffer i

/-- ReadFile with the block that is read. A block that cannot be read is skipped and zeroed. -/
def readBlock (c : Config) (s : State) : State × List BYTE :=
  let block := (c.input.drop s.inPosition).take (dwBlockSize c s)
  if block = [] then (s, [])
  else if c.readFails s.inPosition then
    let zeros := List.replicate (dwBlockSize c s) 0
    ({ s with inPosition := s.inPosition + c.bufsiz, buffer := load s.buffer zeros }, zeros)
  else
    ({ s with inPosition := s.inPosition + block.length, buffer := load s.buffer block }, block)

/-- The test for a block of zeros goes by words of 8 bytes, the last of which may reach behind the
    block. -/
def allZero (buffer : Nat → BYTE) (dwReadSize : Nat) : Bool :=
  (List.range (8 * ((dwReadSize + 7) / 8))).all fun i => buffer i = 0

/-- The block in the output file is the same as the block in the buffer. -/
def sameBlock (s : State) (dwReadSize : Nat) : Bool :=
  (List.range dwReadSize).all fun i => s.buffer i = s.out.byte (s.outPosition + i)

def nextBlock (c : Config) (s : State) : State :=
  { s with
    writtenblocks := s.writtenblocks + 1
    point := if c.copylength ≠ 0 ∧ c.copylength ≤ (s.writtenblocks + 1 : Nat) then .ended else s.point }

/-- The block is skipped or written. A write that fails has written nothing, which ends the copy. -/
def putBlock (c : Config) (s : State) (dwReadSize : Nat) (bSkipWriteBlock : Bool) : State :=
  let outPosition := s.outPosition + dwReadSize
  if bSkipWriteBlock then
    nextBlock c
      { s with
        outPosition
        out := if c.existing_out_file_size < s.readbytes then s.out.setEndOfFile outPosition else s.out }
  else if c.writeFails s.outPosition then { s with outPosition, point := .ended }
  else nextBlock c { s with outPosition, out := s.out.write s.outPosition dwReadSize s.buffer }

/-- A block in the output file that cannot be read in full for the comparison is fatal. -/
def compareBlock (c : Config) (s : State) (dwReadSize : Nat) (bSkipWriteBlock : Bool) : State :=
  if c.bDifferential ∧ s.readbytes ≤ c.existing_out_file_size then
    if s.out.size < s.outPosition + dwReadSize then { s with point := .failed }
    else putBlock c s dwReadSize (bSkipWriteBlock || sameBlock s dwReadSize)
  else putBlock c s dwReadSize bSkipWriteBlock

def copyBlock (c : Config) (s : State) (dwReadSize : Nat) : State :=
  let bSkipWriteBlock := c.bCreateSparse && decide (c.existing_out_file_size ≤ s.readbytes) &&
    allZero s.buffer dwReadSize
  compareBlock c { s with readbytes := s.readbytes + dwReadSize } dwReadSize bSkipWriteBlock

def step (c : Config) (s : State) : State :=
  if s.point ≠ .running then s
  else if c.copylength ≠ 0 ∧ c.copylength ≤ s.readbytes then { s with point := .ended }
  else
    let (s, block) := readBlock c s
    if block = [] then { s with point := .ended } else copyBlock c s block.length

/-- The copy loop of rawcopy, after a number of rounds. -/
def run (c : Config) : Nat → State
  | 0 => start c
  | n + 1 => step c (run c n)

/-- The number of bytes there are to copy. -/
def total (c : Config) : Nat :=
  if c.copylength = 0 then c.input.length - c.skipforward
  else min (c.input.length - c.skipforward) c.copylength.toNat

/-- The block that starts behind `k` full blocks, as it is in the buffer. -/
def blockAt (c : Config) (k : Nat) : List BYTE :=
  let limit := if c.copylength ≠ 0 ∧ c.copylength ≤ c.bufsiz + (k * c.bufsiz : Nat) then
    (c.copylength - (k * c.bufsiz : Nat)).toNat else c.bufsiz
  if c.readFails (c.skipforward + k * c.bufsiz) then List.replicate limit 0
  else (c.input.drop (c.skipforward + k * c.bufsiz)).take limit

/-- The state before a block that is there to copy. -/
structure Aligned (c : Config) (s : State) (k : Nat) : Prop where
  point : s.point = .running
  more : k * c.bufsiz < total c
  inPosition : s.inPosition = c.skipforward + k * c.bufsiz
  readbytes : s.readbytes = k * c.bufsiz
  outPosition : s.outPosition = c.current_out_pointer + c.sizWriteOffset + k * c.bufsiz
  writtenblocks : s.writtenblocks = k

/-- The state after the last block, before the loop finds that there is no more. -/
structure Exhausted (c : Config) (s : State) : Prop where
  point : s.point = .running
  all : total c ≤ s.readbytes
  none : c.copylength ≠ 0 ∧ c.copylength ≤ s.readbytes ∨ c.input.length ≤ s.inPosition

section blocks

variable {c : Config} {s : State} {k : Nat}

/-- The least a block takes of the bytes to copy. -/
def blockLength (c : Config) (k : Nat) : Nat := min c.bufsiz (total c - k * c.bufsiz)

theorem dwBlockSize_aligned (aligned : Aligned c s k) : dwBlockSize c s =
    if c.copylength ≠ 0 ∧ c.copylength ≤ c.bufsiz + (k * c.bufsiz : Nat) then
      (c.copylength - (k * c.bufsiz : Nat)).toNat else c.bufsiz := by
  rw [dwBlockSize, aligned.readbytes]

theorem dwBlockSize_bounds (aligned : Aligned c s k) :
    blockLength c k ≤ dwBlockSize c s ∧ dwBlockSize c s ≤ c.bufsiz ∧ 0 < blockLength c k := by
  have more := aligned.more
  have positive := c.bufsiz_pos
  rw [dwBlockSize_aligned aligned, blockLength]
  unfold total at *
  by_cases unlimited : c.copylength = 0
  · rw [if_pos unlimited] at more ⊢
    rw [if_neg fun limited => limited.1 unlimited]
    omega
  · rw [if_neg unlimited] at more ⊢
    split <;> omega

end blocks

end Rawcopy
