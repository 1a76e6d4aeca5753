import LtrData.Library.Cells
import LtrData.Library.Traced
import LtrData.StrArc.Format

namespace StrArc

/-- The exceptions a restore raises, and the end of the recursion bound of a loop. -/
inductive XError
  | archiveTrunc
  | badBuffer
  | outsideBuffer
  | outOfFuel
deriving DecidableEq

inductive BackupMethods
  | copy
  | full
  | diff
  | inc
deriving DecidableEq

inductive CreateDisposition
  | fileCreate
  | fileOpenIf
  | fileSupersede
deriving DecidableEq

/-- A name as a counted string. Lengths of the source are in bytes, two for each unit. -/
abbrev UnicodeString := List WCHAR

/-- `FullPath.MaximumLength`, in bytes. -/
def fullPathMaximum : Nat := 65535

def rtlAppendUnicodeString (maximum : Nat) (destination source : UnicodeString) : Option UnicodeString :=
  if 2 * (destination.length + source.length) ≤ maximum then some (destination ++ source) else none

structure FileBasicInformation where
  CreationTime : LONGLONG
  LastAccessTime : LONGLONG
  LastWriteTime : LONGLONG
  ChangeTime : LONGLONG
  FileAttributes : DWORD
deriving DecidableEq

/-- `none` is INVALID_HANDLE_VALUE. -/
abbrev Handle (H : Type) := Option H

inductive OpenSite
  | existing
  | existingFollowed
  | linkSource
  | copySource
deriving DecidableEq

inductive CreateSite
  | target
  | copyTarget
  | stream
deriving DecidableEq

inductive IoControl
  | deleteReparsePoint
  | setSparse
  | setCompression (compress : Bool)
deriving DecidableEq

/-- The calls a restore makes to the system. Access masks and sharing modes are fixed at
    each call site and left out. -/
inductive Call (H : Type)
  | openFile (site : OpenSite) (Name : UnicodeString)
  | queryInformation (hFile : Handle H)
  | setInformation (hFile : Handle H) (info : FileBasicInformation)
  | createDirectory (Name : UnicodeString) (withDelete : Bool) (FileAttributes : DWORD)
      (openReparsePoint : Bool)
  | createFile (site : CreateSite) (Name : UnicodeString) (FileAttributes : DWORD)
      (disposition : CreateDisposition) (openReparsePoint : Bool)
  | deviceIoControl (hFile : Handle H) (code : IoControl)
  | setShortFileName (hFile : Handle H) (Name : UnicodeString)
  | setFilePointer (hFile : Handle H) (distance : LONGLONG)
  | setEndOfFile (hFile : Handle H)
  | backupWrite (hFile : Handle H) (continued : Bool) (data : List BYTE)
  | writeFile (hFile : Handle H) (data : List BYTE)
  | deleteFile (hFile : Handle H)
  | close (hFile : Handle H)
  | createHardLink (hFile : Handle H) (Target : UnicodeString)
  | backupCopyFile (source target : Handle H)
  | getFileInformation (hFile : Handle H)
deriving DecidableEq

inductive Reply (H : Type)
  | success
  | failed (error : DWORD)
  | opened (hFile : H)
  | information (info : FileBasicInformation)
  | attributes (dwFileAttributes : DWORD)
  | written (count : Nat)
deriving DecidableEq

def Reply.isSuccess {H : Type} : Reply H → Bool
  | .failed _ => false
  | _ => true

def Reply.handle {H : Type} : Reply H → Handle H
  | .opened h => some h
  | _ => none

def Reply.lastError {H : Type} : Reply H → DWORD
  | .failed error => error
  | _ => 0

def Reply.count {H : Type} : Reply H → Option Nat
  | .written count => some count
  | _ => none

/-- The operating system: any answer to any call, in any state. -/
abbrev System (σ H : Type) := Call H → σ → Reply H × σ

/-- What a position in the buffer is computed for. -/
inductive Position
  | shownName
  | shownStart
  | shownTarget
  | startPosition
  | linkName
  | streamName
  | payload
deriving DecidableEq

/-- The history of a run. It is not kept by the program; statements about runs are about it. -/
inductive Event (H : Type)
  | call (request : Call H) (reply : Reply H)
  | located (position : Position) (header : Win32StreamId) (dwBytesRead offset length : Nat)
  | nextBlock (BytesToRead : Int) (size : Nat)
  | passedOver (header : Win32StreamId) (BytesToRead : Int)
  | rejected (start pos : Nat)
  | fileHeader (start : Nat)
  | restoreFile (start : Nat) (File : UnicodeString) (FileInfo : ByHandleFileInformation)
      (ShortName : UnicodeString)
deriving DecidableEq

structure Options where
  bVerbose : Bool := false
  bTestMode : Bool := false
  bProcessFileTimes : Bool := true
  bProcessFileAttribs : Bool := true
  bHardLinkSupport : Bool := true
  bRestoreCompression : Bool := true
  bSkipShortNames : Bool := false
  bOverwriteOlder : Bool := false
  bOverwriteArchived : Bool := false
  bFreshenExisting : Bool := false
  bRestoreShortNamesOnly : Bool := false
  dwExtractCreation : CreateDisposition := .fileCreate

/-- The archive as a byte stream. One ReadFile at offset `pos` hands out at most
    `grants pos + 1` bytes, as a pipe may. -/
structure Archive where
  bytes : List BYTE
  grants : Nat → Nat

def Archive.readFile (a : Archive) (pos dwSize : Nat) : List BYTE :=
  (a.bytes.drop pos).take (min dwSize (a.grants pos + 1))

def Archive.readLoop (a : Archive) : Nat → Nat → Nat → List BYTE
  | 0, _, _ => []
  | fuel + 1, pos, dwSize =>
    if dwSize = 0 then []
    else
      let block := a.readFile pos dwSize
      if block = [] then []
      else block ++ a.readLoop fuel (pos + block.length) (dwSize - block.length)

theorem Archive.readLoop_eq (a : Archive) (fuel pos dwSize : Nat) (enough : dwSize ≤ fuel) :
    a.readLoop fuel pos dwSize = (a.bytes.drop pos).take dwSize := by
  induction fuel generalizing pos dwSize with
  | zero =>
    have zero : dwSize = 0 := by omega
    simp [readLoop, zero]
  | succ fuel ih =>
    unfold readLoop
    by_cases zero : dwSize = 0
    · simp [zero]
    simp only [zero, if_false]
    by_cases stop : a.readFile pos dwSize = []
    · have atEnd : a.bytes.drop pos = [] := by
        rcases List.take_eq_nil_iff.mp stop with none | none
        · omega
        · exact none
      simp [stop, atEnd]
    · have positive : 0 < (a.readFile pos dwSize).length := List.length_pos_iff.mpr stop
      simp only [stop, if_false]
      have split : a.readFile pos dwSize =
          (a.bytes.drop pos).take (a.readFile pos dwSize).length := by
        simp only [readFile, List.length_take]
        rw [List.take_eq_take_iff]
        omega
      have bound : (a.readFile pos dwSize).length ≤ dwSize := by
        simp only [readFile, List.length_take]
        omega
      rw [ih _ _ (by omega), ← List.drop_drop]
      conv_lhs => arg 1; rw [split]
      rw [← List.take_add, Nat.add_sub_cancel' bound]

theorem Archive.length_readLoop (a : Archive) (pos dwSize : Nat) :
    (a.readLoop dwSize pos dwSize).length = min dwSize (a.bytes.length - pos) := by
  rw [a.readLoop_eq _ _ _ (Nat.le_refl _), List.length_take, List.length_drop]

/-- `Buffer` begins with the header of the stream at hand. `headerPos` is the archive offset
    its first byte was read from, which the program itself does not keep. -/
structure Session (σ : Type) where
  pos : Nat
  headerPos : Nat
  Buffer : Cells BYTE
  FileCounter : Nat
  disk : σ

variable {σ H : Type}

structure Config (σ H : Type) where
  archive : Archive
  dwBufferSize : Nat
  isDword : dwBufferSize < 2 ^ 32
  options : Options
  system : System σ H
  /-- ExcludedString's `*Included`, for the filter strings of the session. -/
  included : UnicodeString → ByHandleFileInformation → Bool
  /-- Whether the user has cancelled when the reader stands at this offset. -/
  bCancel : Nat → Bool

theorem bufferSize_dword : 65536 < 2 ^ 32 := by decide

abbrev Restore (σ H α : Type) := Traced XError (Session σ) (Event H) α

def Session.header (s : Session σ) : Win32StreamId :=
  Win32StreamId.decode (s.Buffer.read 0 headerSize)

def Win32StreamId.nameSize (h : Win32StreamId) : Nat := h.dwStreamNameSize.toNat

/-- `HEADER_SIZE + header->dwStreamNameSize` in 32-bit arithmetic. -/
def Win32StreamId.dataOffset (h : Win32StreamId) : Nat := (headerSize + h.nameSize) % 2 ^ 32

/-- A QuadPart after 64-bit wrap-around. -/
def quadPart (x : Int) : Int := (BitVec.ofInt 64 x).toInt

theorem quadPart_of_lt {x : Int} (lower : -2 ^ 63 ≤ x) (upper : x < 2 ^ 63) : quadPart x = x := by
  rw [quadPart, BitVec.toInt_ofInt, Int.bmod_def]
  split <;> omega

theorem quadPart_of_ge {x : Int} (lower : 2 ^ 63 ≤ x) (upper : x < 2 ^ 64 + 2 ^ 63) :
    quadPart x = x - 2 ^ 64 := by
  rw [quadPart, BitVec.toInt_ofInt, Int.bmod_def]
  split <;> omega

def lowPart (x : Int) : Nat := (x % 2 ^ 32).toNat

theorem lowPart_of_lt {x : Int} (lower : 0 ≤ x) (upper : x < 2 ^ 32) : (lowPart x : Int) = x := by
  rw [lowPart]
  omega

/-- A difference of DWORDs. -/
def dwordSub (a b : Nat) : Nat := lowPart ((a : Int) - b)

theorem dwordSub_of_le {a b : Nat} (le : b ≤ a) (bound : a < 2 ^ 32) : dwordSub a b = a - b := by
  rw [dwordSub, lowPart]
  omega

theorem dwordSub_of_lt {a b : Nat} (lt : a < b) (bound : b < 2 ^ 32) :
    dwordSub a b = a + 2 ^ 32 - b := by
  rw [dwordSub, lowPart]
  omega

def header : Restore σ H Win32StreamId := fun s => .ok [] s.header s

theorem header_run (s : Session σ) : (header : Restore σ H Win32StreamId) s = .ok [] s.header s := rfl

def note (e : Event H) : Restore σ H Unit := fun s => .ok [e] () s

def call (c : Config σ H) (request : Call H) : Restore σ H (Reply H) := fun s =>
  let answer := c.system request s.disk
  .ok [.call request answer.1] answer.1 { s with disk := answer.2 }

theorem call_run (c : Config σ H) (request : Call H) (s : Session σ) :
    call c request s = .ok [.call request (c.system request s.disk).1] (c.system request s.disk).1
      { s with disk := (c.system request s.disk).2 } := rfl

def cancelled (c : Config σ H) : Restore σ H Bool := fun s => .ok [] (c.bCancel s.pos) s

theorem cancelled_run (c : Config σ H) (s : Session σ) :
    cancelled c s = .ok [] (c.bCancel s.pos) s := rfl

def countFile : Restore σ H Unit := fun s => .ok [] () { s with FileCounter := s.FileCounter + 1 }

theorem countFile_run (s : Session σ) :
    (countFile : Restore σ H Unit) s = .ok [] () { s with FileCounter := s.FileCounter + 1 } := rfl

def bufferAt (offset length : Nat) : Restore σ H (List BYTE) := fun s =>
  .ok [] (s.Buffer.read offset length) s

theorem bufferAt_run (offset length : Nat) (s : Session σ) :
    (bufferAt offset length : Restore σ H (List BYTE)) s = .ok [] (s.Buffer.read offset length) s := rfl

/-- A position in the buffer together with the length used behind it. The run stops where
    the program would leave its buffer. -/
def locate (c : Config σ H) (position : Position) (dwBytesRead offset length : Nat) :
    Restore σ H Unit := fun s =>
  let e := .located position s.header dwBytesRead offset length
  if offset + length ≤ c.dwBufferSize then .ok [e] () s else .error [e] .outsideBuffer s

/-- The next block of an alternate stream is read to the front of the buffer. -/
def locateBlock (c : Config σ H) (BytesToRead : Int) (size : Nat) : Restore σ H Unit := fun s =>
  if size ≤ c.dwBufferSize then .ok [.nextBlock BytesToRead size] () s
  else .error [.nextBlock BytesToRead size] .outsideBuffer s

def Session.afterRead (s : Session σ) (c : Config σ H) (lpBuf dwSize : Nat) : Session σ :=
  let data := c.archive.readLoop dwSize s.pos dwSize
  { s with
    pos := s.pos + data.length
    headerPos := if lpBuf = 0 then s.pos else s.headerPos
    Buffer := s.Buffer.write lpBuf data }

theorem Session.afterRead_ordered {c : Config σ H} {s : Session σ} (ordered : s.headerPos ≤ s.pos)
    (lpBuf dwSize : Nat) :
    (s.afterRead c lpBuf dwSize).headerPos ≤ (s.afterRead c lpBuf dwSize).pos := by
  simp only [afterRead]
  split <;> omega

def readArchive (c : Config σ H) (lpBuf dwSize : Nat) : Restore σ H Nat := fun s =>
  .ok [] (c.archive.readLoop dwSize s.pos dwSize).length (s.afterRead c lpBuf dwSize)

theorem readArchive_run (c : Config σ H) (lpBuf dwSize : Nat) (s : Session σ) :
    readArchive c lpBuf dwSize s =
      .ok [] (c.archive.readLoop dwSize s.pos dwSize).length (s.afterRead c lpBuf dwSize) := rfl

def clearHeader : Restore σ H Unit := fun s =>
  .ok [] () { s with Buffer := s.Buffer.write 0 (List.replicate headerSize 0) }

theorem clearHeader_run (s : Session σ) :
    (clearHeader : Restore σ H Unit) s =
      .ok [] () { s with Buffer := s.Buffer.write 0 (List.replicate headerSize 0) } := rfl

/-- `MoveMemory(Buffer, Buffer + 1, HEADER_SIZE - 1)` of the forward search. -/
def shiftHeader : Restore σ H Unit := fun s =>
  .ok [] ()
    { s with
      Buffer := s.Buffer.write 0 (s.Buffer.read 1 (headerSize - 1))
      headerPos := s.headerPos + 1 }

theorem shiftHeader_run (s : Session σ) :
    (shiftHeader : Restore σ H Unit) s =
      .ok [] ()
        { s with
          Buffer := s.Buffer.write 0 (s.Buffer.read 1 (headerSize - 1))
          headerPos := s.headerPos + 1 } := rfl

def readStreamHeader (c : Config σ H) : Restore σ H Nat := do
  let dwBytesRead ← readArchive c 0 headerSize
  if dwBytesRead < headerSize then clearHeader
  pure dwBytesRead

def isNewFileHeader (h : Win32StreamId) : Bool :=
  if h.dwStreamId = backupInvalid ∧ h.dwStreamAttributes = strarcMagic ∧
      (h.Size = 52 ∨ h.Size = 78) ∧ 0 < h.nameSize ∧ h.nameSize ≤ 65535 then true
  else h.nameSize % 2 = 1

/-- The test of ReadNextFileHeader. -/
def validFileHeader (h : Win32StreamId) : Bool :=
  h.dwStreamId = backupInvalid ∧ h.dwStreamAttributes = strarcMagic ∧
    (h.Size = 52 ∨ h.Size = 78) ∧ 0 < h.nameSize ∧ h.nameSize ≤ 65535 ∧ h.nameSize % 2 = 0

/-- The test of RestoreDirectoryTree. -/
def invalidFileHeader (h : Win32StreamId) : Bool :=
  h.dwStreamId ≠ backupInvalid ∨ h.dwStreamAttributes ≠ strarcMagic ∨
    (h.Size ≠ 52 ∧ h.Size ≠ 78) ∨ h.nameSize = 0 ∨ 65535 ≤ h.nameSize ∨ h.nameSize % 2 = 1

theorem invalidFileHeader_eq (h : Win32StreamId) : invalidFileHeader h = !validFileHeader h := by
  have parity : h.nameSize ≤ 65535 ∧ h.nameSize % 2 = 0 ↔ ¬ (65535 ≤ h.nameSize ∨ h.nameSize % 2 = 1) := by
    omega
  have positive : 0 < h.nameSize ↔ ¬ h.nameSize = 0 := by omega
  rw [Bool.eq_iff_iff]
  simp only [invalidFileHeader, validFileHeader, Bool.not_eq_true', decide_eq_true_eq,
    decide_eq_false_iff_not, parity, positive]
  simp only [ne_eq, not_and_or, not_or, not_not]

/-- The do-while condition of ReadNextFileHeader. -/
def seeksOn (h : Win32StreamId) : Bool :=
  h.dwStreamId ≠ backupInvalid ∨ h.dwStreamAttributes ≠ strarcMagic ∨
    (h.Size ≠ 52 ∧ h.Size ≠ 78) ∨ h.nameSize = 0 ∨ 65535 < h.nameSize ∨ h.nameSize % 2 = 1

theorem seeksOn_eq (h : Win32StreamId) : seeksOn h = !validFileHeader h := by
  -- The longest name that is too long for one test only has an odd size.
  have longest : 65535 < h.nameSize ∨ h.nameSize % 2 = 1 ↔ 65535 ≤ h.nameSize ∨ h.nameSize % 2 = 1 := by
    omega
  rw [← invalidFileHeader_eq]
  simp only [seeksOn, invalidFileHeader, longest]

/-- The do-while loop of ReadNextFileHeader. -/
def seekFileHeader (c : Config σ H) : Nat → Restore σ H Bool
  | 0 => Traced.raise .outOfFuel
  | fuel + 1 => do
    if ← cancelled c then pure false
    else
      shiftHeader
      let dwBytesRead ← readArchive c (headerSize - 1) 1
      if dwBytesRead ≠ 1 then pure false
      else if seeksOn (← header) then seekFileHeader c fuel
      else pure true

/-- No loop of a restore takes more steps than there are bytes in the archive. -/
def Config.fuel (c : Config σ H) : Nat := c.archive.bytes.length + 2

def readNextFileHeader (c : Config σ H) : Restore σ H Bool := do
  let dwBytesRead ← readArchive c 0 headerSize
  if dwBytesRead < headerSize then pure false
  else if validFileHeader (← header) then pure true
  else seekFileHeader c c.fuel

def skipLoop (c : Config σ H) : Nat → Int → Restore σ H Int
  | 0, _ => Traced.raise .outOfFuel
  | fuel + 1, BytesToRead => do
    if BytesToRead > 0 then
      if ← cancelled c then pure BytesToRead
      else
        let dwBytesRead ← readArchive c 0
          (if BytesToRead > c.dwBufferSize then c.dwBufferSize else lowPart BytesToRead)
        if dwBytesRead = 0 then Traced.raise .archiveTrunc
        else skipLoop c fuel (BytesToRead - dwBytesRead)
    else pure BytesToRead

/-- The callers of SkipArchive look at BytesToRead only. -/
def skipArchive (c : Config σ H) (BytesToRead : Int) : Restore σ H Int := skipLoop c c.fuel BytesToRead

end StrArc
