import LtrData.StrArc.Session

namespace StrArc

variable {σ H : Type}

def errorAccessDenied : DWORD := 5
def errorSharingViolation : DWORD := 32
def errorInvalidParameter : DWORD := 87

/-- The first block behind a stream header: as much of name and data as the buffer takes. -/
def fillFirstBlock (c : Config σ H) (dwBytesRead : Nat) : Restore σ H (Nat × Int) := do
  let h ← header
  let BytesToRead := quadPart (h.dataOffset + h.Size.toInt - dwBytesRead)
  if BytesToRead > 0 then
    let room := dwordSub c.dwBufferSize dwBytesRead
    let FirstBlockDataToRead := if BytesToRead > room then room else lowPart BytesToRead
    if FirstBlockDataToRead > 0 then
      let FirstBlockDataDone ← readArchive c dwBytesRead FirstBlockDataToRead
      if FirstBlockDataDone ≠ FirstBlockDataToRead then Traced.raise .archiveTrunc
      else pure (dwBytesRead + FirstBlockDataDone, BytesToRead - FirstBlockDataDone)
    else pure (dwBytesRead, BytesToRead)
  else pure (dwBytesRead, BytesToRead)

/-- The verbose output of FillEntireBuffer shows the name and what lies behind it. -/
def showName (c : Config σ H) (dwBytesRead : Nat) : Restore σ H Unit := do
  let h ← header
  if 0 < h.nameSize then locate c .shownName dwBytesRead headerSize h.nameSize

def showData (c : Config σ H) (dwBytesRead : Nat) : Restore σ H Unit := do
  let h ← header
  if h.dwStreamId = backupSparseBlock ∧ h.dwStreamAttributes = streamSparseAttribute ∧
      8 ≤ h.Size.toInt then
    locate c .shownStart dwBytesRead (headerSize + h.nameSize) 8
  else if h.dwStreamId = backupLink then
    locate c .shownTarget dwBytesRead (headerSize + h.nameSize) (h.Size.toNat % 2 ^ 32 / 2 * 2)

def showHeader (c : Config σ H) (dwBytesRead : Nat) : Restore σ H Unit := do
  if c.options.bVerbose then
    showName c dwBytesRead
    showData c dwBytesRead

def fillEntireBuffer (c : Config σ H) (dwBytesRead : Nat) : Restore σ H (Nat × Int) := do
  let filled ← fillFirstBlock c dwBytesRead
  showHeader c filled.1
  pure filled

/-- `NativeDeleteFile` and `CloseHandle` of a temporary file. -/
def removeTemporary (c : Config σ H) (hFile : Handle H) : Restore σ H Unit := do
  let _ ← call c (.deleteFile hFile)
  let _ ← call c (.close hFile)

def removeOpened (c : Config σ H) (hFile : Handle H) : Restore σ H Unit := do
  if hFile.isSome then removeTemporary c hFile

def closeOpened (c : Config σ H) (hFile : Handle H) : Restore σ H Unit := do
  if hFile.isSome then
    let _ ← call c (.close hFile)

/-- The copy that stands in for a hard link which cannot be made. -/
def copyInsteadOfLink (c : Config σ H) (hFile : Handle H) (LinkName Target : UnicodeString) :
    Restore σ H (Handle H) := do
  let opened ← call c (.openFile .copySource LinkName)
  match opened.handle with
  | none => pure hFile
  | some hSource =>
    let created ← call c (.createFile .copyTarget Target fileAttributeNormal c.options.dwExtractCreation false)
    match created.handle with
    | none => pure none
    | some hTarget =>
      let copied ← call c (.backupCopyFile (some hSource) (some hTarget))
      if copied.isSuccess then
        let _ ← call c (.close (some hSource))
        pure (some hTarget)
      else
        removeTemporary c (some hTarget)
        let _ ← call c (.close (some hSource))
        pure none

def linkTarget (c : Config σ H) (hFile : Handle H) (LinkName Target : UnicodeString) :
    Restore σ H (Handle H) := do
  if c.options.bHardLinkSupport then
    removeTemporary c hFile
    let opened ← call c (.openFile .linkSource LinkName)
    match opened.handle with
    | none => pure none
    | some hSource =>
      let linked ← call c (.createHardLink (some hSource) Target)
      let _ ← call c (.close (some hSource))
      if linked.isSuccess then
        countFile
        pure none
      else copyInsteadOfLink c none LinkName Target
  else copyInsteadOfLink c hFile LinkName Target

/-- Always succeeds; the result is the target handle that is left. -/
def writeFileHardLinkFromArchive (c : Config σ H) (hFile : Handle H) (dwBytesRead : Nat)
    (Target : UnicodeString) (bSeekOnly : Bool) : Restore σ H (Handle H) := do
  let h ← header
  let offset := h.dataOffset
  -- A link name has to fit in one buffered read, everything else is an archive format error.
  let bSeekOnly := bSeekOnly || decide ((dwBytesRead : Int) ≠ quadPart (h.Size.toInt + offset))
  let Length := h.Size.toNat % 2 ^ 16
  locate c .linkName dwBytesRead offset Length
  let LinkName := wchars (← bufferAt offset Length)
  if bSeekOnly then pure hFile
  else linkTarget c hFile LinkName Target

structure StreamResult (H : Type) where
  result : Bool
  hFile : Handle H
  bSeekOnly : Bool

/-- The chunk loop of WriteFileDataStreamFromArchive. -/
def dataStreamLoop (c : Config σ H) (hFile : Handle H) (bSeekOnly : Bool) :
    Nat → Int → Restore σ H (StreamResult H)
  | 0, _ => Traced.raise .outOfFuel
  | fuel + 1, BytesToRead => do
    if BytesToRead > 0 then
      if ← cancelled c then
        removeOpened c hFile
        pure ⟨false, hFile, bSeekOnly⟩
      else
        let dwBytesRead ← readArchive c 0
          (if BytesToRead > c.dwBufferSize then c.dwBufferSize else lowPart BytesToRead)
        if dwBytesRead = 0 then Traced.raise .archiveTrunc
        else if bSeekOnly then dataStreamLoop c hFile bSeekOnly fuel (BytesToRead - dwBytesRead)
        else
          let written ← call c (.backupWrite hFile true (← bufferAt 0 dwBytesRead))
          if written.isSuccess then
            dataStreamLoop c hFile bSeekOnly fuel (BytesToRead - dwBytesRead)
          else
            removeOpened c hFile
            pure ⟨false, hFile, bSeekOnly⟩
    else pure ⟨true, hFile, bSeekOnly⟩

/-- A sparse block starts at the position in its first eight bytes. -/
def seekSparseBlock (c : Config σ H) (hFile : Handle H) (dwBytesRead : Nat) (bSeekOnly : Bool) :
    Restore σ H Bool := do
  let h ← header
  if bSeekOnly = false ∧ h.dwStreamId = backupSparseBlock ∧
      h.dwStreamAttributes = streamSparseAttribute then
    locate c .startPosition dwBytesRead (headerSize + h.nameSize) 8
    let StartPosition := BitVec.ofNat 64 (leNat (← bufferAt (headerSize + h.nameSize) 8))
    let sought ← call c (.setFilePointer hFile StartPosition)
    let cut ← call c (.setEndOfFile hFile)
    pure (!sought.isSuccess || !cut.isSuccess)
  else pure bSeekOnly

def writeFileDataStreamFromArchive (c : Config σ H) (hFile : Handle H) (dwBytesRead : Nat)
    (BytesToRead : Int) (bSeekOnly : Bool) : Restore σ H (StreamResult H) := do
  let bSeekOnly ← seekSparseBlock c hFile dwBytesRead bSeekOnly
  if bSeekOnly then dataStreamLoop c hFile bSeekOnly c.fuel BytesToRead
  else
    let written ← call c (.backupWrite hFile false (← bufferAt 0 dwBytesRead))
    if written.isSuccess then dataStreamLoop c hFile false c.fuel BytesToRead
    else
      removeTemporary c hFile
      dataStreamLoop c none true c.fuel BytesToRead

/-- The WriteFile loop of an alternate stream; the result is what is left to read. -/
def alternateWriteLoop (c : Config σ H) (hStream : Handle H) :
    Nat → (data size : Nat) → Int → Restore σ H Int
  | 0, _, _, _ => Traced.raise .outOfFuel
  | fuel + 1, data, size, BytesToRead => do
    let written ← call c (.writeFile hStream (← bufferAt data size))
    if written.count ≠ some size then
      let _ ← call c (.deleteFile hStream)
      skipArchive c BytesToRead
    else if BytesToRead = 0 then pure BytesToRead
    else
      let size := if BytesToRead > c.dwBufferSize then c.dwBufferSize else lowPart BytesToRead
      locateBlock c BytesToRead size
      let dwBytesRead ← readArchive c 0 size
      if dwBytesRead ≠ size then Traced.raise .archiveTrunc
      else alternateWriteLoop c hStream fuel 0 size (BytesToRead - dwBytesRead)

/-- How the header loop of WriteFileAlternateStreamsFromArchive is left: with its result, or
    with another named stream at hand. -/
inductive AlternateExit (H : Type)
  | done (result : Bool)
  | stream (hStream : Handle H) (dwBytesRead : Nat) (BytesToRead : Int) (bSeekOnly : Bool)

def alternateHeaderLoop (c : Config σ H) :
    Nat → Handle H → Bool → Restore σ H (AlternateExit H)
  | 0, _, _ => Traced.raise .outOfFuel
  | fuel + 1, hStream, bSeekOnly => do
    let dwBytesRead ← readStreamHeader c
    if dwBytesRead = 0 then
      closeOpened c hStream
      pure (.done false)
    else if dwBytesRead ≠ headerSize then
      closeOpened c hStream
      Traced.raise .archiveTrunc
    else if isNewFileHeader (← header) then
      closeOpened c hStream
      pure (.done true)
    else
      let filled ← fillEntireBuffer c dwBytesRead
      let h ← header
      if 0 < h.nameSize then pure (.stream hStream filled.1 filled.2 bSeekOnly)
      else if bSeekOnly then
        -- What the first block did not take of the stream is left in the archive.
        note (.passedOver h filled.2)
        alternateHeaderLoop c fuel hStream bSeekOnly
      else
        let r ← writeFileDataStreamFromArchive c hStream filled.1 filled.2 bSeekOnly
        if r.result then alternateHeaderLoop c fuel r.hFile r.bSeekOnly
        else
          let _ ← call c (.deleteFile r.hFile)
          closeOpened c r.hFile
          pure (.done false)

/-- Creates the stream at hand; the second result is `bSeekOnly`. -/
def createStream (c : Config σ H) (dwBytesRead : Nat) (File : UnicodeString) (bSeekOnly : Bool) :
    Restore σ H (Handle H × Bool) := do
  let h ← header
  locate c .streamName dwBytesRead headerSize (h.nameSize % 2 ^ 16)
  let stream_name := wchars (← bufferAt headerSize (h.nameSize % 2 ^ 16))
  let appended := rtlAppendUnicodeString fullPathMaximum File stream_name
  let created ← call c (.createFile .stream (appended.getD File) fileAttributeNormal .fileSupersede false)
  pure (created.handle, bSeekOnly || appended.isNone || created.handle.isNone)

/-- The data of the stream at hand, whose first block is in the buffer. -/
def writeData (c : Config σ H) (hStream : Handle H) (dwBytesRead : Nat) (BytesToRead : Int)
    (bSeekOnly : Bool) : Restore σ H Unit := do
  let h ← header
  if bSeekOnly = false ∧ h.Size.toInt > 0 ∧ h.dwStreamAttributes = streamNormalAttribute then
    let offset := h.dataOffset
    let size := dwordSub dwBytesRead offset
    locate c .payload dwBytesRead offset size
    let _ ← alternateWriteLoop c hStream c.fuel offset size BytesToRead
  else
    let _ ← skipArchive c BytesToRead

def writeStream (c : Config σ H) (hStream : Handle H) (dwBytesRead : Nat) (BytesToRead : Int)
    (bSeekOnly : Bool) : Restore σ H Unit := do
  let h ← header
  if bSeekOnly = false ∧ c.options.bRestoreCompression ∧
      hasAttribute h.dwStreamAttributes streamSparseAttribute then
    let _ ← call c (.deviceIoControl hStream .setSparse)
  writeData c hStream dwBytesRead BytesToRead bSeekOnly

/-- One round for each named stream. The result says whether a header is in the buffer. -/
def alternateLoop (c : Config σ H) (File : UnicodeString) :
    Nat → Nat → Int → Bool → Restore σ H Bool
  | 0, _, _, _ => Traced.raise .outOfFuel
  | fuel + 1, dwBytesRead, BytesToRead, bSeekOnly => do
    let created ← createStream c dwBytesRead File bSeekOnly
    writeStream c created.1 dwBytesRead BytesToRead created.2
    let exit ← alternateHeaderLoop c c.fuel created.1 created.2
    match exit with
    | .done result => pure result
    | .stream hStream dwBytesRead BytesToRead bSeekOnly =>
      let _ ← call c (.close hStream)
      alternateLoop c File fuel dwBytesRead BytesToRead bSeekOnly

def writeFileAlternateStreamsFromArchive (c : Config σ H) (dwBytesRead : Nat) (BytesToRead : Int)
    (File : UnicodeString) (bSeekOnly : Bool) : Restore σ H Bool :=
  alternateLoop c File c.fuel dwBytesRead BytesToRead bSeekOnly

/-- The stream loop of WriteFileFromArchive. -/
def streamLoop (c : Config σ H) (File : UnicodeString) :
    Nat → Nat → Handle H → Bool → Restore σ H (StreamResult H)
  | 0, _, _, _ => Traced.raise .outOfFuel
  | fuel + 1, dwBytesRead, hFile, bSeekOnly => do
    if ← cancelled c then
      removeOpened c hFile
      pure ⟨false, hFile, bSeekOnly⟩
    else if dwBytesRead = 0 then pure ⟨true, hFile, bSeekOnly⟩
    else if dwBytesRead < headerSize then Traced.raise .archiveTrunc
    else if isNewFileHeader (← header) then pure ⟨true, hFile, bSeekOnly⟩
    else
      let filled ← fillEntireBuffer c dwBytesRead
      let h ← header
      if h.dwStreamId = backupLink ∧ bSeekOnly = false then
        let hFile ← writeFileHardLinkFromArchive c hFile filled.1 File bSeekOnly
        let dwBytesRead ← readStreamHeader c
        streamLoop c File fuel dwBytesRead hFile bSeekOnly
      else if bSeekOnly = false ∧ h.dwStreamId = backupAlternateData then
        let more ← writeFileAlternateStreamsFromArchive c filled.1 filled.2 File bSeekOnly
        streamLoop c File fuel (if more then headerSize else 0) hFile bSeekOnly
      else
        let r ← writeFileDataStreamFromArchive c hFile filled.1 filled.2 bSeekOnly
        let dwBytesRead ← readStreamHeader c
        if r.result then streamLoop c File fuel dwBytesRead r.hFile r.bSeekOnly
        else pure r

def writeFileFromArchive (c : Config σ H) (File : UnicodeString) (hFile : Handle H)
    (bSeekOnly : Bool) : Restore σ H (StreamResult H) := do
  let dwBytesRead ← readStreamHeader c
  streamLoop c File c.fuel dwBytesRead hFile bSeekOnly

/-- The path up to and with its last backslash. -/
def directoryPart (Path : UnicodeString) : UnicodeString :=
  (Path.reverse.dropWhile (· ≠ backslash)).reverse

/-- The -8 switch puts the 8.3 name in place of the last part of the path. The second result
    is `bSeekOnly`. -/
def restoredName (o : Options) (File : UnicodeString) (FileInfo : ByHandleFileInformation)
    (ShortName : UnicodeString) : UnicodeString × Bool :=
  if o.bRestoreShortNamesOnly ∧ ShortName ≠ [] ∧
      hasAttribute FileInfo.dwFileAttributes fileAttributeDirectory = false then
    let File := directoryPart File.dropLast
    match rtlAppendUnicodeString fullPathMaximum File ShortName with
    | some File => (File, false)
    | none => (File, true)
  else (File, false)

def noInformation : FileBasicInformation := ⟨0, 0, 0, 0, 0⟩

/-- Whether the -o:a, -o:n and -o:f switches let an existing object be overwritten. -/
def overwrites (o : Options) (existing : FileBasicInformation)
    (FileInfo : ByHandleFileInformation) : Bool :=
  if o.bOverwriteArchived ∧ hasAttribute existing.FileAttributes fileAttributeArchive then false
  else if o.bOverwriteOlder ∧ hasAttribute existing.FileAttributes fileAttributeDirectory = false ∧
      FileInfo.ftLastWriteTime.toNat ≤ existing.LastWriteTime.toNat then false
  else true

def withoutAttribute (info : FileBasicInformation) (flag : DWORD) : FileBasicInformation :=
  { info with FileAttributes := info.FileAttributes &&& ~~~flag }

def openExisting (c : Config σ H) (File : UnicodeString) : Restore σ H (Handle H) := do
  let opened ← call c (.openFile .existing File)
  if opened.handle.isNone ∧ opened.lastError = errorInvalidParameter then
    let opened ← call c (.openFile .existingFollowed File)
    pure opened.handle
  else pure opened.handle

/-- What the query of the existing object says: whether it is extracted over, and what it is. -/
def judgeExisting (o : Options) (FileInfo : ByHandleFileInformation) :
    Reply H → Bool × FileBasicInformation
  | .information info => (overwrites o info FileInfo, info)
  | _ => (true, noInformation)

def resetReadonly (c : Config σ H) (hFile : Handle H) (bIncludeThis : Bool)
    (existing : FileBasicInformation) : Restore σ H FileBasicInformation := do
  if bIncludeThis ∧ hasAttribute existing.FileAttributes fileAttributeReadonly then
    let _ ← call c (.setInformation hFile (withoutAttribute existing fileAttributeReadonly))
    pure (withoutAttribute existing fileAttributeReadonly)
  else pure existing

/-- The look at the existing object decides whether it is extracted over, and makes it
    writable. -/
def probeExisting (c : Config σ H) (File : UnicodeString) (FileInfo : ByHandleFileInformation) :
    Restore σ H (Bool × FileBasicInformation) := do
  match ← openExisting c File with
  | some hFile =>
    let queried ← call c (.queryInformation (some hFile))
    let judged := judgeExisting c.options FileInfo queried
    let existing ← resetReadonly c (some hFile) judged.1 judged.2
    let _ ← call c (.close (some hFile))
    pure (judged.1, existing)
  | none => pure (!c.options.bFreshenExisting, noInformation)

def createTargetDirectory (c : Config σ H) (File : UnicodeString)
    (FileInfo : ByHandleFileInformation) (reparse : Bool) : Restore σ H (Handle H) := do
  let FileAttributes := FileInfo.dwFileAttributes &&& ~~~fileAttributeReadonly
  -- DELETE access is refused while the directory is the current one of some process.
  let created ← call c (.createDirectory File true FileAttributes reparse)
  if created.handle.isNone ∧
      (created.lastError = errorAccessDenied ∨ created.lastError = errorSharingViolation) then
    let created ← call c (.createDirectory File false FileAttributes reparse)
    pure created.handle
  else pure created.handle

/-- The target of a restore that extracts, and whether its streams are only passed over. -/
def createTarget (c : Config σ H) (File : UnicodeString) (FileInfo : ByHandleFileInformation)
    (bIncludeThis bSeekOnly : Bool) (existing : FileBasicInformation) :
    Restore σ H (Handle H × Bool) := do
  let reparse := hasAttribute existing.FileAttributes fileAttributeReparsePoint
  if c.options.bTestMode ∨ bIncludeThis = false ∨ bSeekOnly then pure (none, true)
  else if hasAttribute FileInfo.dwFileAttributes fileAttributeDirectory then
    let hFile ← createTargetDirectory c File FileInfo reparse
    pure (hFile, hFile.isNone)
  else
    let created ← call c (.createFile .target File
      (FileInfo.dwFileAttributes &&& ~~~fileAttributeReadonly) c.options.dwExtractCreation reparse)
    pure (created.handle, created.handle.isNone)

def callIf (c : Config σ H) (condition : Bool) (request : Call H) : Restore σ H Unit := do
  if condition then
    let _ ← call c request

/-- Reparse point, sparse attribute and 8.3 name of a target that has been opened. -/
def prepareTarget (c : Config σ H) (hFile : Handle H) (FileInfo : ByHandleFileInformation)
    (ShortName : UnicodeString) (bSeekOnly : Bool) (existing : FileBasicInformation) :
    Restore σ H Unit := do
  if hFile.isSome ∧ bSeekOnly = false then
    callIf c (hasAttribute existing.FileAttributes fileAttributeReparsePoint)
      (.deviceIoControl hFile .deleteReparsePoint)
    callIf c (hasAttribute FileInfo.dwFileAttributes fileAttributeSparseFile &&
      c.options.bRestoreCompression) (.deviceIoControl hFile .setSparse)
    callIf c (!c.options.bSkipShortNames && ShortName ≠ []) (.setShortFileName hFile ShortName)

/-- The basic information RestoreFile sets when the streams are written. -/
def finalInformation (o : Options) (FileInfo : ByHandleFileInformation) : FileBasicInformation :=
  { CreationTime := if o.bProcessFileTimes then FileInfo.ftCreationTime else 0
    LastAccessTime := if o.bProcessFileTimes then FileInfo.ftLastAccessTime else 0
    LastWriteTime := if o.bProcessFileTimes then FileInfo.ftLastWriteTime else 0
    ChangeTime := if o.bProcessFileTimes then FileInfo.ftLastWriteTime else 0
    FileAttributes :=
      if o.bProcessFileAttribs then FileInfo.dwFileAttributes else fileAttributeNormal }

/-- Whether the attributes of the target and the archived ones differ in compression. -/
def recompresses (o : Options) (FileInfo : ByHandleFileInformation) : Reply H → Bool
  | .attributes dwFileAttributes => o.bRestoreCompression &&
    hasAttribute (dwFileAttributes ^^^ FileInfo.dwFileAttributes) fileAttributeCompressed
  | _ => false

def finishTarget (c : Config σ H) (hFile : Handle H) (FileInfo : ByHandleFileInformation)
    (bSeekOnly : Bool) : Restore σ H Unit := do
  if bSeekOnly = false ∧ hFile.isSome then
    let now ← call c (.getFileInformation hFile)
    callIf c (recompresses c.options FileInfo now) (.deviceIoControl hFile
      (.setCompression (hasAttribute FileInfo.dwFileAttributes fileAttributeCompressed)))
    callIf c (c.options.bProcessFileTimes || c.options.bProcessFileAttribs)
      (.setInformation hFile (finalInformation c.options FileInfo))

def countRestored (c : Config σ H) (hFile : Handle H) (bIncludeThis : Bool) : Restore σ H Unit := do
  if (hFile.isSome ∨ c.options.bTestMode) ∧ bIncludeThis then countFile

def probeIncluded (c : Config σ H) (File : UnicodeString) (FileInfo : ByHandleFileInformation) :
    Restore σ H (Bool × FileBasicInformation) := do
  if c.included File FileInfo then probeExisting c File FileInfo else pure (false, noInformation)

def restoreFile (c : Config σ H) (File : UnicodeString) (FileInfo : ByHandleFileInformation)
    (ShortName : UnicodeString) : Restore σ H Bool := do
  let named := restoredName c.options File FileInfo ShortName
  let probed ← probeIncluded c named.1 FileInfo
  let target ← createTarget c named.1 FileInfo probed.1 named.2 probed.2
  prepareTarget c target.1 FileInfo ShortName target.2 probed.2
  let r ← writeFileFromArchive c named.1 target.1 target.2
  if r.result then
    finishTarget c r.hFile FileInfo r.bSeekOnly
    countRestored c r.hFile probed.1
    closeOpened c r.hFile
    pure true
  else pure false

def noteRejected : Restore σ H Unit := fun s => .ok [.rejected s.headerPos s.pos] () s

def noteFileHeader : Restore σ H Unit := fun s => .ok [.fileHeader s.headerPos] () s

def noteRestoreFile (File : UnicodeString) (FileInfo : ByHandleFileInformation)
    (ShortName : UnicodeString) : Restore σ H Unit := fun s =>
  .ok [.restoreFile s.headerPos File FileInfo ShortName] () s

theorem noteRejected_run (s : Session σ) :
    (noteRejected : Restore σ H Unit) s = .ok [.rejected s.headerPos s.pos] () s := rfl

theorem noteFileHeader_run (s : Session σ) :
    (noteFileHeader : Restore σ H Unit) s = .ok [.fileHeader s.headerPos] () s := rfl

theorem noteRestoreFile_run (File : UnicodeString) (FileInfo : ByHandleFileInformation)
    (ShortName : UnicodeString) (s : Session σ) :
    (noteRestoreFile File FileInfo ShortName : Restore σ H Unit) s =
      .ok [.restoreFile s.headerPos File FileInfo ShortName] () s := rfl

/-- A file header in the buffer, after a forward search where it is needed. The test of the
    name size against USHORT_MAX behind it finds nothing more. -/
def acceptFileHeader (c : Config σ H) : Restore σ H Bool := do
  if invalidFileHeader (← header) then
    noteRejected
    readNextFileHeader c
  else pure true

/-- `RtlInitUnicodeString` on the copied 8.3 name. -/
def terminated (name : UnicodeString) : UnicodeString := name.takeWhile (· ≠ 0)

/-- The object whose header, name and information are in the buffer. -/
def restoreObject (c : Config σ H) : Restore σ H Bool := do
  let h ← header
  let File := wchars (← bufferAt headerSize (h.nameSize % 2 ^ 16))
  let FileInfo := ByHandleFileInformation.decode
    (← bufferAt (headerSize + h.nameSize) sizeofFileInformation)
  let short ← bufferAt (headerSize + h.nameSize + sizeofFileInformation) shortNameSize
  let ShortName := if h.Size = 78 then terminated (wchars short) else []
  noteRestoreFile File FileInfo ShortName
  restoreFile c File FileInfo ShortName

/-- One round with an accepted header; the result says whether another header is at hand. -/
def restoreAccepted (c : Config σ H) : Restore σ H Bool := do
  noteFileHeader
  let h ← header
  let dwBytesToRead := (h.nameSize + h.Size.toNat) % 2 ^ 32
  if dwordSub c.dwBufferSize headerSize < dwBytesToRead then Traced.raise .badBuffer
  else
    let dwBytesRead ← readArchive c headerSize dwBytesToRead
    if dwBytesRead ≠ dwBytesToRead then
      if ← readNextFileHeader c then pure true else Traced.raise .archiveTrunc
    else restoreObject c

def directoryTreeLoop (c : Config σ H) : Nat → Restore σ H Bool
  | 0 => Traced.raise .outOfFuel
  | fuel + 1 => do
    if ← acceptFileHeader c then
      if ← restoreAccepted c then directoryTreeLoop c fuel else pure false
    else pure true

def restoreDirectoryTree (c : Config σ H) : Restore σ H Bool := do
  if ← readNextFileHeader c then directoryTreeLoop c c.fuel else pure false

def Session.start (disk : σ) : Session σ where
  pos := 0
  headerPos := 0
  Buffer := fun _ => 0
  FileCounter := 0
  disk := disk

end StrArc
