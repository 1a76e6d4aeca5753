import LtrData.StrArc.Session

namespace StrArc

/-- A stream as BackupRead delivers it. -/
structure Stream where
  dwStreamId : DWORD
  dwStreamAttributes : DWORD
  name : UnicodeString
  data : List BYTE
deriving DecidableEq

def Stream.header (stream : Stream) : Win32StreamId where
  dwStreamId := stream.dwStreamId
  dwStreamAttributes := stream.dwStreamAttributes
  Size := BitVec.ofNat 64 stream.data.length
  dwStreamNameSize := BitVec.ofNat 32 (2 * stream.name.length)

def Stream.encode (stream : Stream) : List BYTE :=
  stream.header.encode ++ (wcharBytes stream.name ++ stream.data)

/-- What follows a file header: the streams of the file, or the first name of a file that is
    already in the archive. -/
inductive Contents
  | streams (list : List Stream)
  | link (LinkName : UnicodeString)
deriving DecidableEq

def linkHeader (LinkName : UnicodeString) : Win32StreamId where
  dwStreamId := backupLink
  dwStreamAttributes := 0
  Size := BitVec.ofNat 64 (2 * LinkName.length)
  dwStreamNameSize := 0

def Contents.encode : Contents → List BYTE
  | streams list => list.flatMap Stream.encode
  | link LinkName => (linkHeader LinkName).encode ++ wcharBytes LinkName

/-- A link record in the form of a stream. -/
def linkStream (LinkName : UnicodeString) : Stream := ⟨backupLink, 0, [], wcharBytes LinkName⟩

def Contents.list : Contents → List Stream
  | streams list => list
  | link LinkName => [linkStream LinkName]

theorem Contents.encode_list (contents : Contents) :
    contents.list.flatMap Stream.encode = contents.encode := by
  cases contents with
  | streams list => rfl
  | link LinkName =>
    have header : (linkStream LinkName).header = linkHeader LinkName := by
      simp only [linkStream, Stream.header, linkHeader, length_wcharBytes]
      rfl
    simp only [list, encode, List.flatMap_cons, List.flatMap_nil, List.append_nil, Stream.encode, header]
    rfl

/-- An object of an archive. No 8.3 name is the empty one. -/
structure Archived where
  name : UnicodeString
  info : ByHandleFileInformation
  shortName : UnicodeString
  contents : Contents
deriving DecidableEq

def encodeShortName (shortName : UnicodeString) : List BYTE :=
  if shortName = [] then []
  else wcharBytes shortName ++ List.replicate (shortNameSize - 2 * shortName.length) 0

def fileHeader (name shortName : UnicodeString) : Win32StreamId where
  dwStreamId := backupInvalid
  dwStreamAttributes := strarcMagic
  Size := if shortName = [] then 52 else 78
  dwStreamNameSize := BitVec.ofNat 32 (2 * name.length)

def encodeFileHeader (name : UnicodeString) (info : ByHandleFileInformation)
    (shortName : UnicodeString) : List BYTE :=
  (fileHeader name shortName).encode ++
    (wcharBytes name ++ (info.encode ++ encodeShortName shortName))

def Archived.encode (object : Archived) : List BYTE :=
  encodeFileHeader object.name object.info object.shortName ++ object.contents.encode

def noFileInformation : ByHandleFileInformation := ⟨0, 0, 0, 0, 0, 0, 0, 0, 0, 0⟩

def emptyFile (unit : WCHAR) : Archived := ⟨[unit], noFileInformation, [], .streams []⟩

/-- A stream that a reader with a buffer of this size can step over: its name fits, a link name
    fits as a whole, and the start position of a sparse block is in reach. -/
structure Stream.WellFormed (dwBufferSize : Nat) (stream : Stream) : Prop where
  id : stream.dwStreamId ≠ backupInvalid
  fits : headerSize + 2 * stream.name.length ≤ dwBufferSize
  size : headerSize + 2 * stream.name.length + stream.data.length < 2 ^ 63
  sparse : stream.dwStreamId = backupSparseBlock →
    headerSize + 2 * stream.name.length + 8 ≤ dwBufferSize
  link : stream.dwStreamId = backupLink →
    headerSize + 2 * stream.name.length + stream.data.length ≤ dwBufferSize

def Contents.WellFormed (dwBufferSize : Nat) : Contents → Prop
  | streams list => ∀ stream ∈ list, stream.WellFormed dwBufferSize
  | link LinkName => 2 * LinkName.length ≤ 65534 ∧ headerSize + 2 * LinkName.length ≤ dwBufferSize

theorem Contents.WellFormed.list {dwBufferSize : Nat} {contents : Contents}
    (wf : contents.WellFormed dwBufferSize) :
    ∀ stream ∈ contents.list, stream.WellFormed dwBufferSize := by
  cases contents with
  | streams list => exact wf
  | link LinkName =>
    obtain ⟨bound, fits⟩ := wf
    intro stream mem
    obtain rfl := List.mem_singleton.mp mem
    have whole : headerSize + 2 * (linkStream LinkName).name.length +
        (linkStream LinkName).data.length = headerSize + 2 * LinkName.length := by
      simp [linkStream]
    have twenty : headerSize = 20 := rfl
    have id : (linkStream LinkName).dwStreamId = backupLink := rfl
    refine ⟨?_, by omega, by omega, fun sparse => ?_, fun _ => by omega⟩
    · rw [id]
      decide
    · rw [id] at sparse
      exact absurd sparse (by decide)

structure Archived.WellFormed (dwBufferSize : Nat) (object : Archived) : Prop where
  named : object.name ≠ []
  nameSize : 2 * object.name.length ≤ 65534
  shortSize : 2 * object.shortName.length ≤ shortNameSize
  shortUnits : ∀ unit ∈ object.shortName, unit ≠ 0
  fits : (encodeFileHeader object.name object.info object.shortName).length ≤ dwBufferSize
  contents : object.contents.WellFormed dwBufferSize

theorem emptyFile_wellFormed (unit : WCHAR) : (emptyFile unit).WellFormed 65536 where
  named := List.cons_ne_nil _ _
  nameSize := by simp [emptyFile]
  shortSize := by simp [emptyFile]
  shortUnits := by simp [emptyFile]
  fits := by
    simp [emptyFile, encodeFileHeader, encodeShortName, headerSize, sizeofFileInformation]
  contents := by simp [emptyFile, Contents.WellFormed]

end StrArc
