import LtrData.Library.LittleEndian

namespace StrArc

abbrev BYTE := BitVec 8
abbrev WCHAR := BitVec 16
abbrev DWORD := BitVec 32
/-- LARGE_INTEGER and FILETIME values; `toInt` is QuadPart. -/
abbrev LONGLONG := BitVec 64

def headerSize : Nat := 20
def strarcMagic : DWORD := 0xBAC00001#32

def backupInvalid : DWORD := 0
def backupData : DWORD := 1
def backupAlternateData : DWORD := 4
def backupLink : DWORD := 5
def backupSparseBlock : DWORD := 9

def streamNormalAttribute : DWORD := 0
def streamSparseAttribute : DWORD := 8

def fileAttributeReadonly : DWORD := 0x1
def fileAttributeDirectory : DWORD := 0x10
def fileAttributeArchive : DWORD := 0x20
def fileAttributeNormal : DWORD := 0x80
def fileAttributeSparseFile : DWORD := 0x200
def fileAttributeReparsePoint : DWORD := 0x400
def fileAttributeCompressed : DWORD := 0x800

/-- Whether any bit of `flag` is set, the test `attributes & flag` of the source. -/
def hasAttribute (attributes flag : DWORD) : Bool := attributes &&& flag != 0

structure Win32StreamId where
  dwStreamId : DWORD
  dwStreamAttributes : DWORD
  Size : LONGLONG
  dwStreamNameSize : DWORD
deriving DecidableEq

structure ByHandleFileInformation where
  dwFileAttributes : DWORD
  ftCreationTime : LONGLONG
  ftLastAccessTime : LONGLONG
  ftLastWriteTime : LONGLONG
  dwVolumeSerialNumber : DWORD
  nFileSizeHigh : DWORD
  nFileSizeLow : DWORD
  nNumberOfLinks : DWORD
  nFileIndexHigh : DWORD
  nFileIndexLow : DWORD
deriving DecidableEq

def sizeofFileInformation : Nat := 52
/-- The fixed room for an 8.3 name behind the file information. -/
def shortNameSize : Nat := 26

def Win32StreamId.encode (h : Win32StreamId) : List BYTE :=
  leBytes 4 h.dwStreamId.toNat ++ (leBytes 4 h.dwStreamAttributes.toNat ++
    (leBytes 8 h.Size.toNat ++ leBytes 4 h.dwStreamNameSize.toNat))

def Win32StreamId.decode (bytes : List BYTE) : Win32StreamId where
  dwStreamId := BitVec.ofNat 32 (leNat (bytes.take 4))
  dwStreamAttributes := BitVec.ofNat 32 (leNat ((bytes.drop 4).take 4))
  Size := BitVec.ofNat 64 (leNat ((bytes.drop 8).take 8))
  dwStreamNameSize := BitVec.ofNat 32 (leNat ((bytes.drop 16).take 4))

theorem take_dword (word : DWORD) (rest : List BYTE) :
    BitVec.ofNat 32 (leNat ((leBytes 4 word.toNat ++ rest).take 4)) = word :=
  ofNat_leNat_take 4 (by norm_num) word rest

theorem take_longlong (word : LONGLONG) (rest : List BYTE) :
    BitVec.ofNat 64 (leNat ((leBytes 8 word.toNat ++ rest).take 8)) = word :=
  ofNat_leNat_take 8 (by norm_num) word rest

@[simp] theorem Win32StreamId.length_encode (h : Win32StreamId) : h.encode.length = headerSize := by
  simp [encode, headerSize]

theorem Win32StreamId.decode_encode (h : Win32StreamId) (rest : List BYTE) :
    decode (h.encode ++ rest) = h := by
  obtain ⟨id, attributes, size, nameSize⟩ := h
  simp only [decode, encode, List.append_assoc, List.drop_append, length_leBytes,
    List.drop_of_length_le, Nat.le_refl, List.nil_append, Nat.sub_self, List.drop_zero,
    Nat.reduceSub, Nat.reduceLeDiff, take_dword, take_longlong]

def ByHandleFileInformation.encode (info : ByHandleFileInformation) : List BYTE :=
  leBytes 4 info.dwFileAttributes.toNat ++ (leBytes 8 info.ftCreationTime.toNat ++
    (leBytes 8 info.ftLastAccessTime.toNat ++ (leBytes 8 info.ftLastWriteTime.toNat ++
    (leBytes 4 info.dwVolumeSerialNumber.toNat ++ (leBytes 4 info.nFileSizeHigh.toNat ++
    (leBytes 4 info.nFileSizeLow.toNat ++ (leBytes 4 info.nNumberOfLinks.toNat ++
    (leBytes 4 info.nFileIndexHigh.toNat ++ leBytes 4 info.nFileIndexLow.toNat))))))))

def ByHandleFileInformation.decode (bytes : List BYTE) : ByHandleFileInformation where
  dwFileAttributes := BitVec.ofNat 32 (leNat (bytes.take 4))
  ftCreationTime := BitVec.ofNat 64 (leNat ((bytes.drop 4).take 8))
  ftLastAccessTime := BitVec.ofNat 64 (leNat ((bytes.drop 12).take 8))
  ftLastWriteTime := BitVec.ofNat 64 (leNat ((bytes.drop 20).take 8))
  dwVolumeSerialNumber := BitVec.ofNat 32 (leNat ((bytes.drop 28).take 4))
  nFileSizeHigh := BitVec.ofNat 32 (leNat ((bytes.drop 32).take 4))
  nFileSizeLow := BitVec.ofNat 32 (leNat ((bytes.drop 36).take 4))
  nNumberOfLinks := BitVec.ofNat 32 (leNat ((bytes.drop 40).take 4))
  nFileIndexHigh := BitVec.ofNat 32 (leNat ((bytes.drop 44).take 4))
  nFileIndexLow := BitVec.ofNat 32 (leNat ((bytes.drop 48).take 4))

@[simp] theorem ByHandleFileInformation.length_encode (info : ByHandleFileInformation) :
    info.encode.length = sizeofFileInformation := by
  simp [encode, sizeofFileInformation]

theorem ByHandleFileInformation.decode_encode (info : ByHandleFileInformation) :
    decode info.encode = info := by
  obtain ⟨attributes, creation, access, write, serial, high, low, links, indexHigh, indexLow⟩ := info
  have last := take_dword indexLow []
  simp only [List.append_nil] at last
  simp only [decode, encode, List.drop_append, length_leBytes, List.drop_of_length_le, Nat.le_refl,
    List.nil_append, Nat.sub_self, List.drop_zero, Nat.reduceSub, Nat.reduceLeDiff,
    take_dword, take_longlong, last]

def backslash : WCHAR := 0x5C
def dot : WCHAR := 0x2E

def wcharBytes (name : List WCHAR) : List BYTE := name.flatMap fun unit => leBytes 2 unit.toNat

def wchars : List BYTE → List WCHAR
  | low :: high :: rest => BitVec.ofNat 16 (leNat [low, high]) :: wchars rest
  | _ => []

@[simp] theorem length_wcharBytes (name : List WCHAR) : (wcharBytes name).length = 2 * name.length := by
  induction name with
  | nil => rfl
  | cons unit rest ih =>
    simp only [wcharBytes, List.flatMap_cons, List.length_append, length_leBytes] at ih ⊢
    simp only [ih, List.length_cons]
    omega

theorem wchars_append (name : List WCHAR) (bytes : List BYTE) :
    wchars (wcharBytes name ++ bytes) = name ++ wchars bytes := by
  induction name with
  | nil => rfl
  | cons unit rest ih =>
    have pair := ofNat_leNat_take 2 (by norm_num) unit []
    simp only [wcharBytes, List.flatMap_cons, leBytes, List.cons_append, List.nil_append, wchars] at ih ⊢
    rw [ih]
    simpa [leBytes] using pair

@[simp] theorem wchars_wcharBytes (name : List WCHAR) : wchars (wcharBytes name) = name := by
  simpa [wchars] using wchars_append name []

end StrArc
