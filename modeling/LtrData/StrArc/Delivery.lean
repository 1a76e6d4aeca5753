import LtrData.StrArc.Archived

namespace StrArc

variable {H : Type}

/-- What a restore hands to the system, with the name of the file or stream it goes to. -/
inductive Delivery
  | file (File : UnicodeString) (FileInfo : ByHandleFileInformation) (ShortName : UnicodeString)
  | stream (Name : UnicodeString) (bytes : List BYTE)
  | alternate (Name : UnicodeString) (data : List BYTE)
  | link (LinkName : UnicodeString)
  | stray
deriving DecidableEq

def Delivery.extend (data : List BYTE) : Delivery → Delivery
  | stream Name bytes => stream Name (bytes ++ data)
  | alternate Name bytes => alternate Name (bytes ++ data)
  | _ => stray

/-- What has been delivered, and the handle that has been opened last for writing. -/
structure Delivered (H : Type) where
  hFile : Handle H
  Name : UnicodeString
  list : List Delivery

namespace Delivered

def add (p : Delivered H) (delivery : Delivery) : Delivered H :=
  { p with list := p.list ++ [delivery] }

def extend (p : Delivered H) (data : List BYTE) : Delivered H :=
  { p with list := p.list.dropLast ++ (p.list.getLast?.map (Delivery.extend data)).toList }

def opened (p : Delivered H) (Name : UnicodeString) (reply : Reply H) : Delivered H :=
  { p with hFile := reply.handle, Name := Name }

@[simp] theorem add_extend (p : Delivered H) (delivery : Delivery) (data : List BYTE) :
    (p.add delivery).extend data = p.add (delivery.extend data) := by
  simp [add, extend]

@[simp] theorem add_hFile (p : Delivered H) (delivery : Delivery) :
    (p.add delivery).hFile = p.hFile := rfl

@[simp] theorem add_list (p : Delivered H) (delivery : Delivery) :
    (p.add delivery).list = p.list ++ [delivery] := rfl

@[simp] theorem add_Name (p : Delivered H) (delivery : Delivery) :
    (p.add delivery).Name = p.Name := rfl

variable [DecidableEq H]

def step (p : Delivered H) : Event H → Delivered H
  | .restoreFile _ File FileInfo ShortName => p.add (.file File FileInfo ShortName)
  | .call (.createDirectory Name ..) reply => p.opened Name reply
  | .call (.createFile .stream Name ..) reply => (p.opened Name reply).add (.alternate Name [])
  | .call (.createFile _ Name ..) reply => p.opened Name reply
  | .call (.backupWrite hFile false data) _ =>
    p.add (if hFile = p.hFile then .stream p.Name data else .stray)
  | .call (.backupWrite hFile true data) _ =>
    if hFile = p.hFile then p.extend data else p.add .stray
  | .call (.writeFile hFile data) _ =>
    if hFile = p.hFile then p.extend data else p.add .stray
  | .call (.openFile .linkSource Name) _ => p.add (.link Name)
  | .call (.openFile .copySource Name) _ => p.add (.link Name)
  | _ => p

def run (p : Delivered H) (t : List (Event H)) : Delivered H := t.foldl step p

@[simp] theorem run_nil (p : Delivered H) : p.run [] = p := rfl

@[simp] theorem run_cons (p : Delivered H) (e : Event H) (t : List (Event H)) :
    p.run (e :: t) = (p.step e).run t := rfl

@[simp] theorem run_append (p : Delivered H) (t t' : List (Event H)) :
    p.run (t ++ t') = (p.run t).run t' := List.foldl_append

end Delivered

/-- Everything that is delivered in a run. -/
def deliveries [DecidableEq H] (t : List (Event H)) : List Delivery :=
  (Delivered.run ⟨none, [], []⟩ t).list

/-- What is written of the data of an alternate stream: nothing, unless its attributes are the
    normal ones. -/
def Stream.written (stream : Stream) : List BYTE :=
  if stream.dwStreamAttributes = streamNormalAttribute then stream.data else []

/-- The streams of a file behind its first alternate stream. -/
def alternateDeliveries (File : UnicodeString) :
    UnicodeString → List Stream → List Delivery
  | _, [] => []
  | Name, stream :: rest =>
    if stream.name = [] then
      .stream Name stream.encode :: alternateDeliveries File Name rest
    else
      .alternate (File ++ stream.name) stream.written ::
        alternateDeliveries File (File ++ stream.name) rest

/-- What is to be delivered for the streams of a file: the first alternate stream and every named
    stream behind it go to streams of their own, everything else but a link to the file or stream
    opened last, with its header. -/
def streamDeliveries (File : UnicodeString) : List Stream → List Delivery
  | [] => []
  | stream :: rest =>
    if stream.dwStreamId = backupLink then .link (wchars stream.data) :: streamDeliveries File rest
    else if stream.dwStreamId = backupAlternateData then
      .alternate (File ++ stream.name) stream.written ::
        alternateDeliveries File (File ++ stream.name) rest
    else .stream File stream.encode :: streamDeliveries File rest

def Contents.deliveries (File : UnicodeString) : Contents → List Delivery
  | streams list => streamDeliveries File list
  | link LinkName => [.link LinkName]

def Archived.deliveries (object : Archived) : List Delivery :=
  .file object.name object.info object.shortName :: object.contents.deliveries object.name

/-- The reply a call gets that does not fail. Whether an object exists already is left open. -/
def Succeeded : Event H → Prop
  | .call (.openFile .existing _) _ => True
  | .call (.openFile .existingFollowed _) _ => True
  | .call (.openFile ..) reply => ∃ h, reply = .opened h
  | .call (.createDirectory ..) reply => ∃ h, reply = .opened h
  | .call (.createFile ..) reply => ∃ h, reply = .opened h
  | .call (.writeFile _ data) reply => reply = .written data.length
  | .call _ reply => reply.isSuccess
  | _ => True

end StrArc
