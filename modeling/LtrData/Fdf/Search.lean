import LtrData.Fdf.FileRecordTable

namespace Fdf

open Traced

variable {E F : Type}

structure WIN32_FIND_DATA where
  cFileName : Path
  nFileSize : Nat

mutual

/-- What the finders list of a directory: the subdirectories, and the files for each pattern. -/
inductive Directory
  | mk (subdirectories : Subdirectories) (found : List (List WIN32_FIND_DATA))

inductive Subdirectories
  | nil
  | cons (cFileName : Path) (directory : Directory) (rest : Subdirectories)

end

def maxPathMaxLength : Nat := 32768

def duplicate (szFilePath recorded : Path) : Run E F Unit := fun s =>
  .ok [.duplicate szFilePath recorded] () s

section chkfile

variable [DecidableEq E] [DecidableEq F] (c : Config E F)

/-- A file with a link recorded before is copied into a file of its own. -/
def splitLink (szFilePath : Path) (fr : FileRecord) : Run E F Unit := do
  let dwFileAttrs ← getFileAttributes c szFilePath
  setFileAttributes c szFilePath (some fileAttributeNormal)
  if ← deleteFile c szFilePath then
    setFileAttributes c fr.szFilePath dwFileAttrs
    let _ ← copyFile c fr.szFilePath szFilePath
  else setFileAttributes c szFilePath dwFileAttrs

def deleteLink (szFilePath : Path) (fr : FileRecord) : Run E F Unit := do
  if c.bForceDelete then
    let dwFileAttrs ← getFileAttributes c fr.szFilePath
    setFileAttributes c szFilePath (some fileAttributeNormal)
    let _ ← deleteFile c szFilePath
    setFileAttributes c fr.szFilePath dwFileAttrs
  else
    let _ ← deleteFile c szFilePath

def deleteEqual (szFilePath : Path) : Run E F Unit := do
  if c.bForceDelete then
    let dwFileAttrs ← getFileAttributes c szFilePath
    setFileAttributes c szFilePath (some fileAttributeNormal)
    if ← deleteFile c szFilePath then pure () else setFileAttributes c szFilePath dwFileAttrs
  else
    let _ ← deleteFile c szFilePath

def linkFiles (szFilePath : Path) (fr : FileRecord) : Run E F Bool := do
  if ← createHardLinkToFile c fr.szFilePath szFilePath then pure true
  else createHardLinkToFile c szFilePath fr.szFilePath

def linkEqual (szFilePath : Path) (fr : FileRecord) : Run E F Unit := do
  if c.bForceDelete then
    let dwFileAttrs ← getFileAttributes c szFilePath
    setFileAttributes c szFilePath (some fileAttributeNormal)
    if ← linkFiles c szFilePath fr then pure () else setFileAttributes c szFilePath dwFileAttrs
  else
    let _ ← linkFiles c szFilePath fr

def chkfile (szFilePath : Path) (nFileSize : Nat) : Run E F Unit := do
  match ← find c szFilePath with
  | some fr =>
    if c.bSplitLinks then splitLink c szFilePath fr
    else if c.bDeleteEqual && c.bLinkEqual then deleteLink c szFilePath fr
    else pure ()
  | none =>
    -- files that are not longer than the skip size are equal to no file
    if 0 < c.dwSkipSize ∧ nFileSize ≤ c.dwSkipSize.toNat then pure ()
    else
      match ← findEqualOrAdd c szFilePath with
      | none => pure ()
      | some fr =>
        if szFilePath = fr.szFilePath then pure ()
        else
          duplicate szFilePath fr.szFilePath
          if c.bDeleteEqual then deleteEqual c szFilePath
          else if c.bLinkEqual then linkEqual c szFilePath fr
          else pure ()

/-- The loop over the files that one pattern finds in the directory `cCurrentPath`. -/
def foundLoop (cCurrentPath : Path) : List WIN32_FIND_DATA → Run E F Bool
  | [] => pure true
  | file :: found => do
    if c.bBreak (← asked) then pure false
    else if maxPathMaxLength - cCurrentPath.length < file.cFileName.length + 2 then
      foundLoop cCurrentPath found
    else if c.excluded (cCurrentPath ++ file.cFileName) then foundLoop cCurrentPath found
    else
      if file.nFileSize ≠ 0 then chkfile c (cCurrentPath ++ file.cFileName) file.nFileSize
      foundLoop cCurrentPath found

/-- The length check is unsigned, so that it stops only a pattern that fills the buffer exactly. -/
def patternLoop (cCurrentPath : Path) : List Path → List (List WIN32_FIND_DATA) → Run E F Bool
  | [], _ => pure true
  | pattern :: argv, found => do
    if c.bBreak (← asked) then pure false
    else if BitVec.ofNat 64 maxPathMaxLength - BitVec.ofNat 64 cCurrentPath.length -
        BitVec.ofNat 64 pattern.length < 1 then patternLoop cCurrentPath argv found.tail
    else if ← foundLoop c cCurrentPath (found.headD []) then
      patternLoop cCurrentPath argv found.tail
    else pure false

mutual

/-- `cCurrentPath` is what stands in the buffer in front of pCurrentPathPtr. -/
def dosubdir : Directory → Path → Run E F Bool
  | .mk subdirectories found, cCurrentPath => do
    if c.bRecurse then
      if ← subdirectoryLoop subdirectories cCurrentPath then patternLoop c cCurrentPath c.argv found
      else pure false
    else patternLoop c cCurrentPath c.argv found

def subdirectoryLoop : Subdirectories → Path → Run E F Bool
  | .nil, _ => pure true
  | .cons cFileName directory rest, cCurrentPath => do
    let path := cCurrentPath ++ cFileName ++ [0x5c]
    if c.bBreak (← asked) then pure false
    else if maxPathMaxLength - cCurrentPath.length < cFileName.length + 2 then
      subdirectoryLoop rest cCurrentPath
    else if cFileName = [0x2e] ∨ cFileName = [0x2e, 0x2e] then subdirectoryLoop rest cCurrentPath
    else if maxPathMaxLength - cFileName.length - cCurrentPath.length < 4 then
      subdirectoryLoop rest cCurrentPath
    else if c.excluded path then subdirectoryLoop rest cCurrentPath
    else if ← dosubdir directory path then subdirectoryLoop rest cCurrentPath
    else pure false

end

end chkfile

section dosubdir

variable [DecidableEq E] [DecidableEq F] {c : Config E F} {kept : Event → Prop}
  {P : State E F → State E F → Prop}

/-- What every call of chkfile does to the state, a walk through the directories does. -/
structure Walks (kept : Event → Prop) (c : Config E F) (P : State E F → State E F → Prop) : Prop where
  quiet : ∀ {s s'}, Quiet s s' → P s s'
  trans : ∀ {s s' s''}, P s s' → P s' s'' → P s s''
  chkfile : ∀ szFilePath nFileSize s, Runs kept (chkfile c szFilePath nFileSize) s fun _ s' => P s s'

namespace Walks

variable (walks : Walks kept c P)

include walks

theorem pure {α : Type} (a : α) (s : State E F) :
    Runs kept (Pure.pure a : Run E F α) s fun _ s' => P s s' := runs_pure (walks.quiet ⟨rfl, rfl⟩)

theorem bind {α β : Type} {x : Run E F α} {f : α → Run E F β} {s : State E F}
    (first : Runs kept x s fun _ s' => P s s')
    (next : ∀ a s', Runs kept (f a) s' fun _ s'' => P s' s'') :
    Runs kept (x >>= f) s fun _ s' => P s s' :=
  runs_bind first fun a s' along => (next a s').mono fun _ _ along' => walks.trans along along'

theorem asked (s : State E F) : Runs kept (asked : Run E F Nat) s fun _ s' => P s s' :=
  runs_of_ok (x := Fdf.asked) rfl fun _ => walks.quiet ⟨rfl, rfl⟩

theorem foundLoop (cCurrentPath : Path) (found : List WIN32_FIND_DATA) (s : State E F) :
    Runs kept (foundLoop c cCurrentPath found) s fun _ s' => P s s' := by
  induction found generalizing s with
  | nil => exact walks.pure true s
  | cons file found ih =>
    unfold Fdf.foundLoop
    refine walks.bind (walks.asked s) fun count s' => ?_
    split
    · exact walks.pure false s'
    · split
      · exact ih s'
      · split
        · exact ih s'
        · by_cases empty : file.nFileSize = 0
          · rw [if_neg (not_not.mpr empty)]
            exact ih s'
          · rw [if_pos empty]
            exact walks.bind (walks.chkfile _ _ s') fun _ s'' => ih s''

theorem patternLoop (cCurrentPath : Path) (argv : List Path) (found : List (List WIN32_FIND_DATA))
    (s : State E F) : Runs kept (patternLoop c cCurrentPath argv found) s fun _ s' => P s s' := by
  induction argv generalizing found s with
  | nil => exact walks.pure true s
  | cons pattern argv ih =>
    unfold Fdf.patternLoop
    refine walks.bind (walks.asked s) fun count s' => ?_
    split
    · exact walks.pure false s'
    · split
      · exact ih found.tail s'
      · refine walks.bind (walks.foundLoop cCurrentPath _ s') fun goes_on s'' => ?_
        cases goes_on with
        | true => exact ih found.tail s''
        | false => exact walks.pure false s''

mutual

theorem dosubdir : ∀ (directory : Directory) (cCurrentPath : Path) (s : State E F),
    Runs kept (dosubdir c directory cCurrentPath) s fun _ s' => P s s'
  | .mk subdirectories found, cCurrentPath, s => by
    unfold Fdf.dosubdir
    by_cases recurse : c.bRecurse = true
    · rw [if_pos recurse]
      refine walks.bind (subdirectoryLoop subdirectories cCurrentPath s) fun goes_on s' => ?_
      cases goes_on with
      | true => exact walks.patternLoop cCurrentPath c.argv found s'
      | false => exact walks.pure false s'
    · rw [if_neg recurse]
      exact walks.patternLoop cCurrentPath c.argv found s

theorem subdirectoryLoop : ∀ (subdirectories : Subdirectories) (cCurrentPath : Path) (s : State E F),
    Runs kept (subdirectoryLoop c subdirectories cCurrentPath) s fun _ s' => P s s'
  | .nil, _, s => walks.pure true s
  | .cons cFileName directory rest, cCurrentPath, s => by
    have rest := subdirectoryLoop rest cCurrentPath
    unfold Fdf.subdirectoryLoop
    refine walks.bind (walks.asked s) fun count s' => ?_
    split
    · exact walks.pure false s'
    · split
      · exact rest s'
      · split
        · exact rest s'
        · split
          · exact rest s'
          · split
            · exact rest s'
            · refine walks.bind (dosubdir directory _ s') fun goes_on s'' => ?_
              cases goes_on with
              | true => exact rest s''
              | false => exact walks.pure false s''

end

end Walks

end dosubdir

end Fdf
