import LtrData.StrArc.StreamActions

namespace StrArc

variable {σ H : Type} {c : Config σ H} {K : H → Prop} {N : UnicodeString → Prop} {s : Session σ}

theorem openExisting_acts (File : UnicodeString) :
    Acting c K N (openExisting c File) s fun _ _ => True := by
  unfold openExisting
  apply acting_bind (acting_call (.openFile .existing File) trivial)
  intro opened _ _ _
  split
  · apply acting_bind (acting_call (.openFile .existingFollowed File) trivial)
    intro _ _ _ _
    exact acting_pure trivial
  · exact acting_pure trivial

theorem resetReadonly_acts {hFile : Handle H} (on : On K hFile) (bIncludeThis : Bool)
    (existing : FileBasicInformation) :
    Acting c K N (resetReadonly c hFile bIncludeThis existing) s fun _ _ => True := by
  unfold resetReadonly
  split
  · apply acting_bind (acting_call (.setInformation hFile _) on)
    intro _ _ _ _
    exact acting_pure trivial
  · exact acting_pure trivial

theorem probeExisting_acts (any : ∀ h, K h) (File : UnicodeString)
    (FileInfo : ByHandleFileInformation) :
    Acting c K N (probeExisting c File FileInfo) s fun _ _ => True := by
  unfold probeExisting
  apply acting_bind (openExisting_acts File)
  intro hFile _ _ _
  split
  · next h =>
    apply acting_bind (acting_call (.queryInformation (some h)) trivial)
    intro queried _ _ _
    apply acting_bind (resetReadonly_acts (on_some (any h)) _ _)
    intro existing _ _ _
    apply acting_bind (acting_call (.close (some h)) trivial)
    intro _ _ _ _
    exact acting_pure trivial
  · exact acting_pure trivial

theorem probeIncluded_acts (any : ∀ h, K h) (File : UnicodeString)
    (FileInfo : ByHandleFileInformation) :
    Acting c K N (probeIncluded c File FileInfo) s fun _ _ => True := by
  unfold probeIncluded
  split
  · exact probeExisting_acts any File FileInfo
  · exact acting_pure trivial

theorem createTarget_acts (File : UnicodeString) (FileInfo : ByHandleFileInformation)
    (bIncludeThis bSeekOnly : Bool) (existing : FileBasicInformation) :
    Acting c K N (createTarget c File FileInfo bIncludeThis bSeekOnly existing) s
      fun target _ => On K target.1 := by
  unfold createTarget
  dsimp only
  split
  · exact acting_pure (on_none K)
  split
  · unfold createTargetDirectory
    dsimp only
    apply acting_bind (Q := fun hFile _ => On K hFile)
    · apply acting_bind (acting_call (.createDirectory File true _ _) trivial)
      intro created _ _ facts
      rcases facts with ⟨opens, -⟩
      split
      · apply acting_bind (acting_call (.createDirectory File false _ _) trivial)
        intro created _ _ facts
        rcases facts with ⟨opens, -⟩
        exact acting_pure (opens rfl)
      · exact acting_pure (opens rfl)
    · intro hFile _ _ on
      exact acting_pure on
  · apply acting_bind (acting_call (.createFile .target File _ _ _) trivial)
    intro created _ _ facts
    rcases facts with ⟨opens, -⟩
    exact acting_pure (opens rfl)

theorem callIf_acts (condition : Bool) (request : Call H) (touches : request.touches K N) :
    Acting c K N (callIf c condition request) s fun _ _ => True := by
  unfold callIf
  split
  · apply acting_bind (acting_call request touches)
    intro _ _ _ _
    exact acting_pure trivial
  · exact acting_pure trivial

theorem prepareTarget_acts {hFile : Handle H} (on : On K hFile) (FileInfo : ByHandleFileInformation)
    (ShortName : UnicodeString) (bSeekOnly : Bool) (existing : FileBasicInformation) :
    Acting c K N (prepareTarget c hFile FileInfo ShortName bSeekOnly existing) s
      fun _ _ => True := by
  unfold prepareTarget
  split
  · apply acting_bind (callIf_acts _ (.deviceIoControl hFile .deleteReparsePoint) on)
    intro _ _ _ _
    apply acting_bind (callIf_acts _ (.deviceIoControl hFile .setSparse) on)
    intro _ _ _ _
    exact callIf_acts _ (.setShortFileName hFile ShortName) on
  · exact acting_pure trivial

theorem finishTarget_acts {hFile : Handle H} (on : On K hFile) (FileInfo : ByHandleFileInformation)
    (bSeekOnly : Bool) :
    Acting c K N (finishTarget c hFile FileInfo bSeekOnly) s fun _ _ => True := by
  unfold finishTarget
  split
  · apply acting_bind (acting_call (.getFileInformation hFile) trivial)
    intro now _ _ _
    apply acting_bind (callIf_acts _ (.deviceIoControl hFile (.setCompression _)) on)
    intro _ _ _ _
    exact callIf_acts _ (.setInformation hFile _) on
  · exact acting_pure trivial

theorem countRestored_acts (hFile : Handle H) (bIncludeThis : Bool) :
    Acting c K N (countRestored c hFile bIncludeThis) s fun _ _ => True := by
  unfold countRestored
  split
  · exact acting_countFile.mono fun _ _ _ _ => trivial
  · exact acting_pure trivial

theorem restoreFile_acts (any : ∀ h, K h) (all : ∀ Name, N Name) (File : UnicodeString)
    (FileInfo : ByHandleFileInformation) (ShortName : UnicodeString) :
    Acting c K N (restoreFile c File FileInfo ShortName) s fun _ _ => True := by
  unfold restoreFile
  dsimp only
  apply acting_bind (probeIncluded_acts any _ FileInfo)
  intro probed _ _ _
  apply acting_bind (createTarget_acts _ FileInfo _ _ _)
  intro target _ _ on
  apply acting_bind (prepareTarget_acts on FileInfo ShortName _ _)
  intro _ _ _ _
  apply acting_bind (writeFileFromArchive_acts _ on fun _ => all _)
  intro r _ _ left
  split
  · apply acting_bind (finishTarget_acts left.1 FileInfo _)
    intro _ _ _ _
    apply acting_bind (countRestored_acts _ _)
    intro _ _ _ _
    apply acting_bind (closeOpened_acts _)
    intro _ _ _ _
    exact acting_pure trivial
  · exact acting_pure trivial

end StrArc
