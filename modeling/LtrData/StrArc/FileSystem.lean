import LtrData.StrArc.TreeActions

namespace StrArc

variable {σ H Obj St : Type}

def Call.createdName : Call H → Option UnicodeString
  | createDirectory Name .. => some Name
  | createFile _ Name .. => some Name
  | createHardLink _ Target => some Target
  | _ => none

def Call.changedHandle : Call H → Handle H
  | setInformation hFile _ => hFile
  | deviceIoControl hFile _ => hFile
  | setShortFileName hFile _ => hFile
  | setFilePointer hFile _ => hFile
  | setEndOfFile hFile => hFile
  | backupWrite hFile _ _ => hFile
  | writeFile hFile _ => hFile
  | deleteFile hFile => hFile
  | backupCopyFile _ target => target
  | _ => none

/-- A file system: objects with a state, and names for them. A handle stays on the object it was
    opened on. Each call leaves alone what it is not about. -/
structure FileSystem (σ H Obj St : Type) where
  system : System σ H
  object : H → Obj
  named : σ → UnicodeString → Option Obj
  state : σ → Obj → St
  basic : St → FileBasicInformation
  /-- An object changes only through a handle to it, old or new. -/
  state_eq : ∀ request d o,
    (∀ h, request.changedHandle = some h → object h ≠ o) →
    (request.creates = true → ∀ h, (system request d).1 = .opened h → object h ≠ o) →
    state (system request d).2 o = state d o
  /-- A name goes over to another object only where it is the one that is created. -/
  named_eq : ∀ request d o Name, named d Name = some o →
    (∀ h, request.changedHandle = some h → object h ≠ o) →
    request.createdName ≠ some Name → named (system request d).2 Name = some o
  /-- A create call without success leaves the name where it is. -/
  named_of_failed : ∀ request d o Name, named d Name = some o → request.creates = true →
    (∀ h, (system request d).1 ≠ .opened h) → named (system request d).2 Name = some o
  /-- Creating a name that exists opens the object of this name. -/
  opened : ∀ request d o Name h, named d Name = some o → request.creates = true →
    request.createdName = some Name → (system request d).1 = .opened h → object h = o
  queried : ∀ d h info, (system (.queryInformation (some h)) d).1 = .information info →
    info = basic (state d (object h))

variable (fs : FileSystem σ H Obj St)

/-- The object has this state, and this name is one of its names. -/
def FileSystem.Keeps (o : Obj) (Name : UnicodeString) (st : St) (d : σ) : Prop :=
  fs.state d o = st ∧ fs.named d Name = some o

variable {fs} {o : Obj} {Name : UnicodeString} {st : St} {d d' : σ}

theorem FileSystem.Keeps.step (keeps : fs.Keeps o Name st d) {request : Call H}
    (touches : request.touches (fun h => fs.object h ≠ o) (· ≠ Name))
    (opens : Opens (fun h => fs.object h ≠ o) (.call request (fs.system request d).1)) :
    fs.Keeps o Name st (fs.system request d).2 := by
  obtain ⟨state, named⟩ := keeps
  have changed : ∀ h, request.changedHandle = some h → fs.object h ≠ o := by
    intro h changes
    cases request <;> first | exact touches h changes | cases changes
  have created : request.creates = true →
      ∀ h, (fs.system request d).1 = .opened h → fs.object h ≠ o := by
    intro creates h reply
    rw [reply] at opens
    exact opens creates
  refine ⟨(fs.state_eq request d o changed created).trans state, ?_⟩
  by_cases creates : request.creates = true
  · by_cases reply : ∃ h, (fs.system request d).1 = .opened h
    · obtain ⟨h, reply⟩ := reply
      apply fs.named_eq request d o Name named changed
      intro same
      exact created creates h reply (fs.opened request d o Name h named creates same reply)
    · exact fs.named_of_failed request d o Name named creates fun h same => reply ⟨h, same⟩
  · apply fs.named_eq request d o Name named changed
    cases request <;> simp [Call.createdName, Call.creates] at creates ⊢
    exact touches

theorem FileSystem.Keeps.follows {t : List (Event H)} (keeps : fs.Keeps o Name st d)
    (follows : Follows fs.system d t d')
    (touches : ∀ e ∈ t, Touches (fun h => fs.object h ≠ o) (· ≠ Name) e)
    (opens : ∀ e ∈ t, Opens (fun h => fs.object h ≠ o) e) : fs.Keeps o Name st d' := by
  induction t generalizing d with
  | nil =>
    cases follows
    exact keeps
  | cons e t ih =>
    have rest (d₁ : σ) (keeps : fs.Keeps o Name st d₁) (follows : Follows fs.system d₁ t d') :
        fs.Keeps o Name st d' :=
      ih keeps follows (fun e mem => touches e (List.mem_cons_of_mem _ mem))
        (fun e mem => opens e (List.mem_cons_of_mem _ mem))
    cases e with
    | call request reply =>
      obtain ⟨rfl, follows⟩ := follows
      exact rest _ (keeps.step (touches _ List.mem_cons_self) (opens _ List.mem_cons_self)) follows
    | _ => exact rest d keeps follows

end StrArc
