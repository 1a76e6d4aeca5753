import LtrData.StrArc.Links

namespace StrArc

open Traced

variable {F : Type}

/-- The arguments of one call of MatchLink. -/
structure MatchCall where
  dwVolumeSerialNumber : DWORD
  NodeNumber : LONGLONG
  Name : UnicodeString
deriving DecidableEq

/-- What tells two files apart: the volume and the low 48 bits of the node number. -/
def MatchCall.key (call : MatchCall) : DWORD × LONGLONG :=
  (call.dwVolumeSerialNumber, trackedNumber call.NodeNumber)

def MatchCall.item (call : MatchCall) : LinkTrackerItem :=
  ⟨call.dwVolumeSerialNumber, trackedNumber call.NodeNumber, call.Name⟩

def MatchCall.run (call : MatchCall) : Backup F (Option UnicodeString) :=
  matchLink call.dwVolumeSerialNumber call.NodeNumber call.Name

def matchLinks : List MatchCall → Backup F (List (Option UnicodeString))
  | [] => pure []
  | call :: calls => do
    let LinkName ← call.run
    let LinkNames ← matchLinks calls
    pure (LinkName :: LinkNames)

/-- The earliest call for the same file. -/
def firstCall (calls : List MatchCall) (call : MatchCall) : Option MatchCall :=
  calls.find? (·.key = call.key)

/-- The map from files to first names that the tracker is to be. -/
def firstName (calls : List MatchCall) (call : MatchCall) : Option UnicodeString :=
  (firstCall calls call).map (·.Name)

theorem firstCall_append (calls : List MatchCall) (call v : MatchCall) :
    firstCall (calls ++ [call]) v =
      (firstCall calls v).or (if call.key = v.key then some call else none) := by
  simp only [firstCall, List.find?_append, List.find?_singleton, decide_eq_true_eq]

theorem firstCall_congr {calls : List MatchCall} {call v : MatchCall} (same : call.key = v.key) :
    firstCall calls v = firstCall calls call := by
  rw [firstCall, firstCall, same]

theorem linkSlot_lt (n : LONGLONG) : linkSlot n < 256 := by
  have masked : (n &&& 0xFF0).toNat ≤ 0xFF0 := by
    rw [BitVec.toNat_and]
    exact Nat.and_le_right
  rw [linkSlot, BitVec.toNat_ushiftRight, Nat.shiftRight_eq_div_pow]
  omega

theorem linkSlot_of_key {call v : MatchCall} (same : call.key = v.key) :
    linkSlot call.NodeNumber = linkSlot v.NodeNumber := by
  have number : trackedNumber call.NodeNumber = trackedNumber v.NodeNumber := (Prod.ext_iff.mp same).2
  rw [← linkSlot_trackedNumber, number, linkSlot_trackedNumber]

theorem item_match (call v : MatchCall) :
    call.item.Match v.dwVolumeSerialNumber v.NodeNumber = decide (call.key = v.key) := by
  rw [Bool.eq_iff_iff, LinkTrackerItem.Match, decide_eq_true_iff, decide_eq_true_iff, MatchCall.key,
    MatchCall.key, Prod.mk.injEq]
  rfl

/-- A search through the slot of any file ends at the earliest call for it. -/
def Remembers (calls : List MatchCall) (items : Nat → List LinkTrackerItem) : Prop :=
  ∀ v : MatchCall, (items (linkSlot v.NodeNumber)).find? (·.Match v.dwVolumeSerialNumber v.NodeNumber) =
    (firstCall calls v).map MatchCall.item

theorem remembers_empty : Remembers [] fun _ => [] := fun _ => rfl

/-- The tracker behind one more call. -/
def trackerBehind (calls : List MatchCall) (items : Nat → List LinkTrackerItem) (call : MatchCall) :
    Nat → List LinkTrackerItem := fun slot =>
  (if firstName calls call = none ∧ slot = linkSlot call.NodeNumber then [call.item] else []) ++
    items slot

theorem Remembers.step {calls : List MatchCall} {items : Nat → List LinkTrackerItem}
    (remembers : Remembers calls items) (call : MatchCall) :
    Remembers (calls ++ [call]) (trackerBehind calls items call) := by
  intro v
  rw [firstCall_append, trackerBehind, List.find?_append, remembers v]
  by_cases same : call.key = v.key
  · rw [if_pos same, linkSlot_of_key same, firstCall_congr same]
    cases known : firstCall calls call with
    | some first => simp [firstName, known]
    | none => simp [firstName, known, item_match, same]
  · rw [if_neg same, Option.or_none]
    -- The new item, if it is in this slot at all, is passed over.
    split
    · rw [List.find?_singleton, item_match, decide_eq_false same]
      rfl
    · rfl

theorem Remembers.run {calls : List MatchCall} {s : BackupSession F}
    (remembers : Remembers calls s.LinkTrackerItems) (call : MatchCall) :
    call.run s = .ok [] (firstName calls call)
      { s with LinkTrackerItems := trackerBehind calls s.LinkTrackerItems call } := by
  unfold MatchCall.run matchLink
  dsimp only
  rw [remembers call]
  cases known : firstCall calls call with
  | some first =>
    have name : firstName calls call = some first.Name := by rw [firstName, known, Option.map_some]
    have kept : trackerBehind calls s.LinkTrackerItems call = s.LinkTrackerItems := by
      funext slot
      simp [trackerBehind, name]
    rw [name, kept]
    rfl
  | none =>
    have name : firstName calls call = none := by rw [firstName, known, Option.map_none]
    have added : (fun slot => if slot = linkSlot call.NodeNumber then
        call.item :: s.LinkTrackerItems (linkSlot call.NodeNumber) else s.LinkTrackerItems slot) =
        trackerBehind calls s.LinkTrackerItems call := by
      funext slot
      simp only [trackerBehind, name, true_and]
      split
      · next here => rw [here, List.singleton_append]
      · rfl
    rw [name, ← added]
    rfl

theorem Remembers.runs {calls : List MatchCall} {s : BackupSession F}
    (remembers : Remembers calls s.LinkTrackerItems) (more : List MatchCall) :
    ∃ LinkNames s', matchLinks more s = .ok [] LinkNames s' ∧
      Remembers (calls ++ more) s'.LinkTrackerItems ∧
      ∀ slot, s.LinkTrackerItems slot <:+ s'.LinkTrackerItems slot := by
  induction more generalizing calls s with
  | nil =>
    rw [List.append_nil]
    exact ⟨[], s, rfl, remembers, fun _ => List.suffix_rfl⟩
  | cons call more ih =>
    obtain ⟨LinkNames, s', run, remembers', kept⟩ :=
      ih (s := { s with LinkTrackerItems := trackerBehind calls s.LinkTrackerItems call })
        (remembers.step call)
    rw [List.append_assoc, List.singleton_append] at remembers'
    refine ⟨firstName calls call :: LinkNames, s', ?_, remembers', fun slot => ?_⟩
    · rw [matchLinks, bind_eq_of_ok (remembers.run call), bind_eq_of_ok run]
      rfl
    · exact (List.suffix_append _ _).trans (kept slot)

/-- Whatever was asked before, a call answers with the name of the earliest call for its file,
    stores its own name exactly if there was none, and what is stored stays as it is. -/
theorem matchLinks_firstName (s : BackupSession F) (before after : List MatchCall) (call : MatchCall) :
    ∃ LinkNames s₁ s₂ LinkNames' s₃,
      matchLinks before { s with LinkTrackerItems := fun _ => [] } = .ok [] LinkNames s₁ ∧
      call.run s₁ = .ok [] (firstName before call) s₂ ∧
      matchLinks after s₂ = .ok [] LinkNames' s₃ ∧
      (∀ slot, s₂.LinkTrackerItems slot =
        (if firstName before call = none ∧ slot = linkSlot call.NodeNumber then [call.item] else []) ++
          s₁.LinkTrackerItems slot) ∧
      ∀ slot, s₂.LinkTrackerItems slot <:+ s₃.LinkTrackerItems slot := by
  obtain ⟨LinkNames, s₁, run, remembers, -⟩ :=
    Remembers.runs (s := { s with LinkTrackerItems := fun _ => [] }) remembers_empty before
  rw [List.nil_append] at remembers
  obtain ⟨LinkNames', s₃, run', -, kept⟩ :=
    Remembers.runs (s := { s₁ with LinkTrackerItems := trackerBehind before s₁.LinkTrackerItems call })
      (remembers.step call) after
  exact ⟨LinkNames, s₁, _, LinkNames', s₃, run, remembers.run call, run', fun _ => rfl, kept⟩

end StrArc
