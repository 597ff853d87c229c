import Stratum.Metadata.StateMachine

namespace stratum.metadata.StateMachine

/-! The version chain of a knowledge base: which versions a deletion removes, and how the
survivors are rewired. -/

/-- The versions of `kbID` other than `id` whose metadata names `id` as parent. -/
def childrenOf (sm : StateMachine) (kbID : String) (id : Nat) : List Nat :=
  (sm.versionsByKB kbID).filter fun candidate =>
    candidate ≠ id ∧ (sm.versions candidate).any fun child => child.parentVersionID = id

/-- The breadth-first walk of `collectVersionSubtree`. Every listed version is queued at
most once, by its one parent, so the length of the list bounds the walk. -/
def collectLoop (sm : StateMachine) (kbID : String) :
    Nat → List Nat → List Nat → List Nat
  | 0, _, out => out
  | _ + 1, [], out => out
  | fuel + 1, id :: queue, out =>
    if id ∈ out then sm.collectLoop kbID fuel queue out
    else
      let found := (sm.childrenOf kbID id).filter fun child => child ∉ id :: out
      sm.collectLoop kbID fuel (queue ++ found) (out ++ [id])

/-- `rootID` and every descendant of it within `kbID`. -/
def collectVersionSubtree (sm : StateMachine) (kbID : String) (rootID : Nat) :
    List Nat :=
  sm.collectLoop kbID ((sm.versionsByKB kbID).length + 1) [rootID] []

/-- The walk of `collectVersionAncestors` from `cur`, having passed `seen`. -/
def ancestorsLoop (sm : StateMachine) (kbID : String) :
    Nat → Nat → List Nat → List Nat → List Nat
  | 0, _, _, out => out
  | fuel + 1, cur, seen, out =>
    match sm.versions cur with
    | none => out
    | some v =>
      if v.parentVersionID = 0 ∨ v.parentVersionID ∈ seen then out
      else
        match sm.versions v.parentVersionID with
        | none => out
        | some parent =>
          if parent.kbID ≠ kbID then out
          else
            sm.ancestorsLoop kbID fuel v.parentVersionID (v.parentVersionID :: seen)
              (out ++ [v.parentVersionID])

/-- Every ancestor of `versionID` within `kbID`, nearest first. A walk passes a version at
most once, so the length of the list bounds it. -/
def collectVersionAncestors (sm : StateMachine) (kbID : String) (versionID : Nat) :
    List Nat :=
  sm.ancestorsLoop kbID ((sm.versionsByKB kbID).length + 1) versionID [versionID] []

/-- The versions that a deletion of `versionID` in `mode` removes. -/
def versionDeleteTargets (sm : StateMachine) (kbID : String) (versionID : Nat) :
    VersionDeleteMode → Except Error (List Nat)
  | .subtree => .ok (sm.collectVersionSubtree kbID versionID)
  | .single => .ok [versionID]
  | .ancestors =>
    let keep := sm.collectVersionSubtree kbID versionID
    .ok ((sm.collectVersionAncestors kbID versionID).foldl (fun out ancestor =>
      (sm.collectVersionSubtree kbID ancestor).foldl (fun out id =>
        if id ∈ keep ∨ id ∈ out then out else out ++ [id]) out) [])
  | .other mode =>
    .error (Sentinel.invalidArgument.wrap s!"unknown version delete mode {mode}")

/-- Whether a version still counts as being written for a deletion's admission. -/
def deleteBlockedByPending (v : VersionMeta) : Bool :=
  v.indexStatus = .pending ∧ v.dataStatus ≠ .failedPermanent

/-- Why one version of the removed set may not be deleted. -/
def targetRefused (sm : StateMachine) (kb : KnowledgeBaseMeta) (kbID : String)
    (versionID : Nat) : Option Error :=
  if kb.activeVersionID = versionID then
    some (Sentinel.versionIsActive.wrap s!"version {versionID} is the active version of {kbID}")
  else if deleteBlockedByPending (sm.version versionID) then
    some (Sentinel.versionPending.wrap s!"version {versionID} is PENDING")
  else none

/-- Rejects a deletion that would strand a version which stays and is still being written
from a parent in the removed set. -/
def validateSurvivorsNotPending (sm : StateMachine) (kbID : String)
    (removed : List Nat) : Option Error :=
  (sm.versionsByKB kbID).findSome? fun id =>
    let v := sm.version id
    if id ∉ removed ∧ v.parentVersionID ∈ removed ∧ deleteBlockedByPending v then
      let parent := v.parentVersionID
      some (Sentinel.versionPending.wrap
        s!"version {id} is PENDING and still depends on its to-be-deleted parent {parent}")
    else none

/-- The version a removed version's children are attached to: its parent, or `0` when that
parent is missing, foreign, or being deleted itself. -/
def spliceParent (sm : StateMachine) (kbID : String) (parentVersionID : Nat) : Nat :=
  if parentVersionID = 0 then 0
  else
    match sm.versions parentVersionID with
    | none => 0
    | some parent => if parent.kbID ≠ kbID ∨ parent.deleting then 0 else parentVersionID

/-- Rewires the children of `fromVersionID` within `kbID` onto `newParentVersionID`. -/
def reparentChildren (sm : StateMachine) (kbID : String)
    (fromVersionID newParentVersionID : Nat) : StateMachine :=
  (sm.childrenOf kbID fromVersionID).foldl (fun sm id =>
    sm.setVersion id { sm.version id with parentVersionID := newParentVersionID }) sm

/-- The structural rewiring a deletion mode implies for the survivors. -/
def rewire (sm : StateMachine) (kbID : String) (versionID : Nat) (root : VersionMeta) :
    VersionDeleteMode → StateMachine
  | .single =>
    sm.reparentChildren kbID versionID (sm.spliceParent kbID root.parentVersionID)
  | .ancestors =>
    if root.parentVersionID ≠ 0 then sm.setVersion versionID { root with parentVersionID := 0 }
    else sm
  | _ => sm

def markDeleting (sm : StateMachine) (targets : List Nat) : StateMachine :=
  targets.foldl (fun sm id => sm.setVersion id { sm.version id with deleting := true }) sm

end stratum.metadata.StateMachine
