import Stratum.Metadata.Chain

namespace stratum.metadata.StateMachine

open Function

/-- Why `parentVersionID` may not become the parent of a new version of `kbID`. The chain is
linear: a parent has at most one child. Parent `0` is not checked at all. -/
def parentRefused (sm : StateMachine) (kbID : String) (parentVersionID : Nat) :
    Option Error :=
  if parentVersionID = 0 then none
  else
    match sm.versions parentVersionID with
    | none => some Sentinel.invalidParentVersion.err
    | some parent =>
      let status := parent.dataStatus.toString
      if parent.kbID ≠ kbID then
        some (Sentinel.invalidParentVersion.wrap
          s!"parent version {parentVersionID} belongs to a different knowledge base")
      else if parent.dataStatus = .pending then
        some (Sentinel.parentNotDurable.wrap
          s!"parent version {parentVersionID} has no durable data (data_status={status})")
      else if parent.dataStatus ≠ .durable then
        some (Sentinel.invalidParentVersion.wrap
          s!"parent version {parentVersionID} has no durable data (data_status={status})")
      else if parent.deleting then
        some (Sentinel.invalidParentVersion.wrap
          s!"parent version {parentVersionID} is being deleted")
      else
        ((sm.versionsByKB kbID).find? fun id =>
          (sm.versions id).any fun v => v.parentVersionID = parentVersionID).map fun id =>
            Sentinel.invalidParentVersion.wrap
              s!"parent version {parentVersionID} already has child version {id}"

/-- Allocates the next version id and writes the new version's metadata. `now` is the
node's clock; the write-ahead record that precedes this is local and its failure is only
logged. -/
def allocateVersion (now : Int) (sm : StateMachine) (kbID : String)
    (parentVersionID : Nat) (clientRequestID : String) : StateMachine :=
  let versionID := sm.nextVersionID
  { sm with
    nextVersionID := versionID + 1
    versions := update sm.versions versionID
      (some { versionID, parentVersionID, kbID, createdAt := now })
    versionsByKB := update sm.versionsByKB kbID (sm.versionsByKB kbID ++ [versionID])
    chainSeq := sm.chainSeq + 1
    versionsByRequest :=
      if clientRequestID = "" then sm.versionsByRequest
      else update sm.versionsByRequest (requestKey kbID clientRequestID) (some versionID) }

/-- The version an earlier application of the same client request allocated. -/
def requestedVersion (sm : StateMachine) (kbID clientRequestID : String) : Option Nat :=
  if clientRequestID = "" then none else sm.versionsByRequest (requestKey kbID clientRequestID)

def applyCreateVersion (now : Int) (sm : StateMachine) (kbID : String)
    (parentVersionID : Nat) (clientRequestID : String) : StateMachine × ApplyResult :=
  match sm.kbs kbID with
  | none => sm.reject Sentinel.knowledgeBaseNotFound.err
  | some _ =>
    -- A repeated request is answered before the parent is looked at: the parent may have
    -- moved on since the first attempt.
    match sm.requestedVersion kbID clientRequestID with
    | some id => (sm, { versionID := id })
    | none =>
      match sm.parentRefused kbID parentVersionID with
      | some e => sm.reject e
      | none =>
        (sm.allocateVersion now kbID parentVersionID clientRequestID,
          { versionID := sm.nextVersionID })

def applyUpdateVersionStatus (sm : StateMachine) (versionID : Nat) (status : IndexStatus)
    (nodeID : Int) : StateMachine × ApplyResult :=
  match sm.versions versionID with
  | none => sm.reject Sentinel.versionNotFound.err
  | some v =>
    (sm.setVersion versionID
      { v with
        indexStatus := status
        indexReadyNodes :=
          if nodeID ≠ 0 ∧ status = .ready then withIndexReadyNode v.indexReadyNodes nodeID
          else v.indexReadyNodes }).accept

/-- The writer's digest makes the data side durable, unless the version is retired. -/
def applyUpdateVersionSummary (sm : StateMachine) (versionID : Nat)
    (docIDSetHash : String) : StateMachine × ApplyResult :=
  match sm.versions versionID with
  | none => sm.reject Sentinel.versionNotFound.err
  | some v =>
    if v.dataStatus = .failedPermanent ∨ v.indexStatus = .failedPermanent then sm.accept
    else (sm.setVersion versionID { v with docIDSetHash, dataStatus := .durable }).accept

def applyMarkDataDurable (sm : StateMachine) (versionID : Nat) :
    StateMachine × ApplyResult :=
  match sm.versions versionID with
  | none => sm.reject Sentinel.versionNotFound.err
  | some v =>
    if v.dataStatus ≠ .pending then sm.accept
    else (sm.setVersion versionID { v with dataStatus := .durable }).accept

def differentKB (versionID : Nat) : Error :=
  Sentinel.versionNotFound.wrap s!"version {versionID} belongs to a different knowledge base"

def applyMarkVersionFailedPermanent (sm : StateMachine) (kbID : String) (versionID : Nat)
    (failureSide : FailureSide) (failureReason : String) (failureCount : Int) :
    StateMachine × ApplyResult :=
  match sm.versions versionID with
  | none => sm.reject Sentinel.versionNotFound.err
  | some v =>
    if v.kbID ≠ kbID then sm.reject (differentKB versionID)
    else
      match failureSide with
      | .index =>
        (sm.setVersion versionID
          { v with indexStatus := .failedPermanent, failureReason, failureCount,
                   failureSide }).accept
      | .data =>
        if v.dataStatus = .durable then
          sm.reject (Sentinel.versionDataSettled.wrap
            s!"version {versionID} is already durable on the data side; refusing the terminal verdict")
        else
          (sm.setVersion versionID
            { v with dataStatus := .failedPermanent, failureReason, failureCount,
                     failureSide }).accept

def applyRetryVersion (sm : StateMachine) (kbID : String) (versionID : Nat)
    (failureSide : FailureSide) : StateMachine × ApplyResult :=
  match sm.versions versionID with
  | none => sm.reject Sentinel.versionNotFound.err
  | some v =>
    let indexText := v.indexStatus.toString
    let dataText := v.dataStatus.toString
    if v.kbID ≠ kbID then sm.reject (differentKB versionID)
    else if v.deleting then
      sm.reject (Sentinel.versionDeleting.wrap s!"version {versionID} is being deleted")
    else
      match failureSide with
      | .index =>
        if v.indexStatus ≠ .failedPermanent then
          sm.reject (Sentinel.versionNotFailedPermanent.wrap
            s!"version {versionID}'s index side is {indexText}, not FAILED_PERMANENT")
        else
          let v := { v with indexStatus := .pending }
          -- The cause chain goes once neither side is terminal any more.
          (sm.setVersion versionID
            (if v.dataStatus ≠ .failedPermanent then
              { v with failureReason := "", failureCount := 0, failureSide := .data }
            else v)).accept
      | .data =>
        if v.dataStatus = .failedPermanent then
          sm.reject (Sentinel.versionNotFailedPermanent.wrap
            s!"version {versionID}'s data side is FAILED_PERMANENT: a data-side verdict cannot be retried, abandon the version instead")
        else
          sm.reject (Sentinel.versionNotFailedPermanent.wrap
            s!"version {versionID}'s data side is {dataText}, not FAILED_PERMANENT")

def applyRollback (sm : StateMachine) (kbID : String) (targetVersionID : Nat) :
    StateMachine × ApplyResult :=
  match sm.kbs kbID with
  | none => sm.reject Sentinel.knowledgeBaseNotFound.err
  | some kb =>
    match sm.versions targetVersionID with
    | none => sm.reject Sentinel.versionNotFound.err
    | some v =>
      if v.kbID ≠ kbID then sm.reject Sentinel.versionNotFound.err
      else if v.deleting then
        sm.reject (Sentinel.versionDeleting.wrap
          s!"target version {targetVersionID} is being deleted")
      else (sm.setKB kbID { kb with activeVersionID := targetVersionID }).accept

/-- Validates the whole removed set before anything is changed, rewires the survivors, then
marks the set. -/
def applyMarkVersionDeleting (sm : StateMachine) (kbID : String) (versionID : Nat)
    (mode : VersionDeleteMode) : StateMachine × ApplyResult :=
  match sm.kbs kbID with
  | none => sm.reject Sentinel.knowledgeBaseNotFound.err
  | some kb =>
    match sm.versions versionID with
    | none => sm.reject Sentinel.versionNotFound.err
    | some root =>
      if root.kbID ≠ kbID then sm.reject (differentKB versionID)
      else
        match sm.versionDeleteTargets kbID versionID mode with
        | .error e => sm.reject e
        | .ok targets =>
          match targets.findSome? (sm.targetRefused kb kbID) with
          | some e => sm.reject e
          | none =>
            match sm.validateSurvivorsNotPending kbID targets with
            | some e => sm.reject e
            | none =>
              ((sm.rewire kbID versionID root mode).markDeleting targets,
                { deletedVersionIDs := targets })

def applyRemoveVersionMeta (sm : StateMachine) (kbID : String) (versionID : Nat) :
    StateMachine × ApplyResult :=
  match sm.versions versionID with
  | none => sm.accept
  | some v =>
    if v.kbID ≠ kbID then sm.reject (differentKB versionID)
    else
      (((sm.removeVersion kbID versionID).dropRequestMappings kbID versionID).recordDeletion
        kbID versionID).accept

/-- Abandons a version whose write never landed: it must still be pending, inactive and
childless when the command is applied. Nothing is recorded in the deletion log. -/
def applyDiscardVersion (sm : StateMachine) (kbID : String) (versionID : Nat) :
    StateMachine × ApplyResult :=
  match sm.kbs kbID with
  | none => sm.reject Sentinel.knowledgeBaseNotFound.err
  | some kb =>
    match sm.versions versionID with
    | none => sm.reject Sentinel.versionNotFound.err
    | some v =>
      let status := v.dataStatus.toString
      let deleting := v.deleting
      if v.kbID ≠ kbID then sm.reject Sentinel.versionNotFound.err
      else if kb.activeVersionID = versionID then
        sm.reject (Sentinel.versionIsActive.wrap
          s!"version {versionID} is the active version of {kbID}")
      else if v.dataStatus ≠ .pending ∨ v.deleting then
        sm.reject (Sentinel.versionNotPending.wrap
          s!"version {versionID} is not PENDING (data_status={status}, deleting={deleting})")
      else
        match (sm.versionsByKB kbID).find? fun id =>
            (sm.versions id).any fun child => child.parentVersionID = versionID with
        | some id =>
          sm.reject (Sentinel.invalidParentVersion.wrap
            s!"version {versionID} has child version {id}")
        | none =>
          ((sm.removeVersion kbID versionID).dropRequestMappings kbID versionID).accept

/-- Removes a knowledge base with all its versions in one step; the deletion log gets one
entry for the whole of it. -/
def applyRemoveKBMeta (sm : StateMachine) (kbID : String) : StateMachine × ApplyResult :=
  let removed : StateMachine :=
    { sm with
      kbs := update sm.kbs kbID none
      versions := fun id => if id ∈ sm.versionsByKB kbID then none else sm.versions id
      versionsByKB := update sm.versionsByKB kbID []
      chainSeq := sm.chainSeq + 1 }
  ((removed.dropRequestMappings kbID 0).recordDeletion kbID 0).accept

def applySetKBStatus (sm : StateMachine) (kbID : String) (status : KBStatus) :
    StateMachine × ApplyResult :=
  match sm.kbs kbID with
  | none => sm.reject Sentinel.knowledgeBaseNotFound.err
  | some kb => (sm.setKB kbID { kb with status }).accept

/-- Applies one replicated command. `now` is the clock reading of the node that applies it;
the rest of the input is the same on every node. -/
def apply (now : Int) (sm : StateMachine) : Command → StateMachine × ApplyResult
  | .createKB kb =>
    (sm.setKB kb.kbID
      { kb with status := if kb.status = .active then .active else kb.status }).accept
  | .markKBDeleting kbID => sm.applySetKBStatus kbID .deleting
  | .markKBDeleteFailed kbID => sm.applySetKBStatus kbID .deleteFailed
  | .removeKBMeta kbID => sm.applyRemoveKBMeta kbID
  | .createVersion kbID parentVersionID clientRequestID =>
    sm.applyCreateVersion now kbID parentVersionID clientRequestID
  | .updateVersionStatus versionID status nodeID =>
    sm.applyUpdateVersionStatus versionID status nodeID
  | .updateVersionSummary versionID docIDSetHash =>
    sm.applyUpdateVersionSummary versionID docIDSetHash
  | .rollback kbID targetVersionID => sm.applyRollback kbID targetVersionID
  | .markVersionDeleting kbID versionID mode => sm.applyMarkVersionDeleting kbID versionID mode
  | .removeVersionMeta kbID versionID => sm.applyRemoveVersionMeta kbID versionID
  | .markVersionFailedPermanent kbID versionID failureSide failureReason failureCount =>
    sm.applyMarkVersionFailedPermanent kbID versionID failureSide failureReason failureCount
  | .retryVersion kbID versionID failureSide => sm.applyRetryVersion kbID versionID failureSide
  | .markDataDurable versionID => sm.applyMarkDataDurable versionID
  | .discardVersion kbID versionID => sm.applyDiscardVersion kbID versionID
  | .unknown type => sm.reject { detail := s!"raft: unknown command type \"{type}\"" }

end stratum.metadata.StateMachine
