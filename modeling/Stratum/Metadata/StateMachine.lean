import Mathlib.Logic.Function.Basic
import Stratum.Metadata.Command

namespace stratum.metadata

open Function

/-- The knowledge base and version metadata every control node holds. A Go map is a
function into `Option`; a key of `versionsByKB` that is absent reads as the empty list. -/
structure StateMachine where
  kbs : String → Option KnowledgeBaseMeta
  versions : Nat → Option VersionMeta
  versionsByKB : String → List Nat
  nextVersionID : Nat
  versionsByRequest : String → Option Nat
  deletedEpoch : String
  deletedSeq : Nat
  deletedLog : List DeletedVersion
  deletedLogLimit : Nat
  chainSeq : Nat

def defaultDeletedLogLimit : Nat := 10000

/-- `newStateMachineWithDeletedLogLimit`; `epoch` is what `newDeletionEpoch` drew from the
node's random source. -/
def newStateMachine (limit : Nat) (epoch : String) : StateMachine where
  kbs _ := none
  versions _ := none
  versionsByKB _ := []
  nextVersionID := 1
  versionsByRequest _ := none
  deletedEpoch := epoch
  deletedSeq := 0
  deletedLog := []
  deletedLogLimit := limit
  chainSeq := 0

namespace StateMachine

def deletedLogLimitOrDefault (sm : StateMachine) : Nat :=
  if 0 < sm.deletedLogLimit then sm.deletedLogLimit else defaultDeletedLogLimit

/-- Appends one completed deletion to the bounded log. -/
def recordDeletion (sm : StateMachine) (kbID : String) (versionID : Nat) : StateMachine :=
  let log := sm.deletedLog ++ [{ seq := sm.deletedSeq + 1, kbID, versionID }]
  { sm with
    deletedSeq := sm.deletedSeq + 1
    deletedLog := log.drop (log.length - sm.deletedLogLimitOrDefault) }

def setKB (sm : StateMachine) (kbID : String) (kb : KnowledgeBaseMeta) : StateMachine :=
  { sm with kbs := update sm.kbs kbID (some kb) }

def setVersion (sm : StateMachine) (versionID : Nat) (v : VersionMeta) : StateMachine :=
  { sm with versions := update sm.versions versionID (some v) }

/-- `sm.versions[id]` read without the presence flag: the zero value when absent. -/
def version (sm : StateMachine) (versionID : Nat) : VersionMeta :=
  (sm.versions versionID).getD {}

def requestKey (kbID clientRequestID : String) : String := kbID ++ "\x00" ++ clientRequestID

/-- Removes the idempotency entries of `kbID`, or, for a positive version, the ones that
point at that version. -/
def dropRequestMappings (sm : StateMachine) (kbID : String) (versionID : Nat) :
    StateMachine :=
  { sm with
    versionsByRequest := fun key =>
      (sm.versionsByRequest key).filter fun id =>
        if 0 < versionID then id ≠ versionID
        else ¬ (kbID ++ "\x00").toList.isPrefixOf key.toList }

/-- Sorted insertion without duplicates; the binary search of the source finds the first
position whose node is not below `id`. -/
def withIndexReadyNode (nodes : List Int) (id : Int) : List Int :=
  let i := nodes.findIdx (id ≤ ·)
  if nodes[i]? = some id then nodes else nodes.take i ++ id :: nodes.drop i

/-- Removes a version's metadata and its place in its knowledge base's list. -/
def removeVersion (sm : StateMachine) (kbID : String) (versionID : Nat) : StateMachine :=
  let list := sm.versionsByKB kbID
  { sm with
    versions := update sm.versions versionID none
    versionsByKB := update sm.versionsByKB kbID (list.erase versionID)
    chainSeq := if versionID ∈ list then sm.chainSeq + 1 else sm.chainSeq }

def reject (sm : StateMachine) (e : Error) : StateMachine × ApplyResult := (sm, { err := some e })

def accept (sm : StateMachine) : StateMachine × ApplyResult := (sm, {})

end StateMachine

end stratum.metadata
