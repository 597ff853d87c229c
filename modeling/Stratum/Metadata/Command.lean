import Stratum.Errors
import Stratum.Types

/-- The replicated commands, one constructor per command type with the fields the command
carries; `unknown` is a type this build does not know. -/
inductive stratum.metadata.Command
  | createKB (kb : KnowledgeBaseMeta)
  | markKBDeleting (kbID : String)
  | markKBDeleteFailed (kbID : String)
  | removeKBMeta (kbID : String)
  | createVersion (kbID : String) (parentVersionID : Nat) (clientRequestID : String)
  | updateVersionStatus (versionID : Nat) (status : IndexStatus) (nodeID : Int)
  | updateVersionSummary (versionID : Nat) (docIDSetHash : String)
  | rollback (kbID : String) (targetVersionID : Nat)
  | markVersionDeleting (kbID : String) (versionID : Nat) (mode : VersionDeleteMode)
  | removeVersionMeta (kbID : String) (versionID : Nat)
  | markVersionFailedPermanent (kbID : String) (versionID : Nat) (failureSide : FailureSide)
      (failureReason : String) (failureCount : Int)
  | retryVersion (kbID : String) (versionID : Nat) (failureSide : FailureSide)
  | markDataDurable (versionID : Nat)
  | discardVersion (kbID : String) (versionID : Nat)
  | unknown (type : String)
deriving DecidableEq

/-- What applying one command answers to its proposer. -/
structure stratum.metadata.ApplyResult where
  versionID : Nat := 0
  deletedVersionIDs : List Nat := []
  err : Option Error := none
deriving DecidableEq
