import Mathlib.Init

namespace stratum

/-- The named business errors the modelled code returns or tests for. -/
inductive Sentinel
  | versionNotFound
  | versionPending
  | versionFailed
  | versionDataFailed
  | versionDataSettled
  | versionDeleting
  | versionIsActive
  | knowledgeBaseNotFound
  | indexNotReady
  | invalidArgument
  | emptyChanges
  | invalidParentVersion
  | parentNotDurable
  | versionNotPending
  | versionNotFailedPermanent
deriving DecidableEq

/-- A returned error: the text added on the way up, and the named error it wraps. -/
structure Error where
  detail : String := ""
  cause : Option Sentinel := none
deriving DecidableEq

def Sentinel.err (s : Sentinel) : Error := { cause := some s }

/-- `fmt.Errorf("<detail>: %w", s)`. -/
def Sentinel.wrap (s : Sentinel) (detail : String) : Error := { detail, cause := some s }

def Error.is (e : Error) (s : Sentinel) : Bool := e.cause = some s

end stratum
