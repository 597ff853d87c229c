import Stratum.Lib.Reach
import Stratum.Metadata.Apply

namespace stratum.coordinator.dispatch

open stratum.metadata Function

/-- How far a call of `Execute` is: the changes are parked, it waits for the entry, it has
returned. -/
inductive Stage
  | parked
  | waiting
  | returned
deriving DecidableEq

/-- What has become of the entry of a write: not appended, appended, overwritten by another
leader's, applied with a version, or applied and refused. -/
inductive Entry
  | missing
  | inLog
  | lost
  | applied (versionID : Nat)
  | refused
deriving DecidableEq

/-- One call of `Execute` on this node. -/
structure Write where
  kbID : String
  dispatchID : String
  parentVersionID : Nat
  changes : List DocChange
  stage : Stage
  entry : Entry
deriving DecidableEq

/-- The callback of an entry that was applied while this node led. -/
structure Hook where
  kbID : String
  versionID : Nat
  parentVersionID : Nat
  clientRequestID : String
deriving DecidableEq

/-- A parked change list on its way to a storage writer, and which of the two takers took it. -/
structure Dispatch where
  versionID : Nat
  parentVersionID : Nat
  byHook : Bool
deriving DecidableEq

/-- The proposing node: the metadata as it has applied it, its writes, which of them has its
changes parked under a knowledge base and request, the callbacks to run, the lists being handed
over and those handed over by write, and the versions reported as abandoned. -/
structure World where
  sm : StateMachine
  writes : List Write
  pending : String → String → Option Nat
  hooks : List Hook
  inFlight : Nat → List Dispatch
  handed : Nat → List Dispatch
  abandoned : List Nat

/-- Another entry of the log is applied; a write parks its changes, fails to propose or proposes;
its entry is overwritten or applied; it receives the answer, or gives up on it (its context ended,
the node stopped, it no longer leads, the time is up); a callback runs; a dispatch is accepted, or
fails, and the failure is reported or the report fails too; the process restarts. -/
inductive Action
  | command (now : Int) (cmd : Command) (leader : Bool)
  | start (kbID : String) (parentVersionID : Nat) (changes : List DocChange)
      (clientRequestID generated : String)
  | notProposed (write : Nat)
  | propose (write : Nat)
  | lose (write : Nat)
  | apply (write : Nat) (now : Int) (leader : Bool)
  | receive (write : Nat)
  | giveUp (write : Nat)
  | hook (hook : Nat)
  | accept (write dispatch : Nat)
  | fail (write dispatch : Nat) (reported : Bool)
  | restart

/-- The registration key of a write: a write without a request id gets a generated one. -/
def dispatchID (clientRequestID generated : String) : String :=
  if clientRequestID = "" then generated else clientRequestID

namespace World

variable (w : World)

def setPending (kbID id : String) (write : Option Nat) : World :=
  { w with pending := update w.pending kbID (update (w.pending kbID) id write) }

def setWrite (i : Nat) (write : Write) : World := { w with writes := w.writes.set i write }

/-- `TakePendingDispatch`, and the dispatch of what it took: the taker that comes second finds
nothing and does nothing. The callback has a parent of its own, for a list parked without one. -/
def take (kbID id : String) (versionID : Nat) (parent : Option Nat) : World :=
  match w.pending kbID id with
  | none => w
  | some k =>
    let parked := ((w.writes[k]?).map (·.parentVersionID)).getD 0
    let d : Dispatch :=
      ⟨versionID, if parked = 0 then parent.getD 0 else parked, parent.isSome⟩
    { w.setPending kbID id none with
      inFlight := update w.inFlight k (w.inFlight k ++ [d]) }

/-- The callbacks after an applied command: one if it made or found a version while the node
led. -/
def hooksAfter (cmd : Command) (result : ApplyResult) (leader : Bool) : List Hook :=
  match cmd with
  | .createVersion kbID parentVersionID clientRequestID =>
    if result.err = none ∧ leader then
      w.hooks ++ [⟨kbID, result.versionID, parentVersionID, clientRequestID⟩]
    else w.hooks
  | _ => w.hooks

def applyCommand (now : Int) (cmd : Command) (leader : Bool) : World :=
  { w with
    sm := (w.sm.apply now cmd).1
    hooks := w.hooksAfter cmd (w.sm.apply now cmd).2 leader }

def step : Action → Option World
  | .command now cmd leader => some (w.applyCommand now cmd leader)
  | .start kbID parentVersionID changes clientRequestID generated =>
    -- `Execute` has the lock of the knowledge base, and refuses an empty list.
    if changes ≠ [] ∧ ∀ write ∈ w.writes, write.kbID = kbID → write.stage = .returned then
      let id := dispatchID clientRequestID generated
      some { w.setPending kbID id (some w.writes.length) with
        writes := w.writes ++ [⟨kbID, id, parentVersionID, changes, .parked, .missing⟩] }
    else none
  | .notProposed i =>
    (w.writes[i]?).bind fun write =>
      if write.stage = .parked then
        some ((w.setPending write.kbID write.dispatchID none).setWrite i
          { write with stage := .returned })
      else none
  | .propose i =>
    (w.writes[i]?).bind fun write =>
      if write.stage = .parked then
        some (w.setWrite i { write with stage := .waiting, entry := .inLog })
      else none
  | .lose i =>
    (w.writes[i]?).bind fun write =>
      if write.entry = .inLog then some (w.setWrite i { write with entry := .lost }) else none
  | .apply i now leader =>
    (w.writes[i]?).bind fun write =>
      if write.entry = .inLog then
        let cmd := .createVersion write.kbID write.parentVersionID write.dispatchID
        let result := (w.sm.apply now cmd).2
        let entry := if result.err = none then .applied result.versionID else .refused
        some ((w.applyCommand now cmd leader).setWrite i { write with entry := entry })
      else none
  | .receive i =>
    (w.writes[i]?).bind fun write =>
      if write.stage = .waiting then
        match write.entry with
        | .applied v =>
          -- `dispatchInBackground`
          some ((w.take write.kbID write.dispatchID v none).setWrite i
            { write with stage := .returned })
        | .refused =>
          some ((w.setPending write.kbID write.dispatchID none).setWrite i
            { write with stage := .returned })
        | _ => none
      else none
  | .giveUp i =>
    (w.writes[i]?).bind fun write =>
      if write.stage = .waiting then
        some ((w.setPending write.kbID write.dispatchID none).setWrite i
          { write with stage := .returned })
      else none
  | .hook j =>
    -- `dispatchCommittedVersion`: a miss is logged.
    (w.hooks[j]?).map fun h =>
      { w.take h.kbID h.clientRequestID h.versionID (some h.parentVersionID) with
        hooks := w.hooks.eraseIdx j }
  | .accept i j =>
    ((w.inFlight i)[j]?).map fun d =>
      { w with
        inFlight := update w.inFlight i ((w.inFlight i).eraseIdx j)
        handed := update w.handed i (w.handed i ++ [d]) }
  | .fail i j reported =>
    -- `AbandonDispatch` follows the background dispatch only.
    ((w.inFlight i)[j]?).map fun d =>
      { w with
        inFlight := update w.inFlight i ((w.inFlight i).eraseIdx j)
        abandoned := if !d.byHook && reported then d.versionID :: w.abandoned else w.abandoned }
  | .restart =>
    some { w with
      writes := w.writes.map fun write => { write with stage := .returned }
      pending := fun _ _ => none
      hooks := []
      inFlight := fun _ => [] }

end World

/-- A node that has written nothing yet. -/
def World.init (sm : StateMachine) : World where
  sm := sm
  writes := []
  pending _ _ := none
  hooks := []
  inFlight _ := []
  handed _ := []
  abandoned := []

end stratum.coordinator.dispatch
