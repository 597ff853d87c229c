import Mathlib.Data.List.Sort
import Stratum.Lib.Reach
import Stratum.Metadata.Replay
import Stratum.Plane.Reclaim

namespace stratum.plane.deletions

open stratum.metadata

/-- A node's watermark into the deletion log of the control layer. -/
structure SyncState where
  epoch : String
  seq : Nat
deriving DecidableEq

/-- How far a full pass is: its first scan, its list of knowledge bases, or the knowledge bases it
has still to judge and the leftovers it has still to reclaim. -/
inductive Stage
  | surveying
  | listing
  | judging (kbs : List String) (leftovers : List (String × Nat))
deriving DecidableEq

/-- A running `reconcileFromChain`, and the position of the log it found before it began. -/
structure Pass where
  aligned : Option SyncState
  stage : Stage
deriving DecidableEq

/-- What a drop did: everything went; or it failed, with the document records gone or not. -/
inductive Outcome
  | all
  | records
  | nothing
deriving DecidableEq

/-- A storage node and the control layer. `states` are the metadata states of the control layer,
the newest first, each of which a replica may still be at; `former` are those of clusters it had
before it was rebuilt. The node has document records and document lists of versions, its
tombstone table with the watermark, the landings that were let in, the reclaims that were done
and not yet marked, and at most one full pass. -/
structure World where
  states : List StateMachine
  former : List StateMachine
  records : List (String × Nat)
  listed : List (String × Nat)
  tombstones : String × Nat → Option TombstoneState
  watermark : Option SyncState
  landings : List (String × Nat)
  cleaned : List (String × Nat)
  pass : Option Pass

/-- The control layer applies a command or is rebuilt; a version is let in and its documents and
their list land; a deletion is noted, reclaimed, marked done and pruned; a page of the log is
consumed; a full pass reads the position, scans, lists the knowledge bases, judges one, reclaims a
leftover and aligns the watermark; the process restarts. A read names the replica that answers
it, or fails. -/
inductive Action
  | command (now : Int) (cmd : Command)
  | rebuild (limit : Nat) (epoch : String)
  | letIn (kbID : String) (versionID : Nat) (readable : Bool)
  | writeRecords (kbID : String) (versionID : Nat)
  | writeList (kbID : String) (versionID : Nat)
  | note (kbID : String) (versionID : Nat)
  | drop (kbID : String) (versionID : Nat) (outcome : Outcome)
  | markDone (kbID : String) (versionID : Nat)
  | prune (kbID : String) (versionID : Nat)
  | page (replica limit : Nat)
  | chain (replica : Option Nat)
  | survey (ok : Bool)
  | listKBs (answer : Option (Nat × List String))
  | judge (replica : Option Nat)
  | reclaim (outcome : Outcome)
  | align (stored : Bool)
  | restart

/-- A drop of the version, or with version `0` of the knowledge base, is about the data. -/
def within (kbID : String) (versionID : Nat) (p : String × Nat) : Bool :=
  p.1 = kbID && (versionID = 0 || p.2 = versionID)

/-- Asks for the bounds of the log alone: one below the 62nd power of two. -/
def noEntryAfter : Int := 4611686018427387903

/-- `truncated` of an answer: entries behind the watermark are gone from the log. -/
def truncated (seq : Nat) (d : Deletions) : Bool :=
  seq < d.latest && (d.oldest = 0 || seq + 1 < d.oldest)

/-- The part of `DeletedVersionLeftovers` about one knowledge base: the local versions that were
allocated and are not alive; `none` if the liveness cannot be read. -/
def leftoversOf (view : StateMachine) (kbID : String) (localVersions : List Nat) :
    Option (List Nat) :=
  match localVersions.head?, localVersions.getLast? with
  | some first, some last =>
    match view.versionLiveness kbID (some (first - 1)) (some last) with
    | .error _ => none
    | .ok (alive, lastAllocated) =>
      some (localVersions.filter fun id => !(lastAllocated < id || id ∈ alive))
  | _, _ => some []

namespace World

variable (w : World)

def past : List StateMachine := w.states ++ w.former

def node : Node := { stores := none, tombstones := w.tombstones }

def localVersions (kbID : String) : List Nat :=
  ((w.listed.filter fun p => p.1 = kbID).map (·.2)).insertionSort (· ≤ ·)

/-- `DropVersionStorage` and, for version `0`, `DropKnowledgeBase`: the lists go last. -/
def dropped (kbID : String) (versionID : Nat) : Outcome → World
  | .all =>
    { w with
      records := w.records.filter fun p => !within kbID versionID p
      listed := w.listed.filter fun p => !within kbID versionID p }
  | .records => { w with records := w.records.filter fun p => !within kbID versionID p }
  | .nothing => w

/-- `NoteBatch`: the entries are noted with the watermark. -/
def noteBatch (state : SyncState) (entries : List DeletedVersion) : World :=
  { w with
    tombstones := (entries.foldl (fun n e => n.note e.kbID e.versionID) w.node).tombstones
    watermark := some state }

/-- `skipIfDeleted`: a table that cannot be read lets the version in. -/
def skipIfDeleted (kbID : String) (versionID : Nat) (readable : Bool) : Bool :=
  readable && ((w.tombstones (kbID, 0)).isSome || (w.tombstones (kbID, versionID)).isSome)

def setStage (pass : Pass) (stage : Stage) : World := { w with pass := some { pass with stage } }

def step : Action → Option World
  | .command now cmd =>
    (w.states.head?).map fun sm => { w with states := (sm.apply now cmd).1 :: w.states }
  | .rebuild limit epoch =>
    some { w with states := [newStateMachine limit epoch], former := w.past }
  | .letIn kbID versionID readable =>
    if w.skipIfDeleted kbID versionID readable then none
    else some { w with landings := (kbID, versionID) :: w.landings }
  | .writeRecords kbID versionID =>
    if (kbID, versionID) ∈ w.landings then
      some { w with records := (kbID, versionID) :: w.records }
    else none
  | .writeList kbID versionID =>
    if (kbID, versionID) ∈ w.landings then
      some { w with listed := (kbID, versionID) :: w.listed }
    else none
  | .note kbID versionID =>
    some { w with tombstones := (w.node.note kbID versionID).tombstones }
  | .drop kbID versionID outcome =>
    let w' := w.dropped kbID versionID outcome
    some (if outcome = .all then { w' with cleaned := (kbID, versionID) :: w.cleaned } else w')
  | .markDone kbID versionID =>
    if (kbID, versionID) ∈ w.cleaned then
      some { w with
        tombstones := (w.node.markDone kbID versionID).tombstones
        cleaned := w.cleaned.erase (kbID, versionID) }
    else none
  | .prune kbID versionID =>
    if w.tombstones (kbID, versionID) = some .done then
      some { w with tombstones := Function.update w.tombstones (kbID, versionID) none }
    else none
  | .page replica limit =>
    match w.pass, w.watermark, w.states[replica]? with
    | none, some state, some view =>
      let d := view.deletionsSince state.seq limit
      -- An answer that cannot serve the node sends it to the full pass, one that is behind or
      -- empty changes nothing.
      if truncated state.seq d = false ∧ d.epoch = state.epoch ∧ state.seq ≤ d.latest then
        (d.entries.getLast?).map fun last => w.noteBatch ⟨d.epoch, last.seq⟩ d.entries
      else none
    | _, _, _ => none
  | .chain replica =>
    match w.pass with
    | none =>
      let view := replica.bind fun i => w.states[i]?
      let answer := view.map fun sm => sm.deletionsSince noEntryAfter 1
      let aligned := (answer.filter (·.epoch ≠ "")).map fun d => ⟨d.epoch, d.latest⟩
      some { w with pass := some ⟨aligned, .surveying⟩ }
    | some _ => none
  | .survey ok =>
    -- Without a list of the knowledge bases there is nothing to reclaim, and the pass goes on.
    match w.pass with
    | some pass =>
      if pass.stage = .surveying then
        some (w.setStage pass (if ok then .listing else .judging [] []))
      else none
    | none => none
  | .listKBs answer =>
    match w.pass with
    | some pass =>
      if pass.stage = .listing then
        match answer with
        | none => some (w.setStage pass (.judging [] []))
        | some (replica, kbs) =>
          (w.states[replica]?).bind fun view =>
            -- A knowledge base without local versions is passed over.
            if (∀ kbID ∈ kbs, (view.kbs kbID).isSome) ∧
                ∀ p ∈ w.listed, (view.kbs p.1).isSome → p.1 ∈ kbs then
              some (w.setStage pass (.judging kbs []))
            else none
      else none
    | none => none
  | .judge replica =>
    match w.pass with
    | some ⟨aligned, .judging (kbID :: kbs) leftovers⟩ =>
      let view := replica.bind fun i => w.states[i]?
      let gone := (view.bind fun sm => leftoversOf sm kbID (w.localVersions kbID)).getD []
      some (w.setStage ⟨aligned, .surveying⟩
        (.judging kbs (leftovers ++ gone.map fun v => (kbID, v))))
    | _ => none
  | .reclaim outcome =>
    -- A failure is logged, and the rest continue.
    match w.pass with
    | some ⟨aligned, .judging [] ((kbID, versionID) :: leftovers)⟩ =>
      some ((w.dropped kbID versionID outcome).setStage ⟨aligned, .surveying⟩
        (.judging [] leftovers))
    | _ => none
  | .align stored =>
    match w.pass with
    | some ⟨aligned, .judging [] []⟩ =>
      let w := { w with pass := none }
      match aligned with
      | some next =>
        if stored ∧ w.watermark.all fun state =>
            next.epoch ≠ state.epoch ∨ state.seq < next.seq then
          some (w.noteBatch next [])
        else some w
      | none => some w
    | _ => none
  | .restart => some { w with landings := [], cleaned := [], pass := none }

end World

/-- A node without data beside a new control layer. -/
def World.init (limit : Nat) (epoch : String) : World where
  states := [newStateMachine limit epoch]
  former := []
  records := []
  listed := []
  tombstones _ := none
  watermark := none
  landings := []
  cleaned := []
  pass := none

end stratum.plane.deletions
