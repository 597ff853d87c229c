import Stratum.Kvraft.RpcHandlers
import Stratum.Kvraft.Transport

open stratum.kvstorage stratum.kvraft

namespace stratum.raft

/-- The replicated state machine as consensus sees it: a start state, the effect of one decoded
command, and what the command writes into a copy of the state: `deepCopy` leaves each version's
`IndexReadyNodes` in the array of the live state, where `withIndexReadyNode` inserts in place.
A command that does not decode has no effect. -/
structure StateMachine (σ : Type) where
  init : σ
  apply : σ → Bytes → σ
  writeShared : σ → Bytes → σ → σ := fun _ _ copy => copy

/-- The static configuration every node of a cluster is started with. -/
structure Cluster where
  members : List NodeId
  nodup : members.Nodup
  maxLogLength : Nat
  maxLogLength_pos : 0 < maxLogLength

/-- A node registers every other member as a peer. -/
def Cluster.peers (cluster : Cluster) (id : NodeId) : List NodeId :=
  cluster.members.filter fun p => p ≠ id

/-- One fan-out of vote requests: its own tally and the peers still to be heard. -/
structure Ballot where
  req : RequestVoteRequest
  votes : Nat
  waiting : List NodeId
deriving DecidableEq

/-- A snapshot transfer to a peer: the index and term are fixed under the lock, the data
is fetched from the handler afterwards, where a copy of the live state is encoded with no lock
held, and the request is sent last. -/
inductive Transfer (σ : Type) where
  | chosen (peer : NodeId) (lastIndex lastTerm : Nat)
  | copied (peer : NodeId) (lastIndex lastTerm : Nat) (data : σ)
  | loaded (peer : NodeId) (lastIndex lastTerm : Nat) (data : σ)
  | sent (peer : NodeId) (req : InstallSnapshotRequest σ)
deriving DecidableEq

def Transfer.peer {σ : Type} : Transfer σ → NodeId
  | .chosen p _ _ => p
  | .copied p _ _ _ => p
  | .loaded p _ _ _ => p
  | .sent p _ => p

def Transfer.onCopy {σ : Type} (f : NodeId → Nat → Nat → σ → Transfer σ) :
    Transfer σ → Transfer σ
  | .copied p lastIndex lastTerm data => f p lastIndex lastTerm data
  | t => t

/-- A local snapshot on its way: the state copied under the frozen index, encoded by a goroutine
of its own, checked against the log, written, and the log trimmed. -/
inductive SnapshotJob (σ : Type) where
  | copied (index : Nat) (data : σ)
  | requested (index : Nat) (data : σ)
  | checked (index : Nat) (data : σ)
  | saved (index : Nat)
  | finished
deriving DecidableEq

def SnapshotJob.onCopy {σ : Type} (f : Nat → σ → SnapshotJob σ) : SnapshotJob σ → SnapshotJob σ
  | .copied index data => f index data
  | job => job

/-- An `InstallSnapshot` handler that still has to hand its snapshot to `applyCh`. -/
structure PendingInstall (σ : Type) where
  req : InstallSnapshotRequest σ
  resp : InstallSnapshotResponse
deriving DecidableEq

/-- A process: the consensus state, the goroutines that are between two acquisitions of
its lock, the channel to the consumer, and the consumer with its state machine. The last
four fields only record what happened: everything ever sent on `applyCh`, and the index
and state this process booted with and what its consumer processed since. -/
structure Node (σ : Type) where
  rf : Raft σ
  electing : Option RequestVoteRequest
  ballots : List Ballot
  calls : List (NodeId × AppendEntriesRequest)
  transfers : List (Transfer σ)
  installs : List (PendingInstall σ)
  applyPc : Raft.ApplyPc
  applyCh : List (ApplyMsg σ)
  sm : σ
  installing : Option (Nat × Nat)
  jobs : List (SnapshotJob σ)
  history : List (ApplyMsg σ)
  bootIndex : Nat
  bootState : σ
  consumed : List (ApplyMsg σ)

/-- Requests by receiver, responses by the peer that produced them together with the
request they answer. -/
inductive Msg (σ : Type) where
  | requestVote (receiver : NodeId) (req : RequestVoteRequest)
  | voteResponse (peer : NodeId) (req : RequestVoteRequest) (res : RequestVoteResponse)
  | appendEntries (receiver : NodeId) (req : AppendEntriesRequest)
  | appendResponse (peer : NodeId) (req : AppendEntriesRequest) (resp : AppendEntriesResponse)
  | installSnapshot (receiver : NodeId) (req : InstallSnapshotRequest σ)
  | installResponse (peer : NodeId) (req : InstallSnapshotRequest σ)
      (resp : InstallSnapshotResponse)
deriving DecidableEq

def applyChCap : Nat := 256

namespace Node

variable {σ : Type} [DecidableEq σ]

/-- A process that starts on the given files: the state machine is restored from the
persisted snapshot before the consumer runs. -/
def boot (machine : StateMachine σ) (cluster : Cluster) (id : NodeId) (persister : Persister σ)
    (history : List (ApplyMsg σ)) : Node σ where
  rf := .newRaft id (cluster.peers id) persister cluster.maxLogLength
  electing := none
  ballots := []
  calls := []
  transfers := []
  installs := []
  applyPc := .top
  applyCh := []
  sm := (persister.snapshot.map Prod.fst).getD machine.init
  installing := none
  jobs := []
  history := history
  bootIndex := persister.lastIndex
  bootState := (persister.snapshot.map Prod.fst).getD machine.init
  consumed := []

/-- The election timer fires. The run loop reads the state under an earlier lock and is
not asked again, so the node may be in any state here. -/
def startElection (nd : Node σ) : Option (Node σ × List (Msg σ)) :=
  if nd.electing = none then
    let (rf, req) := nd.rf.startElection
    some ({ nd with rf, electing := some req }, [])
  else none

/-- The fan-out that follows: lead at once on the own vote, or ask every peer. -/
def sendVoteRequest (nd : Node σ) : Option (Node σ × List (Msg σ)) :=
  nd.electing.map fun req =>
    match nd.rf.sendVoteRequest req with
    | (rf, true) => ({ nd with rf, electing := none }, [])
    | (rf, false) =>
      ({ nd with
          rf
          electing := none
          ballots := { req, votes := 1, waiting := nd.rf.peers } :: nd.ballots },
        nd.rf.peers.map fun p => .requestVote p req)

def requestVote (net : List (Msg σ)) (nd : Node σ) (req : RequestVoteRequest) :
    Option (Node σ × List (Msg σ)) :=
  if .requestVote nd.rf.me req ∈ net then
    let (rf, res) := nd.rf.requestVote req
    some ({ nd with rf }, [.voteResponse nd.rf.me req res])
  else none

/-- Each call of a ballot takes at most one response. -/
def voteResponse (net : List (Msg σ)) (nd : Node σ) (b : Ballot) (p : NodeId)
    (res : RequestVoteResponse) : Option (Node σ × List (Msg σ)) :=
  if b ∈ nd.ballots ∧ p ∈ b.waiting ∧ .voteResponse p b.req res ∈ net then
    let (rf, votes) := nd.rf.voteResponse b.req b.votes res
    some ({ nd with
      rf, ballots := { b with votes, waiting := b.waiting.erase p } :: nd.ballots.erase b }, [])
  else none

def propose (nd : Node σ) (data : Bytes) : Option (Node σ × List (Msg σ)) :=
  (nd.rf.propose data).map fun rf => ({ nd with rf }, [])

/-- The answer to the heartbeat that is sent while a snapshot transfer is pending is
dropped, so no call is recorded for it. -/
def replicate (nd : Node σ) (p : NodeId) : Option (Node σ × List (Msg σ)) :=
  if p ∈ nd.rf.peers then
    (nd.rf.replicateToPeer p).map fun
      | (rf, .none) => ({ nd with rf }, [])
      | (rf, .heartbeat req) => ({ nd with rf }, [.appendEntries p req])
      | (rf, .snapshot lastIndex lastTerm) =>
        ({ nd with rf, transfers := .chosen p lastIndex lastTerm :: nd.transfers }, [])
      | (rf, .append req) => ({ nd with rf, calls := (p, req) :: nd.calls }, [.appendEntries p req])
  else none

def appendEntries (net : List (Msg σ)) (nd : Node σ) (req : AppendEntriesRequest) :
    Option (Node σ × List (Msg σ)) :=
  if .appendEntries nd.rf.me req ∈ net then
    (nd.rf.appendEntries req).map fun (rf, resp) =>
      ({ nd with rf }, [.appendResponse nd.rf.me req resp])
  else none

def appendResponse (net : List (Msg σ)) (nd : Node σ) (p : NodeId) (req : AppendEntriesRequest)
    (resp : AppendEntriesResponse) : Option (Node σ × List (Msg σ)) :=
  if (p, req) ∈ nd.calls ∧ .appendResponse p req resp ∈ net then
    some ({ nd with
      rf := nd.rf.applyAppendResponse p req resp, calls := nd.calls.erase (p, req) }, [])
  else none

/-- The snapshot handler registered with the transport: the persisted snapshot if it
reaches `lastIndex`, otherwise a copy of the live state machine, to be encoded. -/
def snapshotHandler (nd : Node σ) (p : NodeId) (lastIndex lastTerm : Nat) : Transfer σ :=
  match nd.rf.persister.snapshot with
  | some (data, snapIndex) =>
    if lastIndex ≤ snapIndex then .loaded p lastIndex lastTerm data
    else .copied p lastIndex lastTerm nd.sm
  | none => .copied p lastIndex lastTerm nd.sm

/-- The next step of a snapshot transfer. The request carries the term the node has when
the request is built. -/
def transferStep (nd : Node σ) (t : Transfer σ) : Option (Node σ × List (Msg σ)) :=
  if t ∈ nd.transfers then
    match t with
    | .chosen p lastIndex lastTerm =>
      some ({ nd with
        transfers := nd.snapshotHandler p lastIndex lastTerm :: nd.transfers.erase t }, [])
    | .copied p lastIndex lastTerm data =>
      some ({ nd with
        transfers := .loaded p lastIndex lastTerm data :: nd.transfers.erase t }, [])
    | .loaded p lastIndex lastTerm data =>
      let req : InstallSnapshotRequest σ :=
        { term := nd.rf.term, leaderId := nd.rf.me, lastIncludedIndex := lastIndex,
          lastIncludedTerm := lastTerm, data }
      some ({ nd with transfers := .sent p req :: nd.transfers.erase t }, [.installSnapshot p req])
    | .sent _ _ => none
  else none

def snapshotResponse (net : List (Msg σ)) (nd : Node σ) (p : NodeId)
    (req : InstallSnapshotRequest σ) (resp : InstallSnapshotResponse) :
    Option (Node σ × List (Msg σ)) :=
  if .sent p req ∈ nd.transfers ∧ .installResponse p req resp ∈ net then
    some ({ nd with
      rf := nd.rf.snapshotResponse p req.lastIncludedIndex resp
      transfers := nd.transfers.erase (.sent p req) }, [])
  else none

/-- Any failure of a transfer ends it and clears the pending flag. -/
def transferFailed (nd : Node σ) (t : Transfer σ) : Option (Node σ × List (Msg σ)) :=
  if t ∈ nd.transfers then
    some ({ nd with
      rf := nd.rf.resetSnapshotPending t.peer, transfers := nd.transfers.erase t }, [])
  else none

def installSnapshot (net : List (Msg σ)) (nd : Node σ) (req : InstallSnapshotRequest σ) :
    Option (Node σ × List (Msg σ)) :=
  if .installSnapshot nd.rf.me req ∈ net then
    match nd.rf.installSnapshot req with
    | (rf, false, resp) => some ({ nd with rf }, [.installResponse nd.rf.me req resp])
    | (rf, true, resp) => some ({ nd with rf, installs := { req, resp } :: nd.installs }, [])
  else none

/-- A message goes onto `applyCh` when the buffer has room. -/
def send (nd : Node σ) (msg : ApplyMsg σ) : Option (Node σ) :=
  if nd.applyCh.length < applyChCap then
    some { nd with applyCh := nd.applyCh ++ [msg], history := nd.history ++ [msg] }
  else none

/-- The handler's hand-off, after which it answers the leader. -/
def handOff (nd : Node σ) (inst : PendingInstall σ) : Option (Node σ × List (Msg σ)) :=
  if inst ∈ nd.installs then
    let msg : ApplyMsg σ :=
      .snapshot inst.req.data inst.req.lastIncludedIndex inst.req.lastIncludedTerm
    (nd.send msg).map fun nd =>
      ({ nd with installs := nd.installs.erase inst },
        [.installResponse nd.rf.me inst.req inst.resp])
  else none

/-- The apply loop runs to its next release of the lock, or completes a send. -/
def applyStep (nd : Node σ) : Option (Node σ × List (Msg σ)) :=
  match nd.applyPc with
  | .top => nd.rf.applyLoopTop.map fun (rf, pc) => ({ nd with rf, applyPc := pc }, [])
  | .inner => nd.rf.applyLoopInner.map fun (rf, pc) => ({ nd with rf, applyPc := pc }, [])
  | .sending entry => (nd.send (.entry entry)).map fun nd => ({ nd with applyPc := .inner }, [])
  | .requesting snapIndex =>
    (nd.send (.snapshotRequest snapIndex)).map fun nd => ({ nd with applyPc := .top }, [])

/-- The no-op a new leader appends carries no command. -/
def handleEntryMsg (machine : StateMachine σ) (sm : σ) (entry : Entry) : σ :=
  if entry.data.length = 0 then sm else machine.apply sm entry.data

/-- What a copy of the state reads after the entry is applied. -/
def writeEntry (machine : StateMachine σ) (sm : σ) (entry : Entry) (copy : σ) : σ :=
  if entry.data.length = 0 then copy else machine.writeShared sm entry.data copy

/-- The state the consumer copies is labelled with the index frozen in the request; an
installed snapshot is written to disk before it replaces the state, which then shares nothing
with the copies. -/
def handleMsg (machine : StateMachine σ) (nd : Node σ) : ApplyMsg σ → Node σ
  | .entry entry =>
    let write := writeEntry machine nd.sm entry
    { nd with
      sm := handleEntryMsg machine nd.sm entry
      jobs := nd.jobs.map (SnapshotJob.onCopy fun index data => .copied index (write data))
      transfers := nd.transfers.map (Transfer.onCopy fun p lastIndex lastTerm data =>
        .copied p lastIndex lastTerm (write data)) }
  | .snapshotRequest snapshotIndex =>
    let snapIndex := if snapshotIndex = 0 then nd.rf.lastApplied else snapshotIndex
    { nd with jobs := .copied snapIndex nd.sm :: nd.jobs }
  | .snapshot data snapshotIndex snapshotTerm =>
    { nd with
      rf := nd.rf.saveSnapshot data snapshotIndex
      sm := data
      installing := some (snapshotIndex, snapshotTerm)
      jobs := nd.jobs.map (SnapshotJob.onCopy .requested)
      transfers := nd.transfers.map (Transfer.onCopy .loaded) }

def consume (machine : StateMachine σ) (nd : Node σ) : Option (Node σ × List (Msg σ)) :=
  match nd.installing, nd.applyCh with
  | none, msg :: rest =>
    some (handleMsg machine
      { nd with applyCh := rest, consumed := nd.consumed ++ [msg] } msg, [])
  | _, _ => none

/-- The consumer reports a restored snapshot back to the consensus state. -/
def installDone (nd : Node σ) : Option (Node σ × List (Msg σ)) :=
  match nd.installing with
  | some (lastIndex, lastTerm) =>
    (nd.rf.installDone lastIndex lastTerm).map fun rf => ({ nd with rf, installing := none }, [])
  | none => none

/-- The next step of a local snapshot. -/
def jobStep (nd : Node σ) (job : SnapshotJob σ) : Option (Node σ × List (Msg σ)) :=
  if job ∈ nd.jobs then
    let rest := nd.jobs.erase job
    match job with
    | .copied index data => some ({ nd with jobs := .requested index data :: rest }, [])
    | .requested index data =>
      let next := if nd.rf.CanSnapshot index then .checked index data else .finished
      some ({ nd with jobs := next :: rest }, [])
    | .checked index data =>
      some ({ nd with rf := nd.rf.saveSnapshot data index, jobs := .saved index :: rest }, [])
    | .saved index =>
      (nd.rf.snapshotTrim index).map fun rf => ({ nd with rf, jobs := .finished :: rest }, [])
    | .finished => some ({ nd with rf := nd.rf.resetSnapshotting, jobs := rest }, [])
  else none

/-- The process dies and a new one starts on its files. -/
def restart (machine : StateMachine σ) (cluster : Cluster) (nd : Node σ) : Node σ :=
  boot machine cluster nd.rf.me nd.rf.persister nd.history

/-- The two handlers that persist twice may die after the first write, which only
records the request's term. -/
def crashInHandler (machine : StateMachine σ) (cluster : Cluster) (net : List (Msg σ))
    (nd : Node σ) (msg : Msg σ) : Option (Node σ × List (Msg σ)) :=
  if msg ∈ net then
    match msg with
    | .requestVote receiver req =>
      if receiver = nd.rf.me ∧ nd.rf.term < req.term then
        some (restart machine cluster { nd with rf := nd.rf.stepDown req.term }, [])
      else none
    | .appendEntries receiver req =>
      if receiver = nd.rf.me ∧ nd.rf.term < req.term then
        some (restart machine cluster { nd with rf := nd.rf.adoptTerm req.term }, [])
      else none
    | _ => none
  else none

end Node

end stratum.raft
