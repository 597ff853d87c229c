import Stratum.Raft.Node

open stratum.kvraft

namespace stratum.raft

inductive Action (σ : Type) where
  | startElection
  | sendVoteRequest
  | requestVote (req : RequestVoteRequest)
  | voteResponse (b : Ballot) (p : NodeId) (res : RequestVoteResponse)
  | propose (data : Bytes)
  | replicate (p : NodeId)
  | appendEntries (req : AppendEntriesRequest)
  | appendResponse (p : NodeId) (req : AppendEntriesRequest) (resp : AppendEntriesResponse)
  | transferStep (t : Transfer σ)
  | transferFailed (t : Transfer σ)
  | snapshotResponse (p : NodeId) (req : InstallSnapshotRequest σ) (resp : InstallSnapshotResponse)
  | installSnapshot (req : InstallSnapshotRequest σ)
  | handOff (inst : PendingInstall σ)
  | applyStep
  | consume
  | installDone
  | jobStep (job : SnapshotJob σ)
  | restart
  | crashInHandler (msg : Msg σ)
deriving DecidableEq

variable {σ : Type} [DecidableEq σ]

/-- One process takes one step against the messages sent so far. -/
def Node.step (machine : StateMachine σ) (cluster : Cluster) (net : List (Msg σ)) (nd : Node σ) :
    Action σ → Option (Node σ × List (Msg σ))
  | .startElection => nd.startElection
  | .sendVoteRequest => nd.sendVoteRequest
  | .requestVote req => nd.requestVote net req
  | .voteResponse b p res => nd.voteResponse net b p res
  | .propose data => nd.propose data
  | .replicate p => nd.replicate p
  | .appendEntries req => nd.appendEntries net req
  | .appendResponse p req resp => nd.appendResponse net p req resp
  | .transferStep t => nd.transferStep t
  | .transferFailed t => nd.transferFailed t
  | .snapshotResponse p req resp => nd.snapshotResponse net p req resp
  | .installSnapshot req => nd.installSnapshot net req
  | .handOff inst => nd.handOff inst
  | .applyStep => nd.applyStep
  | .consume => nd.consume machine
  | .installDone => nd.installDone
  | .jobStep job => nd.jobStep job
  | .restart => some (nd.restart machine cluster, [])
  | .crashInHandler msg => nd.crashInHandler machine cluster net msg

/-- The cluster: its processes and every message sent so far. A message is never taken
out, so it may be delivered late, out of order, many times or never. -/
structure World (σ : Type) where
  nodes : NodeId → Node σ
  net : List (Msg σ)

namespace World

/-- Every node on a fresh path and nothing sent. -/
def init (machine : StateMachine σ) (cluster : Cluster) : World σ where
  nodes := fun id => .boot machine cluster id .new []
  net := []

def step (machine : StateMachine σ) (cluster : Cluster) (w : World σ) (act : NodeId × Action σ) :
    Option (World σ) :=
  if act.1 ∈ cluster.members then
    ((w.nodes act.1).step machine cluster w.net act.2).map fun (nd, out) =>
      { nodes := Function.update w.nodes act.1 nd, net := w.net ++ out }
  else none

end World

end stratum.raft
