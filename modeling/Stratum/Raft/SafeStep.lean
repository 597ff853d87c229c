import Stratum.Raft.Cluster

open stratum.kvraft

namespace stratum.kvraft.Raft

variable {σ : Type}

/-- The call passes the consistency check at or above the base. -/
def Matches (rf : Raft σ) (req : AppendEntriesRequest) : Prop :=
  rf.log.base.index ≤ req.prevLogIndex ∧
    (rf.log.logEntry req.prevLogIndex).map Entry.term = some req.prevLogTerm
  deriving Decidable

/-- One of the call's entries differs from the one the follower holds at its index. -/
def Conflicts (rf : Raft σ) (req : AppendEntriesRequest) : Prop :=
  ∃ e ∈ req.entries, (rf.log.logEntry e.index).any fun held => held.term ≠ e.term
  deriving Decidable

/-- A current call that the handler treats as the protocol intends: one below the base
carries nothing that would have to be stored above it; entries replace a longer log only
where the two conflict; and a heartbeat commits nothing it did not check. -/
def AppendSafe (rf : Raft σ) (req : AppendEntriesRequest) : Prop :=
  rf.term ≤ req.term →
    (req.prevLogIndex < rf.log.base.index →
      req.prevLogIndex + req.entries.length ≤ rf.log.base.index) ∧
    (rf.Matches req → req.entries ≠ [] →
      rf.log.lastLogIndex ≤ req.prevLogIndex + req.entries.length ∨ rf.Conflicts req) ∧
    (rf.Matches req → req.entries = [] → req.leaderCommit ≤ rf.lastCommitIndex ∨
      min req.leaderCommit rf.log.lastLogIndex ≤ req.prevLogIndex)
  deriving Decidable

/-- A success is folded into the books of the leader that made the call. -/
def ResponseSafe (rf : Raft σ) (req : AppendEntriesRequest) (resp : AppendEntriesResponse) : Prop :=
  resp.term ≤ rf.term → resp.success = true → rf.state = .leader ∧ rf.term = req.term
  deriving Decidable

end stratum.kvraft.Raft

namespace stratum.raft

variable {σ : Type}

/-- The condition on one step of the cluster: every call a follower handles and every
response a leader folds in is safe in the state it meets. -/
def SafeStep (w : World σ) : NodeId × Action σ → Prop
  | (u, .appendEntries req) => (w.nodes u).rf.AppendSafe req
  | (u, .appendResponse _ req resp) => (w.nodes u).rf.ResponseSafe req resp
  | _ => True

instance (w : World σ) : (act : NodeId × Action σ) → Decidable (SafeStep w act)
  | (u, act) => by
    induction act using Action.casesOn <;> dsimp only [SafeStep] <;> infer_instance

end stratum.raft
