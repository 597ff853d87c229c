import Stratum.Kvraft.Snapshot

namespace stratum.kvraft

open Function

/-- What the locked part of a replication round to one peer decides to send. -/
inductive Replication where
  | none
  | heartbeat (req : AppendEntriesRequest)
  | snapshot (lastIndex lastTerm : Nat)
  | append (req : AppendEntriesRequest)
deriving DecidableEq

namespace Raft

variable {σ : Type}

def clampNextIndex (rf : Raft σ) (nextIndex : Nat) : Nat :=
  let max := rf.log.lastLogIndex + 1
  if nextIndex ≤ max then nextIndex else max

def appendRequest (rf : Raft σ) (nextIndex : Nat) : Option AppendEntriesRequest :=
  (rf.log.logEntry (nextIndex - 1)).map fun prev =>
    { term := rf.term, leaderId := rf.me, prevLogIndex := prev.index, prevLogTerm := prev.term,
      entries := (rf.log.base :: rf.log.entries).drop (rf.log.logIndex nextIndex),
      leaderCommit := rf.lastCommitIndex }

def replicateToPeer (rf : Raft σ) (id : NodeId) : Option (Raft σ × Replication) :=
  if rf.state ≠ .leader then some (rf, .none)
  else if rf.nextIndex id ≤ rf.log.base.index then
    if rf.snapshotPending id then
      some (rf, .heartbeat
        { term := rf.term, leaderId := rf.me, prevLogIndex := rf.log.base.index,
          prevLogTerm := rf.log.base.term, entries := [], leaderCommit := rf.lastCommitIndex })
    else
      some ({ rf with snapshotPending := update rf.snapshotPending id true },
        .snapshot rf.log.base.index rf.log.base.term)
  else
    let nextIndex := if rf.nextIndex id = 0 then 1 else rf.nextIndex id
    (rf.appendRequest (rf.clampNextIndex nextIndex)).map fun req => (rf, .append req)

/-- A success raises the peer's match index and may commit. -/
def appendSucceeded (rf : Raft σ) (id : NodeId) (req : AppendEntriesRequest) : Raft σ :=
  let newMatch := req.prevLogIndex + req.entries.length
  let rf :=
    if (rf.matchIndex id).getD 0 < newMatch then
      { rf with
        matchIndex := update rf.matchIndex id (some newMatch)
        nextIndex := update rf.nextIndex id (newMatch + 1) }
    else rf
  rf.advanceCommitIndex.resetSnapshotPending id

/-- A failure moves the peer's next index back by the follower's hint. -/
def appendFailed (rf : Raft σ) (id : NodeId) (resp : AppendEntriesResponse) : Raft σ :=
  let nextIndex :=
    if resp.conflictTerm ≠ 0 then
      ((rf.log.lastOfTerm resp.conflictTerm).map fun entry => entry.index + 1).getD
        resp.conflictIndex
    else resp.conflictIndex
  let nextIndex := if nextIndex = 0 then 1 else nextIndex
  { rf with nextIndex := update rf.nextIndex id (rf.clampNextIndex nextIndex) }

def applyAppendResponse (rf : Raft σ) (id : NodeId) (req : AppendEntriesRequest)
    (resp : AppendEntriesResponse) : Raft σ :=
  if rf.term < resp.term then rf.stepDown resp.term
  else if resp.success then rf.appendSucceeded id req
  else rf.appendFailed id resp

def becomeLeaderLocked (rf : Raft σ) : Raft σ :=
  appendEntryLocked
    { rf with
      state := .leader
      leaderID := some rf.me
      nextIndex := fun p => if p ∈ rf.peers then rf.log.lastLogIndex + 1 else rf.nextIndex p
      matchIndex := fun p => if p ∈ rf.peers then some 0 else rf.matchIndex p
      snapshotPending := fun p => if p ∈ rf.peers then false else rf.snapshotPending p } []

/-- More than half of the cluster, the node itself included. -/
def HasMajority (rf : Raft σ) (votes : Nat) : Prop := (rf.peers.length + 1) / 2 < votes
  deriving Decidable

/-- The check of the node's own vote before any request is sent; `true` means that the
node leads already and asks nobody. -/
def sendVoteRequest (rf : Raft σ) (req : RequestVoteRequest) : Raft σ × Bool :=
  if rf.state = .candidate ∧ rf.term = req.term ∧ rf.HasMajority 1 then
    (rf.becomeLeaderLocked, true)
  else (rf, false)

/-- One vote response; the tally is the election's own counter. -/
def voteResponse (rf : Raft σ) (req : RequestVoteRequest) (votes : Nat)
    (res : RequestVoteResponse) : Raft σ × Nat :=
  if rf.term < res.term then (rf.stepDown res.term, votes)
  else if rf.state ≠ .candidate ∨ rf.term ≠ req.term then (rf, votes)
  else if res.voteGranted = false then (rf, votes)
  else if rf.HasMajority (votes + 1) then (rf.becomeLeaderLocked, votes + 1)
  else (rf, votes + 1)

/-- A response to a snapshot transfer: a higher term ends the transfer, otherwise the
peer is taken to hold everything up to `lastIndex`. -/
def snapshotResponse (rf : Raft σ) (peerID : NodeId) (lastIndex : Nat)
    (resp : InstallSnapshotResponse) : Raft σ :=
  if rf.term < resp.term then (rf.stepDown resp.term).resetSnapshotPending peerID
  else rf.snapshotDone peerID lastIndex

variable {rf rf' : Raft σ}

/-- Only a granted vote heard by a candidate of the request's term is counted, and the
node leads exactly when the count reaches a majority. -/
lemma voteResponse_spec {req : RequestVoteRequest} {votes votes' : Nat} {res : RequestVoteResponse}
    (hvote : rf.voteResponse req votes res = (rf', votes')) :
    (votes' = votes ∧ (rf' = rf ∨ rf.term < res.term ∧ rf' = rf.stepDown res.term)) ∨
      (votes' = votes + 1 ∧ res.voteGranted = true ∧ rf.state = .candidate ∧ rf.term = req.term ∧
        (rf' = rf ∨ rf.HasMajority votes' ∧ rf' = rf.becomeLeaderLocked)) := by
  unfold voteResponse at hvote
  split at hvote
  · next hlt =>
    cases hvote
    exact .inl ⟨rfl, .inr ⟨hlt, rfl⟩⟩
  split at hvote
  · cases hvote
    exact .inl ⟨rfl, .inl rfl⟩
  next hcandidate =>
  rw [not_or, not_not, not_not] at hcandidate
  split at hvote
  · cases hvote
    exact .inl ⟨rfl, .inl rfl⟩
  next hyes =>
  rw [Bool.not_eq_false] at hyes
  split at hvote
  · next hmajority =>
    cases hvote
    exact .inr ⟨rfl, hyes, hcandidate.1, hcandidate.2, .inr ⟨hmajority, rfl⟩⟩
  · cases hvote
    exact .inr ⟨rfl, hyes, hcandidate.1, hcandidate.2, .inl rfl⟩

/-- A leader's round to one peer: a heartbeat at the base, a transfer labelled with the
base, or a call from an index above the base. -/
lemma replicateToPeer_spec {p : NodeId} {r : Replication} (hleader : rf.state = .leader)
    (hround : rf.replicateToPeer p = some (rf', r)) : (rf' = rf ∧ r = .heartbeat
        { term := rf.term, leaderId := rf.me, prevLogIndex := rf.log.base.index,
          prevLogTerm := rf.log.base.term, entries := [], leaderCommit := rf.lastCommitIndex }) ∨
      (rf' = { rf with snapshotPending := update rf.snapshotPending p true } ∧
        r = .snapshot rf.log.base.index rf.log.base.term) ∨
      ∃ next req, rf.log.base.index < next ∧ rf.appendRequest next = some req ∧ rf' = rf ∧
        r = .append req := by
  unfold replicateToPeer at hround
  rw [if_neg (not_not.mpr hleader)] at hround
  split at hround
  · split at hround
    · cases hround
      exact .inl ⟨rfl, rfl⟩
    · cases hround
      exact .inr (.inl ⟨rfl, rfl⟩)
  simp only [Option.map_eq_some_iff] at hround
  obtain ⟨req, hreq, ⟨⟩⟩ := hround
  refine .inr (.inr ⟨_, req, ?_, hreq, rfl, rfl⟩)
  have hlast : rf.log.base.index ≤ rf.log.lastLogIndex := by
    rw [Log.lastLogIndex_eq]
    omega
  rw [if_neg (by omega), clampNextIndex]
  split <;> omega

/-- A success changes the books at one peer if at all, and then runs the commit loop. -/
lemma appendSucceeded_spec (rf : Raft σ) (p : NodeId) (req : AppendEntriesRequest) :
    ∃ rf₁ : Raft σ, rf.appendSucceeded p req = rf₁.advanceCommitIndex.resetSnapshotPending p ∧
      (rf₁ = rf ∨ ∃ nextIndex, rf₁ = { rf with
        matchIndex :=
          update rf.matchIndex p (some (req.prevLogIndex + req.entries.length))
        nextIndex }) := by
  refine ⟨_, rfl, ?_⟩
  by_cases hraise : (rf.matchIndex p).getD 0 < req.prevLogIndex + req.entries.length
  · rw [if_pos hraise]
    exact .inr ⟨_, rfl⟩
  · rw [if_neg hraise]
    exact .inl rfl

end Raft

end stratum.kvraft
