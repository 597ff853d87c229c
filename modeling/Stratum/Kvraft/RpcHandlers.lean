import Stratum.Kvraft.Raft

namespace stratum.kvraft

namespace Raft

variable {σ : Type}

/-- The candidate's log is at least as up to date as this node's. -/
def LogOK (rf : Raft σ) (req : RequestVoteRequest) : Prop :=
  rf.log.lastLogTerm < req.lastLogTerm ∨
    req.lastLogTerm = rf.log.lastLogTerm ∧ rf.log.lastLogIndex ≤ req.lastLogIndex
  deriving Decidable

def requestVote (rf : Raft σ) (req : RequestVoteRequest) : Raft σ × RequestVoteResponse :=
  if req.term < rf.term then (rf, { term := rf.term, voteGranted := false })
  else
    let rf := if rf.term < req.term then rf.stepDown req.term else rf
    if rf.voteFor ≠ none ∧ rf.voteFor ≠ some req.candidateId then
      (rf, { term := rf.term, voteGranted := false })
    else if ¬ rf.LogOK req then (rf, { term := rf.term, voteGranted := false })
    else
      let rf := persist { rf with voteFor := some req.candidateId }
      (rf, { term := rf.term, voteGranted := true })

/-- What both leader requests do first: adopt a higher term, then follow the sender. -/
def follow (rf : Raft σ) (term : Nat) (leaderId : NodeId) : Raft σ :=
  { (if rf.term < term then rf.adoptTerm term else rf) with
    state := .follower
    leaderID := some leaderId }

/-- A successful call moves the commit index to the leader's, bounded by `upTo`. -/
def acceptAppendFrom (rf : Raft σ) (req : AppendEntriesRequest) (upTo : Nat) :
    Raft σ × AppendEntriesResponse :=
  ({ rf with
      lastCommitIndex :=
        if rf.lastCommitIndex < req.leaderCommit then
          if req.leaderCommit < upTo then req.leaderCommit else upTo
        else rf.lastCommitIndex },
    { term := rf.term, success := true, conflictIndex := 0, conflictTerm := 0 })

/-- The consistency check at or above the base and what follows it. -/
def appendAfterBase (rf : Raft σ) (req : AppendEntriesRequest) :
    Option (Raft σ × AppendEntriesResponse) :=
  if rf.log.lastLogIndex < req.prevLogIndex then
    some (rf, { term := rf.term, success := false, conflictIndex := rf.log.lastLogIndex + 1,
                conflictTerm := 0 })
  else
    (rf.log.logEntry req.prevLogIndex).map fun prevEntry =>
      if prevEntry.term ≠ req.prevLogTerm then
        (rf, { term := rf.term, success := false,
               conflictIndex := rf.log.conflictStart prevEntry.term req.prevLogIndex,
               conflictTerm := prevEntry.term })
      else
        let rf :=
          if 0 < req.entries.length then
            persist { rf with
              log := rf.log.spliceAfter (rf.log.logIndex req.prevLogIndex) req.entries }
          else rf
        rf.acceptAppendFrom req rf.log.lastLogIndex

def appendEntries (rf : Raft σ) (req : AppendEntriesRequest) :
    Option (Raft σ × AppendEntriesResponse) :=
  if req.term < rf.term then
    some (rf, { term := rf.term, success := false, conflictIndex := 0, conflictTerm := 0 })
  else
    let rf := rf.follow req.term req.leaderId
    if req.prevLogIndex < rf.log.base.index then
      some (rf.acceptAppendFrom req rf.log.base.index)
    else rf.appendAfterBase req

/-- The locked part of the handler; `true` means that the snapshot is then handed to
`applyCh` before the response is returned. -/
def installSnapshot (rf : Raft σ) (req : InstallSnapshotRequest σ) :
    Raft σ × Bool × InstallSnapshotResponse :=
  if req.term < rf.term then (rf, false, { term := rf.term })
  else
    let rf := rf.follow req.term req.leaderId
    if req.lastIncludedIndex ≤ rf.log.base.index then (rf, false, { term := rf.term })
    else (rf, true, { term := rf.term })

section

variable (rf : Raft σ) (term : Nat) (leaderId : NodeId)

@[simp] lemma follow_log : (rf.follow term leaderId).log = rf.log := by
  unfold follow
  split <;> rfl

@[simp] lemma follow_lastCommitIndex :
    (rf.follow term leaderId).lastCommitIndex = rf.lastCommitIndex := by
  unfold follow
  split <;> rfl

@[simp] lemma follow_lastApplied : (rf.follow term leaderId).lastApplied = rf.lastApplied := by
  unfold follow
  split <;> rfl

@[simp] lemma follow_snapshot :
    (rf.follow term leaderId).persister.snapshot = rf.persister.snapshot := by
  unfold follow
  split <;> rfl

@[simp] lemma follow_snapshotIndex :
    (rf.follow term leaderId).persister.snapshotIndex = rf.persister.snapshotIndex := by
  unfold follow
  split <;> rfl

variable {rf term}

lemma follow_term (hterm : rf.term ≤ term) : (rf.follow term leaderId).term = term := by
  unfold follow
  split
  · rfl
  · change rf.term = term
    omega

end

variable {rf rf' : Raft σ}

/-- A refusal leaves the node as it was or steps it down to the request's term. A grant
records the vote in the request's term, of a node whose vote was free or already the
candidate's and whose log is no newer. -/
lemma requestVote_spec {req : RequestVoteRequest} {res : RequestVoteResponse}
    (hvote : rf.requestVote req = (rf', res)) : (res.voteGranted = false ∧
        (rf' = rf ∨ rf.term < req.term ∧ rf' = rf.stepDown req.term)) ∨
      (res.voteGranted = true ∧ ∃ rf₁ : Raft σ,
        (rf₁ = rf ∧ rf.term = req.term ∨ rf.term < req.term ∧ rf₁ = rf.stepDown req.term) ∧
          (rf₁.voteFor = none ∨ rf₁.voteFor = some req.candidateId) ∧ rf₁.LogOK req ∧
          rf' = persist { rf₁ with voteFor := some req.candidateId }) := by
  unfold requestVote at hvote
  split at hvote
  · cases hvote
    exact .inl ⟨rfl, .inl rfl⟩
  have hobserved : ∀ rf₁ : Raft σ, rf₁ = (if rf.term < req.term then rf.stepDown req.term else rf) →
      rf₁ = rf ∧ rf.term = req.term ∨ rf.term < req.term ∧ rf₁ = rf.stepDown req.term := by
    intro rf₁ hrf₁
    split at hrf₁
    · next hlt => exact .inr ⟨hlt, hrf₁⟩
    · exact .inl ⟨hrf₁, by omega⟩
  generalize hrf₁ : (if rf.term < req.term then rf.stepDown req.term else rf) = rf₁ at hvote
  have hcases := hobserved rf₁ hrf₁.symm
  have hrefused : rf₁ = rf ∨ rf.term < req.term ∧ rf₁ = rf.stepDown req.term :=
    hcases.imp_left And.left
  dsimp only at hvote
  split at hvote
  · cases hvote
    exact .inl ⟨rfl, hrefused⟩
  next hfree =>
  split at hvote
  · cases hvote
    exact .inl ⟨rfl, hrefused⟩
  next hlog =>
  cases hvote
  refine .inr ⟨rfl, rf₁, hcases, ?_, not_not.mp hlog, rfl⟩
  by_cases hnone : rf₁.voteFor = none
  · exact .inl hnone
  · exact .inr (not_not.mp fun hother => hfree ⟨hnone, hother⟩)

/-- A call is stale, is rejected, is accepted because it lies below the base, is accepted
as a heartbeat, or replaces everything after the matching entry. -/
lemma appendEntries_spec {req : AppendEntriesRequest} {resp : AppendEntriesResponse}
    (happend : rf.appendEntries req = some (rf', resp)) : (rf' = rf ∧ resp.success = false) ∨
      rf.term ≤ req.term ∧ ∃ rf₁, rf₁ = rf.follow req.term req.leaderId ∧
        ((rf' = rf₁ ∧ resp.success = false) ∨
          (req.prevLogIndex < rf.log.base.index ∧
            rf' = (rf₁.acceptAppendFrom req rf.log.base.index).1) ∨
          ∃ prevEntry, rf.log.base.index ≤ req.prevLogIndex ∧
            rf.log.logEntry req.prevLogIndex = some prevEntry ∧ prevEntry.term = req.prevLogTerm ∧
            ((req.entries = [] ∧ rf' = (rf₁.acceptAppendFrom req rf.log.lastLogIndex).1) ∨
              req.entries ≠ [] ∧ ∃ log,
                log = rf.log.spliceAfter (rf.log.logIndex req.prevLogIndex) req.entries ∧
                rf' = ((persist { rf₁ with log := log }).acceptAppendFrom req
                  log.lastLogIndex).1)) := by
  unfold appendEntries at happend
  split at happend
  · cases happend
    exact .inl ⟨rfl, rfl⟩
  refine .inr ⟨by omega, _, rfl, ?_⟩
  dsimp only at happend
  rw [follow_log] at happend
  split at happend
  · next hbelow =>
    have hrf' := congrArg Prod.fst (Option.some.inj happend)
    exact .inr (.inl ⟨hbelow, hrf'.symm⟩)
  unfold appendAfterBase at happend
  rw [follow_log] at happend
  split at happend
  · cases happend
    exact .inl ⟨rfl, rfl⟩
  simp only [Option.map_eq_some_iff] at happend
  obtain ⟨prevEntry, hprev, heq⟩ := happend
  split at heq
  · cases heq
    exact .inl ⟨rfl, rfl⟩
  next hmatch =>
  refine .inr (.inr ⟨prevEntry, by omega, hprev, not_not.mp hmatch, ?_⟩)
  have hrf' := congrArg Prod.fst heq
  by_cases hempty : req.entries = []
  · simp only [hempty, List.length_nil, Nat.lt_irrefl, if_false, follow_log] at hrf'
    exact .inl ⟨hempty, hrf'.symm⟩
  have hpos : 0 < req.entries.length := List.length_pos_of_ne_nil hempty
  simp only [hpos] at hrf'
  exact .inr ⟨hempty, _, rfl, hrf'.symm⟩

/-- A current snapshot request makes the node follow its sender; only one above the base
is handed on. -/
lemma installSnapshot_spec {hand : Bool} {req : InstallSnapshotRequest σ}
    {resp : InstallSnapshotResponse} (hinstall : rf.installSnapshot req = (rf', hand, resp)) :
    (rf' = rf ∧ hand = false) ∨ rf.term ≤ req.term ∧ rf' = rf.follow req.term req.leaderId := by
  unfold installSnapshot at hinstall
  split at hinstall
  · cases hinstall
    exact .inl ⟨rfl, rfl⟩
  refine .inr ⟨by omega, ?_⟩
  dsimp only at hinstall
  split at hinstall
  all_goals
    cases hinstall
    rfl

end Raft

end stratum.kvraft
