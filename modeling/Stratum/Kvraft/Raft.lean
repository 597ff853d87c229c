import Stratum.Kvstorage.Persister

open stratum.kvstorage List

namespace stratum.kvraft

inductive NodeState where
  | leader
  | candidate
  | follower
deriving DecidableEq

structure RequestVoteRequest where
  term : Nat
  candidateId : NodeId
  lastLogIndex : Nat
  lastLogTerm : Nat
deriving DecidableEq

structure RequestVoteResponse where
  term : Nat
  voteGranted : Bool
deriving DecidableEq

structure AppendEntriesRequest where
  term : Nat
  leaderId : NodeId
  prevLogIndex : Nat
  prevLogTerm : Nat
  entries : List Entry
  leaderCommit : Nat
deriving DecidableEq

structure AppendEntriesResponse where
  term : Nat
  success : Bool
  conflictIndex : Nat
  conflictTerm : Nat
deriving DecidableEq

structure InstallSnapshotRequest (σ : Type) where
  term : Nat
  leaderId : NodeId
  lastIncludedIndex : Nat
  lastIncludedTerm : Nat
  data : σ
deriving DecidableEq

structure InstallSnapshotResponse where
  term : Nat
deriving DecidableEq

/-- What is sent on `applyCh`: a committed entry, a request to snapshot the local state
(a snapshot message without data), or a snapshot received from the leader. -/
inductive ApplyMsg (σ : Type) where
  | entry (entry : Entry)
  | snapshotRequest (snapshotIndex : Nat)
  | snapshot (data : σ) (snapshotIndex snapshotTerm : Nat)
deriving DecidableEq

/-- One node's consensus state. `peers` are the identifiers registered with the
transport, fixed before the node runs; the three maps are only ever written at them. -/
structure Raft (σ : Type) where
  me : NodeId
  peers : List NodeId
  state : NodeState
  persister : Persister σ
  log : Log
  voteFor : Option NodeId
  term : Nat
  leaderID : Option NodeId
  snapshotting : Bool
  snapshotPending : NodeId → Bool
  nextIndex : NodeId → Nat
  matchIndex : NodeId → Option Nat
  lastCommitIndex : Nat
  lastApplied : Nat
  maxLogLength : Nat

namespace Raft

variable {σ : Type}

/-- A node starts as a follower from what its persister holds. A state file is always
written with a non-empty log, so an existing one is always loaded. -/
def newRaft (id : NodeId) (peers : List NodeId) (persister : Persister σ) (maxLogLength : Nat) :
    Raft σ where
  me := id
  peers := peers
  state := .follower
  persister := persister.reopen
  log := persister.loadState.log
  voteFor := persister.loadState.voteFor
  term := persister.loadState.term
  leaderID := none
  snapshotting := false
  snapshotPending := fun _ => false
  nextIndex := fun _ => 0
  matchIndex := fun _ => none
  lastCommitIndex := persister.lastIndex
  lastApplied := persister.lastIndex
  maxLogLength := maxLogLength

def persist (rf : Raft σ) : Raft σ :=
  { rf with persister := rf.persister.saveState rf.term rf.voteFor rf.log }

/-- A higher term seen in a vote request or in any response. -/
def stepDown (rf : Raft σ) (term : Nat) : Raft σ :=
  persist { rf with term := term, state := .follower, voteFor := none, leaderID := none }

/-- A higher term seen in a request of that term's leader; state and leader are set by
the handler in either case. -/
def adoptTerm (rf : Raft σ) (term : Nat) : Raft σ :=
  persist { rf with term := term, voteFor := none }

/-- The locked part of an election; the request is what is then fanned out. -/
def startElection (rf : Raft σ) : Raft σ × RequestVoteRequest :=
  let rf := persist
    { rf with state := .candidate, voteFor := some rf.me, leaderID := none, term := rf.term + 1 }
  (rf, { term := rf.term, candidateId := rf.me, lastLogIndex := rf.log.lastLogIndex,
         lastLogTerm := rf.log.lastLogTerm })

def matchCount (rf : Raft σ) : Nat := (rf.peers.filter fun p => (rf.matchIndex p).isSome).length

/-- The nodes that hold index `n` by the leader's books, the leader itself included. -/
def replicaCount (rf : Raft σ) (n : Nat) : Nat :=
  1 + (rf.peers.filter fun p => (rf.matchIndex p).any fun m => n ≤ m).length

/-- The test of one round of the commit loop. -/
def Committable (rf : Raft σ) (n : Nat) : Prop :=
  (rf.log.logEntry n).map Entry.term = some rf.term ∧ (rf.matchCount + 1) / 2 < rf.replicaCount n
  deriving Decidable

/-- The commit loop over every index above the commit index and the base. -/
def nextCommitIndex (rf : Raft σ) : Nat :=
  let start :=
    if rf.lastCommitIndex + 1 ≤ rf.log.base.index then rf.log.base.index + 1
    else rf.lastCommitIndex + 1
  (range' start (rf.log.lastLogIndex + 1 - start)).foldl
    (fun commit n => if rf.Committable n then n else commit) rf.lastCommitIndex

def advanceCommitIndex (rf : Raft σ) : Raft σ :=
  { rf with lastCommitIndex := rf.nextCommitIndex }

def appendEntryLocked (rf : Raft σ) (data : Bytes) : Raft σ :=
  let entry : Entry := { term := rf.term, index := rf.log.lastLogIndex + 1, data := data }
  (persist { rf with log := rf.log.push entry }).advanceCommitIndex

/-- A node that is not the leader refuses the proposal. -/
def propose (rf : Raft σ) (data : Bytes) : Option (Raft σ) :=
  if rf.state = .leader then some (rf.appendEntryLocked data) else none

/-- Where the apply loop stands between two acquisitions of the lock: at the top of the
outer loop, back in the inner loop after a send, or sending one of its two messages. -/
inductive ApplyPc where
  | top
  | inner
  | sending (entry : Entry)
  | requesting (snapIndex : Nat)
deriving DecidableEq

/-- From the test of the inner loop to the next release of the lock. -/
def applyLoopInner (rf : Raft σ) : Option (Raft σ × ApplyPc) :=
  if rf.lastApplied < rf.lastCommitIndex ∧ ¬ rf.log.lastLogIndex < rf.lastApplied + 1 then
    (rf.log.logEntry (rf.lastApplied + 1)).map fun entry =>
      ({ rf with lastApplied := rf.lastApplied + 1 }, .sending entry)
  else if rf.maxLogLength < rf.log.length ∧ rf.snapshotting = false then
    some ({ rf with snapshotting := true }, .requesting rf.lastApplied)
  else some (rf, .top)

/-- From the top of the outer loop to the next release of the lock. -/
def applyLoopTop (rf : Raft σ) : Option (Raft σ × ApplyPc) :=
  if rf.lastCommitIndex ≤ rf.lastApplied then some (rf, .top)
  else if rf.lastApplied < rf.log.base.index then
    applyLoopInner { rf with lastApplied := rf.log.base.index }
  else rf.applyLoopInner

/-- The state file holds the term, the vote and the log the node has in memory. -/
def Saved (rf : Raft σ) : Prop :=
  rf.persister.loadState = { term := rf.term, voteFor := rf.voteFor, log := rf.log }

lemma persist_saved (rf : Raft σ) : rf.persist.Saved := rfl

lemma nextCommitIndex_cases (rf : Raft σ) : rf.nextCommitIndex = rf.lastCommitIndex ∨
      rf.lastCommitIndex < rf.nextCommitIndex ∧ rf.log.base.index < rf.nextCommitIndex ∧
        rf.nextCommitIndex ≤ rf.log.lastLogIndex ∧ rf.Committable rf.nextCommitIndex := by
  have hfold : ∀ (l : List Nat) (c : Nat),
      l.foldl (fun commit n => if rf.Committable n then n else commit) c = c ∨
        ∃ n ∈ l, l.foldl (fun commit n => if rf.Committable n then n else commit) c = n ∧
          rf.Committable n := by
    intro l
    induction l with
    | nil => exact fun c => .inl rfl
    | cons a l ih =>
    intro c
    rw [foldl_cons]
    by_cases hcommit : rf.Committable a
    · rw [if_pos hcommit]
      rcases ih a with hsame | ⟨n, hn, hlast, hcommitted⟩
      · exact .inr ⟨a, mem_cons_self, hsame, hcommit⟩
      · exact .inr ⟨n, mem_cons_of_mem _ hn, hlast, hcommitted⟩
    rw [if_neg hcommit]
    rcases ih c with hsame | ⟨n, hn, hlast, hcommitted⟩
    · exact .inl hsame
    · exact .inr ⟨n, mem_cons_of_mem _ hn, hlast, hcommitted⟩
  unfold nextCommitIndex
  rcases hfold _ rf.lastCommitIndex with hsame | ⟨n, hn, hlast, hcommitted⟩
  · exact .inl hsame
  right
  rw [hlast]
  rw [mem_range'_1] at hn
  refine ⟨?_, ?_, ?_, hcommitted⟩
  all_goals split at hn <;> omega

variable {rf rf' : Raft σ}

/-- Either the loop hands out the next entry of the log, which the commit index covers,
or the consensus state keeps everything but the snapshot flag. -/
lemma applyLoopInner_spec {pc : ApplyPc} (hloop : rf.applyLoopInner = some (rf', pc)) :
    (∃ entry, rf.lastApplied < rf.lastCommitIndex ∧
        rf.log.logEntry (rf.lastApplied + 1) = some entry ∧
        rf' = { rf with lastApplied := rf.lastApplied + 1 } ∧ pc = .sending entry) ∨
      (rf.maxLogLength < rf.log.length ∧ rf' = { rf with snapshotting := true } ∧
        pc = .requesting rf.lastApplied ∧
        ¬ (rf.lastApplied < rf.lastCommitIndex ∧ rf.lastApplied < rf.log.lastLogIndex)) ∨
      (rf' = rf ∧ pc = .top) := by
  unfold applyLoopInner at hloop
  split at hloop
  · next hroom =>
    simp only [Option.map_eq_some_iff] at hloop
    obtain ⟨entry, hentry, ⟨⟩⟩ := hloop
    exact .inl ⟨entry, hroom.1, hentry, rfl, rfl⟩
  next hroom =>
  split at hloop
  · next hlong =>
    cases hloop
    refine .inr (.inl ⟨hlong.1, rfl, rfl, ?_⟩)
    intro h
    exact hroom ⟨h.1, by omega⟩
  · cases hloop
    exact .inr (.inr ⟨rfl, rfl⟩)

/-- Wherever the loop starts, it moves nothing but `lastApplied` and the snapshot flag. -/
lemma applyLoop_spec {pc : ApplyPc}
    (hloop : rf.applyLoopTop = some (rf', pc) ∨ rf.applyLoopInner = some (rf', pc)) :
    ∃ applied flag, rf' = { rf with lastApplied := applied, snapshotting := flag } := by
  have hinner : ∀ {rf₀ : Raft σ}, rf₀.applyLoopInner = some (rf', pc) →
      ∃ applied flag, rf' = { rf₀ with lastApplied := applied, snapshotting := flag } := by
    intro rf₀ hloop
    obtain ⟨entry, -, -, rfl, -⟩ | ⟨-, rfl, -, -⟩ | ⟨rfl, -⟩ := applyLoopInner_spec hloop
    all_goals exact ⟨_, _, rfl⟩
  obtain htop | hloop := hloop
  · unfold applyLoopTop at htop
    split at htop
    · cases htop
      exact ⟨_, _, rfl⟩
    split at htop
    · have hjumped := hinner htop
      exact hjumped
    · exact hinner htop
  · exact hinner hloop

/-- Where the base of the log is applied, a stretch that does anything is one of the inner
loop. -/
lemma applyLoop_cases {pc : ApplyPc} (hbase : rf.log.base.index ≤ rf.lastApplied)
    (hloop : rf.applyLoopTop = some (rf', pc) ∨ rf.applyLoopInner = some (rf', pc)) :
    (rf' = rf ∧ pc = .top) ∨ rf.applyLoopInner = some (rf', pc) := by
  obtain htop | hinner := hloop
  · unfold applyLoopTop at htop
    split at htop
    · cases htop
      exact .inl ⟨rfl, rfl⟩
    · rw [if_neg (Nat.not_lt.mpr hbase)] at htop
      exact .inr htop
  · exact .inr hinner

end Raft

end stratum.kvraft
