import Stratum.Lib.InOrder
import Stratum.Kvraft.ApplyFrame
import Stratum.Raft.ElectionSafety

open stratum.lib stratum.kvraft

namespace stratum.raft

variable {σ : Type}

/-- The state after the committed commands `1..m`, each applied once and in order. -/
def stateAt (machine : StateMachine σ) (committed : Nat → Bytes) : Nat → σ
  | 0 => machine.init
  | m + 1 =>
    if (committed (m + 1)).length = 0 then stateAt machine committed m
    else machine.apply (stateAt machine committed m) (committed (m + 1))

/-- What the consumer does to the state machine for one message. -/
def consumeMsg (machine : StateMachine σ) (sm : σ) : ApplyMsg σ → σ
  | .entry entry => Node.handleEntryMsg machine sm entry
  | .snapshotRequest _ => sm
  | .snapshot data _ _ => data

/-- How far a sequence of messages has come: the index it stands at and the last snapshot
in it. -/
structure Position where
  index : Nat
  snapshot : Nat
deriving DecidableEq

def Position.advance (p : Position) : ApplyMsg σ → Position
  | .entry e => { p with index := e.index }
  | .snapshotRequest _ => p
  | .snapshot _ i _ => { index := i, snapshot := i }

/-- The messages that continue a position: the next command, a snapshot that is not older,
and a request for a snapshot of this index or of one that a snapshot has overtaken. -/
def Position.Next (machine : StateMachine σ) (committed : Nat → Bytes) (p : Position) :
    ApplyMsg σ → Prop
  | .entry e => e.index = p.index + 1 ∧ e.data = committed e.index
  | .snapshotRequest r => 0 < r ∧ (r = p.index ∨ r < p.snapshot)
  | .snapshot data i _ => p.index ≤ i ∧ data = stateAt machine committed i

/-- The committed commands and states are what the message carries. -/
def MsgRight (machine : StateMachine σ) (committed : Nat → Bytes) : ApplyMsg σ → Prop
  | .entry e => e.data = committed e.index
  | .snapshotRequest _ => True
  | .snapshot data i _ => data = stateAt machine committed i

instance [DecidableEq σ] (machine : StateMachine σ) (committed : Nat → Bytes) (msg : ApplyMsg σ) :
    Decidable (MsgRight machine committed msg) := by
  unfold MsgRight
  split
  all_goals exact inferInstance

namespace Node

/-- What this process has put on its channel so far. -/
def sent (nd : Node σ) : List (ApplyMsg σ) := nd.consumed ++ nd.applyCh

def start (nd : Node σ) : Position := { index := nd.bootIndex, snapshot := 0 }

/-- Where the channel and the consumer stand. -/
def sentPosition (nd : Node σ) : Position := nd.sent.foldl Position.advance nd.start

def consumedPosition (nd : Node σ) : Position := nd.consumed.foldl Position.advance nd.start

end Node

/-- The entry the apply loop is about to send lies above the last snapshot on the
channel. -/
def Node.EntryInOrder (nd : Node σ) : Prop :=
  match nd.applyPc with
  | .sending e => nd.sentPosition.snapshot < e.index
  | _ => True

instance (nd : Node σ) : Decidable nd.EntryInOrder := by
  unfold Node.EntryInOrder
  split
  all_goals exact inferInstance

/-- The entry the consumer takes next writes into no copy that a local snapshot has still to
encode. -/
def Node.JobsKept (machine : StateMachine σ) (nd : Node σ) : Prop :=
  match nd.applyCh with
  | .entry e :: _ => (handleMsg machine nd (.entry e)).jobs = nd.jobs
  | _ => True

instance [DecidableEq σ] (machine : StateMachine σ) (nd : Node σ) :
    Decidable (nd.JobsKept machine) := by
  unfold Node.JobsKept
  split
  all_goals exact inferInstance

/-- The condition on one step of the cluster: a received snapshot is handed to the channel
only if it is not behind what the channel already carries, an entry only if no snapshot on the
channel has reached it, and no entry is applied that writes into a copy waiting to be encoded. -/
def OrderedStep (machine : StateMachine σ) (w : World σ) : NodeId × Action σ → Prop
  | (u, .handOff inst) => (w.nodes u).sentPosition.index ≤ inst.req.lastIncludedIndex
  | (u, .applyStep) => (w.nodes u).EntryInOrder
  | (u, .consume) => (w.nodes u).JobsKept machine
  | _ => True

instance [DecidableEq σ] (machine : StateMachine σ) (w : World σ) :
    (act : NodeId × Action σ) → Decidable (OrderedStep machine w act)
  | (u, act) => by
    induction act using Action.casesOn <;> dsimp only [OrderedStep] <;> infer_instance

section

variable {machine : StateMachine σ} {committed : Nat → Bytes} {p : Position} {msg : ApplyMsg σ}
  (hnext : p.Next machine committed msg)

include hnext

lemma Position.Next.consume : consumeMsg machine (stateAt machine committed p.index) msg =
      stateAt machine committed (p.advance msg).index := by
  cases msg with
  | entry e =>
    obtain ⟨hindex, hdata⟩ := hnext
    simp only [consumeMsg, Node.handleEntryMsg, advance, hdata, hindex, stateAt]
  | snapshotRequest r => rfl
  | snapshot data i t => exact hnext.2

lemma Position.Next.index_le : p.index ≤ (p.advance msg).index := by
  cases msg with
  | entry e =>
    obtain ⟨hindex, -⟩ := hnext
    change p.index ≤ e.index
    omega
  | snapshotRequest r => exact le_rfl
  | snapshot data i t => exact hnext.1

end

/-- Where the apply loop stands relative to what it has sent. An entry it holds is the
next one, unless a snapshot has overtaken it. -/
def PcInOrder (position : Position) (lastApplied : Nat) : Raft.ApplyPc → Prop
  | .top => lastApplied ≤ position.index
  | .inner => 0 < lastApplied ∧ lastApplied ≤ position.index
  | .sending e => e.index ≤ position.index + 1 ∧ e.index ≤ lastApplied ∧
      lastApplied ≤ max position.index e.index ∧
      (position.index < e.index ∨ position.index = position.snapshot)
  | .requesting r => 0 < r ∧ lastApplied ≤ position.index ∧ r ≤ position.index ∧
      (r = position.index ∨ r < position.snapshot)

/-- A local snapshot carries the state of its label until the log is trimmed past it. -/
def JobRight (machine : StateMachine σ) (committed : Nat → Bytes) (rf : Raft σ) :
    SnapshotJob σ → Prop
  | .copied i data | .requested i data => i ≤ rf.lastApplied ∧
      (data = stateAt machine committed i ∨ i ≤ rf.log.base.index)
  | .checked i data => i ≤ rf.lastApplied ∧ data = stateAt machine committed i
  | .saved i => i ≤ rf.lastApplied ∧ i ≤ rf.persister.lastIndex
  | .finished => True

/-- The invariant of one process: its channel carries the committed commands in order, the
consumer's state is that of the index it has reached, and the snapshot file holds the
state of its label. -/
structure StreamInv (machine : StateMachine σ) (committed : Nat → Bytes) (nd : Node σ) : Prop where
  file : ∀ data i, nd.rf.persister.snapshot = some (data, i) → data = stateAt machine committed i
  guard : nd.rf.persister.snapshotIndex = nd.rf.persister.lastIndex
  baseSaved : nd.rf.log.base.index ≤ nd.rf.persister.lastIndex
  baseApplied : nd.rf.log.base.index ≤ nd.rf.lastApplied
  threshold : 0 < nd.rf.maxLogLength
  boot : nd.bootState = stateAt machine committed nd.bootIndex
  state : nd.sm = nd.consumed.foldl (consumeMsg machine) nd.bootState
  order : InOrder Position.advance (Position.Next machine committed) nd.start nd.sent
  ahead : nd.sentPosition.index ≤ nd.rf.lastApplied ∨
    nd.sentPosition.index = nd.sentPosition.snapshot
  pc : PcInOrder nd.sentPosition nd.rf.lastApplied nd.applyPc
  entries : ∀ e, ApplyMsg.entry e ∈ nd.applyCh → e.index ≤ nd.rf.lastApplied
  idle : nd.installing = none → nd.consumedPosition.snapshot ≤ nd.rf.log.base.index ∧
    nd.consumedPosition.index ≤ nd.rf.lastApplied
  installing : ∀ i t, nd.installing = some (i, t) → nd.consumedPosition = { index := i, snapshot := i } ∧
    i ≤ nd.rf.persister.lastIndex
  jobs : ∀ job ∈ nd.jobs, JobRight machine committed nd.rf job

end stratum.raft
