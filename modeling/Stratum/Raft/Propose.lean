import Stratum.Raft.Cluster

open stratum.kvraft Function

namespace stratum.raft

/-- The state machine together with what applying a command returns to its proposer. A
command that does not decode has a result too, the decoding error. -/
structure Applier (σ ρ : Type) extends StateMachine σ where
  result : σ → Bytes → ρ

/-- What a call of `proposeAndWait` comes to: a result of the state machine, `errSuperseded`,
the context's error, `ErrStopped`, `errApplyTimeout`, `ErrNotLeader`, an error of the forward,
or nothing because its process died. -/
inductive Outcome (ρ : Type) where
  | applied (res : ρ)
  | superseded
  | canceled
  | stopped
  | timeout
  | notLeader
  | forwardFailed
  | lost
deriving DecidableEq

/-- What a forwarded call makes of the leader's answer. -/
def Outcome.forwarded {ρ : Type} : Outcome ρ → Outcome ρ
  | .applied res => .applied res
  | _ => .forwardFailed

/-- The branches of the wait other than the result. -/
inductive GiveUp where
  | ctxDone
  | applyLoopDone
  | poll
  | deadline
deriving DecidableEq

def GiveUp.outcome {ρ : Type} : GiveUp → Outcome ρ
  | .ctxDone => .canceled
  | .applyLoopDone => .stopped
  | .poll => .superseded
  | .deadline => .timeout

/-- Where a call stands: its entry is appended but the waiter not registered, it waits with
what its channel holds, it has chosen another branch but not yet removed its waiter, it
waits for the leader it was forwarded to, or it is over. -/
inductive Phase (ρ : Type) where
  | proposed
  | waiting (resultCh : Option (Outcome ρ))
  | leaving (why : GiveUp)
  | forwarding (leader : NodeId)
  | returned (outcome : Outcome ρ)
deriving DecidableEq

/-- A call of `proposeAndWait` on a node: its encoded command, the forwarded call it serves,
and the index and term `Propose` assigned. -/
structure Call (ρ : Type) where
  node : NodeId
  data : Bytes
  origin : Option Nat
  slot : Option (Nat × Nat)
  phase : Phase ρ
deriving DecidableEq

structure SettledResult (ρ : Type) where
  index : Nat
  term : Nat
  res : ρ
deriving DecidableEq

/-- The tables under `pendingMu`: waiters by index, each with its term and its call, and the
results nobody waited for. `delivering` is the waiter that the apply loop has taken out and
not sent to yet. -/
structure Tables (ρ : Type) where
  pending : Nat → Option (Nat × Nat)
  settled : List (SettledResult ρ)
  settledSeen : Nat
  delivering : Option (Nat × Outcome ρ)

def settledResultsLimit : Nat := 1024

namespace Tables

variable {ρ : Type}

def empty : Tables ρ := { pending := fun _ => none, settled := [], settledSeen := 0, delivering := none }

def rememberSettledLocked (tb : Tables ρ) (index term : Nat) (res : ρ) : Tables ρ :=
  let settled := { index, term, res } :: tb.settled.filter fun s => s.index ≠ index
  let settledSeen := if tb.settledSeen < index then index else tb.settledSeen
  if settledResultsLimit < settled.length then
    let cutoff := settledSeen - settledResultsLimit
    { tb with settled := settled.filter (fun s => ¬ s.index ≤ cutoff), settledSeen }
  else { tb with settled, settledSeen }

def settledAt (tb : Tables ρ) (index : Nat) : Option (SettledResult ρ) :=
  tb.settled.find? fun s => s.index = index

def takeSettledLocked (tb : Tables ρ) (index : Nat) : Option (SettledResult ρ) × Tables ρ :=
  (tb.settledAt index, { tb with settled := tb.settled.filter fun s => s.index ≠ index })

def forgetPending (tb : Tables ρ) (index : Nat) : Tables ρ :=
  { tb with pending := update tb.pending index none }

/-- The end of `handleEntryMsg`: a waiter at the index is taken out, whatever its term; only
without one the result is kept. A no-op returns before. -/
def handleEntryMsg (tb : Tables ρ) (entry : Entry) (res : ρ) : Tables ρ :=
  if entry.data.length = 0 then tb
  else
    match tb.pending entry.index with
    | some (term, id) =>
      { tb.forgetPending entry.index with
        delivering := some (id, if term ≠ entry.term then .superseded else .applied res) }
    | none => tb.rememberSettledLocked entry.index entry.term res

end Tables

/-- The cluster with the callers on every node. A call keeps its place in the list. -/
structure System (σ ρ : Type) where
  world : World σ
  tables : NodeId → Tables ρ
  calls : List (Call ρ)

/-- What happens next on a node: a consensus step that no caller sees, a message for the
consumer, a crash, or a step of a caller. -/
inductive ProposeAction (σ : Type) where
  | consensus (act : Action σ)
  | consume
  | crash (during : Option (Msg σ))
  | call (data : Bytes)
  | serve (id : Nat)
  | register (id : Nat)
  | deliver
  | receive (id : Nat)
  | leave (id : Nat) (why : GiveUp)
  | forget (id : Nat)
  | answer (id : Nat)
  | forwardFailed (id : Nat)
deriving DecidableEq

/-- The consensus steps that are not a proposal, a message for the consumer or a crash. -/
def Action.plain {σ : Type} : Action σ → Bool
  | .propose _ | .consume | .restart | .crashInHandler _ => false
  | _ => true

/-- A process dies at any point, or in a handler that persists twice. -/
def crashAction {σ : Type} : Option (Msg σ) → Action σ
  | none => .restart
  | some msg => .crashInHandler msg

/-- A call whose process dies is over. -/
def Call.lose {ρ : Type} (u : NodeId) (c : Call ρ) : Call ρ :=
  match c.phase with
  | .returned _ => c
  | _ => if c.node = u then { c with phase := .returned .lost } else c

namespace System

variable {σ ρ : Type}

def init (app : Applier σ ρ) (cluster : Cluster) : System σ ρ where
  world := .init app.toStateMachine cluster
  tables := fun _ => .empty
  calls := []

def setPhase (sys : System σ ρ) (id : Nat) (c : Call ρ) (phase : Phase ρ) : System σ ρ :=
  { sys with calls := sys.calls.set id { c with phase } }

def setTables (sys : System σ ρ) (u : NodeId) (tb : Tables ρ) : System σ ρ :=
  { sys with tables := update sys.tables u tb }

/-- The start of `proposeAndWait`: a leader appends the command, any other node forwards it to
the leader it knows of. An encoded command is not empty. -/
def proposeAndWait [DecidableEq σ] (app : Applier σ ρ) (cluster : Cluster) (sys : System σ ρ)
    (u : NodeId) (data : Bytes) (origin : Option Nat) : Option (System σ ρ) :=
  let rf := (sys.world.nodes u).rf
  if data.length = 0 then none
  else if rf.state = .leader then
    (sys.world.step app.toStateMachine cluster (u, .propose data)).map fun world =>
      { sys with
        world
        calls := sys.calls ++ [{
          node := u, data, origin, slot := some (rf.log.lastLogIndex + 1, rf.term)
          phase := .proposed }] }
  else
    let phase : Phase ρ :=
      match rf.leaderID with
      | some leader => if leader ≠ u then .forwarding leader else .returned .notLeader
      | none => .returned .notLeader
    some { sys with calls := sys.calls ++ [{ node := u, data, origin, slot := none, phase }] }

/-- The leader's side of a forward. A node that does not know itself as the leader refuses. -/
def serve [DecidableEq σ] (app : Applier σ ρ) (cluster : Cluster) (sys : System σ ρ) (u : NodeId)
    (id : Nat) : Option (System σ ρ) :=
  (sys.calls[id]?).bind fun c =>
    match c.phase with
    | .forwarding leader =>
      if leader = u ∧ (sys.world.nodes u).rf.leaderID = some u ∧
          ∀ c' ∈ sys.calls, c'.origin ≠ some id then
        sys.proposeAndWait app cluster u c.data (some id)
      else none
    | _ => none

/-- The registration under `pendingMu`, where a result may be waiting already. -/
def register (sys : System σ ρ) (u : NodeId) (id : Nat) : Option (System σ ρ) :=
  (sys.calls[id]?).bind fun c =>
    match c.phase, c.slot with
    | .proposed, some (index, term) =>
      if c.node = u then
        match (sys.tables u).takeSettledLocked index with
        | (some s, tb) => some ((sys.setTables u tb).setPhase id c
            (.returned (if s.term ≠ term then .superseded else .applied s.res)))
        | (none, _) =>
          let tb := { sys.tables u with
            pending := update (sys.tables u).pending index (some (term, id)) }
          some ((sys.setTables u tb).setPhase id c (.waiting none))
      else none
    | _, _ => none

/-- The consumer takes the next message and settles its waiter. It takes no other before it
has sent to the one it took out. -/
def consume [DecidableEq σ] (app : Applier σ ρ) (cluster : Cluster) (sys : System σ ρ)
    (u : NodeId) : Option (System σ ρ) :=
  if (sys.tables u).delivering.isNone then
    (sys.world.step app.toStateMachine cluster (u, .consume)).map fun world =>
      let sys' := { sys with world }
      match (sys.world.nodes u).applyCh with
      | .entry entry :: _ => sys'.setTables u ((sys.tables u).handleEntryMsg entry
          (app.result (sys.world.nodes u).sm entry.data))
      | _ => sys'
  else none

/-- The send to the waiter's channel, which holds one value. -/
def deliver (sys : System σ ρ) (u : NodeId) : Option (System σ ρ) :=
  (sys.tables u).delivering.bind fun (id, outcome) =>
    (sys.calls[id]?).map fun c =>
      let sys' := sys.setTables u { sys.tables u with delivering := none }
      match c.phase with
      | .waiting none => sys'.setPhase id c (.waiting (some outcome))
      | _ => sys'

def receive (sys : System σ ρ) (u : NodeId) (id : Nat) : Option (System σ ρ) :=
  (sys.calls[id]?).bind fun c =>
    match c.phase with
    | .waiting (some outcome) =>
      if c.node = u then some (sys.setPhase id c (.returned outcome)) else none
    | _ => none

/-- Another branch of the wait, also when a result is there. The poll looks for the
leadership of the term the call proposed in. -/
def leave (sys : System σ ρ) (u : NodeId) (id : Nat) (why : GiveUp) : Option (System σ ρ) :=
  (sys.calls[id]?).bind fun c =>
    match c.phase, c.slot with
    | .waiting _, some (_, term) =>
      if c.node = u ∧ (why = .poll → (sys.world.nodes u).rf.term ≠ term ∨
          (sys.world.nodes u).rf.state ≠ .leader) then
        some (sys.setPhase id c (.leaving why))
      else none
    | _, _ => none

def forget (sys : System σ ρ) (u : NodeId) (id : Nat) : Option (System σ ρ) :=
  (sys.calls[id]?).bind fun c =>
    match c.phase, c.slot with
    | .leaving why, some (index, _) =>
      if c.node = u then
        some ((sys.setTables u ((sys.tables u).forgetPending index)).setPhase id c
          (.returned why.outcome))
      else none
    | _, _ => none

/-- The call `id` has served a forwarded call, which returns with its answer. -/
def answer (sys : System σ ρ) (u : NodeId) (id : Nat) : Option (System σ ρ) :=
  (sys.calls[id]?).bind fun c =>
    match c.phase, c.origin with
    | .returned outcome, some origin =>
      (sys.calls[origin]?).bind fun c₀ =>
        match c₀.phase with
        | .forwarding _ =>
          if c₀.node = u then
            some (sys.setPhase origin c₀ (.returned outcome.forwarded))
          else none
        | _ => none
    | _, _ => none

def forwardFailed (sys : System σ ρ) (u : NodeId) (id : Nat) : Option (System σ ρ) :=
  (sys.calls[id]?).bind fun c =>
    match c.phase with
    | .forwarding _ =>
      if c.node = u then some (sys.setPhase id c (.returned .forwardFailed)) else none
    | _ => none

def step [DecidableEq σ] (app : Applier σ ρ) (cluster : Cluster) (sys : System σ ρ)
    (act : NodeId × ProposeAction σ) : Option (System σ ρ) :=
  if act.1 ∈ cluster.members then
    match act.2 with
    | .consensus a =>
      if a.plain then
        (sys.world.step app.toStateMachine cluster (act.1, a)).map fun world => { sys with world }
      else none
    | .consume => sys.consume app cluster act.1
    | .crash during =>
      (sys.world.step app.toStateMachine cluster (act.1, crashAction during)).map fun world =>
        { world, tables := update sys.tables act.1 .empty
          calls := sys.calls.map (Call.lose act.1) }
    | .call data => sys.proposeAndWait app cluster act.1 data none
    | .serve id => sys.serve app cluster act.1 id
    | .register id => sys.register act.1 id
    | .deliver => sys.deliver act.1
    | .receive id => sys.receive act.1 id
    | .leave id why => sys.leave act.1 id why
    | .forget id => sys.forget act.1 id
    | .answer id => sys.answer act.1 id
    | .forwardFailed id => sys.forwardFailed act.1 id
  else none

end System

end stratum.raft
