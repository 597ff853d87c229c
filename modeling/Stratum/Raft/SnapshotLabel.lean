import Stratum.Raft.SnapshotFlow
import Stratum.Raft.StreamSafety

open stratum.lib stratum.kvraft

namespace stratum.raft

variable {σ : Type}

/-- What the snapshot handler would answer with is the state of index `i`: the persisted
snapshot if it reaches `i`, otherwise the live state machine. -/
def Node.SnapshotCurrent (nd : Node σ) (i : Nat) : Prop :=
  match nd.rf.persister.snapshot with
  | some (_, snapIndex) => if i ≤ snapIndex then snapIndex = i else nd.consumedPosition.index = i
  | none => nd.consumedPosition.index = i

instance (nd : Node σ) (i : Nat) : Decidable (nd.SnapshotCurrent i) := by
  unfold Node.SnapshotCurrent
  split
  all_goals exact inferInstance

/-- The entry the consumer takes next writes into no copy that a transfer has still to encode. -/
def Node.TransfersKept (machine : StateMachine σ) (nd : Node σ) : Prop :=
  match nd.applyCh with
  | .entry e :: _ => (handleMsg machine nd (.entry e)).transfers = nd.transfers
  | _ => True

instance [DecidableEq σ] (machine : StateMachine σ) (nd : Node σ) :
    Decidable (nd.TransfersKept machine) := by
  unfold Node.TransfersKept
  generalize nd.applyCh = ch
  match ch with
  | .entry _ :: _ => infer_instance
  | [] | .snapshotRequest _ :: _ | .snapshot .. :: _ => exact isTrue trivial

/-- The condition on one step: the channel stays in order, the data of a transfer is fetched
while the handler's answer is the state of the index chosen for it, and no entry is applied that
writes into a copy waiting to be encoded. -/
def LabelledStep (machine : StateMachine σ) (w : World σ) : NodeId × Action σ → Prop
  | (u, .transferStep (.chosen _ i _)) => (w.nodes u).SnapshotCurrent i
  | (u, .consume) => (w.nodes u).TransfersKept machine ∧ OrderedStep machine w (u, .consume)
  | act => OrderedStep machine w act

instance [DecidableEq σ] (machine : StateMachine σ) (w : World σ) (act : NodeId × Action σ) :
    Decidable (LabelledStep machine w act) := by
  unfold LabelledStep
  split
  all_goals exact inferInstance

lemma LabelledStep.ordered {machine : StateMachine σ} {w : World σ} {act : NodeId × Action σ}
    (hstep : LabelledStep machine w act) : OrderedStep machine w act := by
  unfold LabelledStep at hstep
  split at hstep
  · trivial
  · exact hstep.2
  · exact hstep

variable (machine : StateMachine σ) (committed : Nat → Bytes)

def RequestRight (req : InstallSnapshotRequest σ) : Prop :=
  req.data = stateAt machine committed req.lastIncludedIndex

def TransferRight : Transfer σ → Prop
  | .chosen _ _ _ => True
  | .copied _ i _ data | .loaded _ i _ data => data = stateAt machine committed i
  | .sent _ req => RequestRight machine committed req

/-- Every snapshot a node sends or has received carries the state of its label. -/
structure LabelInv (nd : Node σ) : Prop where
  stream : StreamInv machine committed nd
  history : ∀ msg ∈ nd.history, MsgRight machine committed msg
  transfers : ∀ t ∈ nd.transfers, TransferRight machine committed t
  installs : ∀ inst ∈ nd.installs, RequestRight machine committed inst.req

def NetRight (net : List (Msg σ)) : Prop :=
  ∀ p req, Msg.installSnapshot p req ∈ net → RequestRight machine committed req

variable {machine committed} {nd nd' : Node σ} {net out : List (Msg σ)}

lemma StreamInv.snapshotHandler (hinv : StreamInv machine committed nd) {i : Nat}
    (hcurrent : nd.SnapshotCurrent i) (p : NodeId) (t : Nat) :
    TransferRight machine committed (nd.snapshotHandler p i t) := by
  unfold Node.SnapshotCurrent at hcurrent
  unfold Node.snapshotHandler
  cases hfile : nd.rf.persister.snapshot with
  | none =>
    rw [hfile] at hcurrent
    rw [← hcurrent]
    exact hinv.sm_eq
  | some file =>
  obtain ⟨data, snapIndex⟩ := file
  rw [hfile] at hcurrent
  dsimp only at hcurrent ⊢
  by_cases hreach : i ≤ snapIndex
  · rw [if_pos hreach] at hcurrent ⊢
    exact hcurrent ▸ hinv.file data snapIndex hfile
  · rw [if_neg hreach] at hcurrent ⊢
    exact hcurrent ▸ hinv.sm_eq

variable [DecidableEq σ] {cluster : Cluster} {act : Action σ}

omit [DecidableEq σ] in
/-- The consumer leaves the copies that wait to be encoded as they are. -/
lemma LabelInv.consumed (hinv : LabelInv machine committed nd) (hkept : nd.TransfersKept machine)
    {msg : ApplyMsg σ} {rest : List (ApplyMsg σ)} (hch : nd.applyCh = msg :: rest) :
    ∀ t ∈ (Node.handleMsg machine nd msg).transfers, TransferRight machine committed t := by
  unfold Node.TransfersKept at hkept
  rw [hch] at hkept
  cases msg with
  | entry e =>
    rw [hkept]
    exact hinv.transfers
  | snapshotRequest r => exact hinv.transfers
  | snapshot data i t =>
    exact Transfer.forall_onCopy hinv.transfers fun p j s copy ht =>
      hinv.transfers (.copied p j s copy) ht

/-- The snapshots a step puts under way, receives or sends carry the state of their
label. -/
lemma LabelInv.step_snapshots (hinv : LabelInv machine committed nd)
    (hnet : NetRight machine committed net)
    (hcurrent : ∀ p i t, act = .transferStep (.chosen p i t) → nd.SnapshotCurrent i)
    (hkept : act = .consume → nd.TransfersKept machine)
    (hstep : nd.step machine cluster net act = some (nd', out)) :
    (∀ t ∈ nd'.transfers, TransferRight machine committed t) ∧
      (∀ inst ∈ nd'.installs, RequestRight machine committed inst.req) ∧
      NetRight machine committed out := by
  have hflow := Node.step_snapshots hstep
  refine ⟨fun t ht => ?_, fun inst hinst => ?_, fun p req hmsg => ?_⟩
  · obtain ht | ⟨p, rfl⟩ | ⟨p, i, s, hact, -, rfl⟩ | ⟨p, i, s, data, hcopied, rfl⟩ |
      ⟨msg, rest, hact, hch, ht⟩ | ⟨p, req, hloaded, -, -, rfl⟩ := hflow.transfers t ht
    · exact hinv.transfers t ht
    · trivial
    · exact hinv.stream.snapshotHandler (hcurrent p i s hact) p s
    · have hright := hinv.transfers _ hcopied
      exact hright
    · exact hinv.consumed (hkept hact) hch t ht
    · have hright := hinv.transfers _ hloaded
      exact hright
  · obtain hinst | hmsg := hflow.installs inst hinst
    · exact hinv.installs inst hinst
    · exact hnet _ inst.req hmsg
  · exact hinv.transfers _ (hflow.sent p req hmsg).1

variable {w : World σ} {u : NodeId}

/-- Every member's snapshots and every snapshot on the network carry the state of their
label. -/
structure LabelledWorld (machine : StateMachine σ) (committed : Nat → Bytes) (cluster : Cluster)
    (w : World σ) : Prop where
  nodes : ∀ u ∈ cluster.members, LabelInv machine committed (w.nodes u)
  net : NetRight machine committed w.net

/-- A step that keeps the channel in order and fetches a snapshot only under its label. -/
lemma LabelledWorld.step (hinv : LabelledWorld machine committed cluster w)
    (hreach : Reachable (World.step machine cluster) (.init machine cluster) w)
    (hu : u ∈ cluster.members) (hlabelled : LabelledStep machine w (u, act))
    (hstep : (w.nodes u).step machine cluster w.net act = some (nd', out))
    (hcommitted : ∀ e, .entry e ∈ nd'.history → e.data = committed e.index) :
    LabelledWorld machine committed cluster
      { nodes := Function.update w.nodes u nd', net := w.net ++ out } := by
  have hnode := hinv.nodes u hu
  have hindex := IndexInv.reachable hreach
  obtain ⟨votes, helection⟩ := ElectionInv.reachable hreach
  obtain ⟨new, hhistory, hnew⟩ := Node.step_history hindex.calls hstep
  have hright : ∀ msg ∈ nd'.history, MsgRight machine committed msg := by
    intro msg hmsg
    cases msg with
    | entry e => exact hcommitted e hmsg
    | snapshotRequest r => trivial
    | snapshot data i t =>
    rw [hhistory] at hmsg
    obtain hmsg | hmsg := List.mem_append.mp hmsg
    · exact hnode.history _ hmsg
    · obtain ⟨inst, hinst, rfl, rfl⟩ := hnew data i t hmsg
      exact hnode.installs inst hinst
  have hcurrent : ∀ p i t, act = .transferStep (.chosen p i t) → (w.nodes u).SnapshotCurrent i := by
    rintro p i t rfl
    exact hlabelled
  have hkept : act = .consume → (w.nodes u).TransfersKept machine := by
    rintro rfl
    exact hlabelled.1
  obtain ⟨htransfers, hinstalls, hout⟩ := hnode.step_snapshots hinv.net hcurrent hkept hstep
  have hstream := hnode.stream.step hindex hu (helection.nodes u hu).saved hlabelled.ordered hstep hright
  refine ⟨fun v hv => ?_, fun p req hmsg => ?_⟩
  · by_cases hvu : v = u
    · subst hvu
      simpa using (⟨hstream, hright, htransfers, hinstalls⟩ : LabelInv machine committed nd')
    · simpa [hvu] using hinv.nodes v hv
  · obtain hmsg | hmsg := List.mem_append.mp hmsg
    · exact hinv.net p req hmsg
    · exact hout p req hmsg

omit [DecidableEq σ] in
lemma LabelledWorld.init : LabelledWorld machine committed cluster (.init machine cluster) where
  nodes := fun u _ =>
    { stream := .init u
      history := nofun
      transfers := nofun
      installs := nofun }
  net := nofun

lemma LabelledWorld.reachable
    (hreach : Reach (World.step machine cluster) (LabelledStep machine) (.init machine cluster) w)
    (hcommitted : ∀ u ∈ cluster.members, ∀ e, .entry e ∈ (w.nodes u).history →
      e.data = committed e.index) : LabelledWorld machine committed cluster w := by
  revert hcommitted
  refine hreach.invariant (fun w => (∀ u ∈ cluster.members, ∀ e, .entry e ∈ (w.nodes u).history →
    e.data = committed e.index) → LabelledWorld machine committed cluster w) ?_ ?_
  · intro _
    exact .init
  rintro w w' ⟨u, act⟩ hreach hinv hlabelled hstep hcommitted
  obtain ⟨nd', out, hu, hnode, rfl⟩ := World.step_inv hstep
  have hany : Reachable (World.step machine cluster) (.init machine cluster) w :=
    hreach.mono fun _ _ _ => trivial
  obtain ⟨new, hhistory, -⟩ := Node.step_history (IndexInv.reachable hany).calls hnode
  have hnow : ∀ e, .entry e ∈ nd'.history → e.data = committed e.index := by
    simpa using hcommitted u hu
  refine (hinv fun v hv e he => ?_).step hany hu hlabelled hnode hnow
  by_cases hvu : v = u
  · subst hvu
    exact hnow e (hhistory ▸ List.mem_append_left new he)
  have hother := hcommitted v hv
  simp only [Function.update_of_ne hvu] at hother
  exact hother e he

/-- Snapshot labelling: in every run whose steps meet their condition, each snapshot
request on the network carries the state of exactly the committed commands up to its
last included index. -/
theorem snapshot_labelled
    (hreach : Reach (World.step machine cluster) (LabelledStep machine) (.init machine cluster) w)
    (hcommitted : ∀ u ∈ cluster.members, ∀ e, .entry e ∈ (w.nodes u).history →
      e.data = committed e.index) {p : NodeId} {req : InstallSnapshotRequest σ}
    (hsent : .installSnapshot p req ∈ w.net) :
    req.data = stateAt machine committed req.lastIncludedIndex :=
  (LabelledWorld.reachable hreach hcommitted).net p req hsent

/-- A snapshot fetched right after its index was chosen. -/
theorem snapshot_labelled_fetch :
    ∃ w : World Nat,
      Reach (World.step counter shortLogs) (LabelledStep counter) (.init counter shortLogs) w ∧
        .installSnapshot 3 snapshotCall ∈ w.net ∧
        snapshotCall.data = stateAt counter twoCommands snapshotCall.lastIncludedIndex := by
  obtain ⟨w, hreach, hright, hsent⟩ : ∃ w,
      Reach (World.step counter shortLogs) (LabelledStep counter) (.init counter shortLogs) w ∧
        (∀ u ∈ shortLogs.members, ∀ msg ∈ (w.nodes u).history,
            MsgRight counter twoCommands msg) ∧ .installSnapshot 3 snapshotCall ∈ w.net :=
    Reach.exists_decide (compactRun ++ fetchRun) (by decide +kernel)
  exact ⟨w, hreach, hsent, snapshot_labelled hreach (fun u hu e he => hright u hu _ he) hsent⟩

/-- Before the data is fetched, node 1 applies the second command and persists a snapshot
of index 3. -/
def overtakeRun : List (NodeId × Action Nat) :=
  [(1, .propose [9]), (1, .jobStep .finished), (1, .applyStep), (1, .applyStep), (1, .applyStep),
    (1, .applyStep), (1, .consume), (1, .consume), (1, .jobStep (.copied 3 2)),
    (1, .jobStep (.requested 3 2)), (1, .jobStep (.checked 3 2)),
    (1, .transferStep (.chosen 3 2 1)), (1, .transferStep (.loaded 3 2 1 2))]

/-- Without the condition a request labelled 2 carries the state of index 3. -/
theorem snapshot_mislabelled :
    ∃ w : World Nat, Reachable (World.step counter shortLogs) (.init counter shortLogs) w ∧
      (∀ u ∈ shortLogs.members, ∀ e, .entry e ∈ (w.nodes u).history → e.data = twoCommands e.index) ∧
      ∃ p req, .installSnapshot p req ∈ w.net ∧
        req.data ≠ stateAt counter twoCommands req.lastIncludedIndex := by
  obtain ⟨w, hreach, hright, hsent⟩ : ∃ w,
      Reachable (World.step counter shortLogs) (.init counter shortLogs) w ∧
        (∀ u ∈ shortLogs.members, ∀ msg ∈ (w.nodes u).history,
            MsgRight counter twoCommands msg) ∧
          .installSnapshot 3 { snapshotCall with data := 2 } ∈ w.net :=
    Reach.exists_decide (compactRun ++ overtakeRun) (by decide +kernel)
  exact ⟨w, hreach, fun u hu e he => hright u hu _ he, 3, _, hsent, by decide⟩

end stratum.raft
