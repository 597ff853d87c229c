import Stratum.Raft.StreamSteps

open stratum.lib stratum.kvstorage stratum.kvraft List

namespace stratum.raft

open Node World

variable {σ : Type} {machine : StateMachine σ} {committed : Nat → Bytes} {cluster : Cluster}

section

variable {nd nd' : Node σ} {net out : List (Msg σ)}

lemma restart_indexed {rf' : Raft σ} (hlog : rf'.log.Indexed) (hsaved : rf'.Saved) :
    (({ nd with rf := rf' } : Node σ).restart machine cluster).rf.log.Indexed := by
  have hload : rf'.persister.loadState.log = rf'.log := congrArg PersistState.log hsaved
  change rf'.persister.loadState.log.Indexed
  rwa [hload]

variable [DecidableEq σ] {act : Action σ} (hnet : CallsIndexed net)

include hnet

lemma Node.step_indexed (hsaved : nd.rf.Saved) (hlog : nd.rf.log.Indexed)
    (hstep : nd.step machine cluster net act = some (nd', out)) : nd'.rf.log.Indexed := by
  cases Moved.of_step hnet hstep with
  | framed _ _ hframe => exact hframe.rf.indexed hlog
  | handedOff | sent => exact hlog
  | looped rf' pc hloop =>
    obtain ⟨applied, flag, rfl⟩ := Raft.applyLoop_spec (hloop.imp And.right And.right)
    exact hlog
  | consumed msg =>
    cases msg with
    | entry | snapshotRequest | snapshot => exact hlog
  | compacted _ _ _ _ hkept => exact hkept hlog
  | restarted _ rf' _ hkept hsame => exact restart_indexed (hsame ▸ hlog) (hkept hsaved)

/-- What was sent on `applyCh` stays on record, and a snapshot that is added to it was
received before. -/
lemma Node.step_history (hstep : nd.step machine cluster net act = some (nd', out)) :
    ∃ new, nd'.history = nd.history ++ new ∧ ∀ data i t, ApplyMsg.snapshot data i t ∈ new →
      ∃ inst ∈ nd.installs, inst.req.data = data ∧ inst.req.lastIncludedIndex = i := by
  have hsame : nd'.history = nd.history → ∃ new, nd'.history = nd.history ++ new ∧
      ∀ data i t, ApplyMsg.snapshot data i t ∈ new →
        ∃ inst ∈ nd.installs, inst.req.data = data ∧ inst.req.lastIncludedIndex = i := by
    intro heq
    exact ⟨[], by rw [heq, append_nil], nofun⟩
  cases Moved.of_step hnet hstep with
  | framed _ _ hframe => exact hsame hframe.history
  | looped | compacted | restarted => exact hsame rfl
  | handedOff inst msg hinst hsnapshot =>
    refine ⟨[msg], rfl, fun data i t hmsg => ⟨inst, hinst, ?_⟩⟩
    cases (mem_singleton.mp hmsg).trans hsnapshot
    exact ⟨rfl, rfl⟩
  | sent msg pc hsent =>
    refine ⟨[msg], rfl, fun data i t hmsg => ?_⟩
    cases mem_singleton.mp hmsg
    obtain ⟨e, -, heq, -⟩ | ⟨r, -, heq, -⟩ := hsent
    all_goals cases heq
  | consumed msg =>
    cases msg with
    | entry | snapshotRequest | snapshot => exact hsame rfl

end

variable [DecidableEq σ] {w : World σ} {u : NodeId}

/-- Every node stores its entries at their own indices, and so do the calls it sends. -/
structure IndexInv (cluster : Cluster) (w : World σ) : Prop where
  logs : ∀ u ∈ cluster.members, (w.nodes u).rf.log.Indexed
  calls : CallsIndexed w.net

lemma IndexInv.reachable
    (hreach : Reachable (World.step machine cluster) (.init machine cluster) w) :
    IndexInv cluster w := by
  refine hreach.invariant (IndexInv cluster) ?_ ?_
  · exact ⟨fun u _ => Consecutive.nil 0, nofun⟩
  rintro w w' ⟨u, act⟩ hreach hinv - hstep
  obtain ⟨nd', out, hu, hnode, rfl⟩ := step_inv hstep
  obtain ⟨votes, helection⟩ := ElectionInv.reachable hreach
  refine ⟨fun v hv => ?_, fun p req hmsg => ?_⟩
  · by_cases hvu : v = u
    · subst hvu
      simpa using step_indexed hinv.calls (helection.nodes v hv).saved (hinv.logs v hv) hnode
    · simpa [hvu] using hinv.logs v hv
  · obtain hmsg | hmsg := mem_append.mp hmsg
    · exact hinv.calls p req hmsg
    · exact step_callsIndexed (hinv.logs u hu) hnode p req hmsg

lemma StreamInv.step {act : Action σ} {nd' : Node σ} {out : List (Msg σ)}
    (hinv : StreamInv machine committed (w.nodes u)) (hindex : IndexInv cluster w)
    (hu : u ∈ cluster.members) (hsaved : (w.nodes u).rf.Saved)
    (hordered : OrderedStep machine w (u, act))
    (hstep : (w.nodes u).step machine cluster w.net act = some (nd', out))
    (hright : ∀ msg ∈ nd'.history, MsgRight machine committed msg) :
    StreamInv machine committed nd' := by
  cases hside : act.applySide with
  | false => exact hinv.frame (step_frame hindex.calls hside hstep)
  | true =>
  cases act with
  | handOff inst =>
    refine hinv.handOff hordered ?_ hstep
    cases stepped hstep with
    | handOff _ hmsg =>
      subst hmsg
      exact hright _ (mem_append_right _ (mem_singleton_self _))
  | applyStep => exact hinv.applyStep (hindex.logs u hu) hordered hstep hright
  | consume => exact hinv.consume hordered hstep
  | installDone => exact hinv.installDone hstep
  | jobStep job => exact hinv.jobStep hstep
  | restart | crashInHandler =>
    obtain ⟨rf', hkept, hlog, hsnapshot, rfl⟩ := crash_inv rfl hstep
    exact hinv.restart (hkept hsaved) hlog hsnapshot
  | _ => cases hside

omit [DecidableEq σ] in
lemma StreamInv.init (u : NodeId) : StreamInv machine committed ((init machine cluster).nodes u) :=
  .booted (nofun) le_rfl

/-- In a run whose steps are all in order, a node that was only ever handed committed
commands and right snapshots has its channel in order. -/
lemma StreamInv.reachable
    (hreach : Reach (World.step machine cluster) (OrderedStep machine) (.init machine cluster) w)
    (hu : u ∈ cluster.members)
    (hright : ∀ msg ∈ (w.nodes u).history, MsgRight machine committed msg) :
    StreamInv machine committed (w.nodes u) := by
  revert hright
  refine hreach.invariant (fun w => (∀ msg ∈ (w.nodes u).history, MsgRight machine committed msg) →
    StreamInv machine committed (w.nodes u)) ?_ ?_
  · intro _
    exact .init u
  rintro w w' ⟨v, act⟩ hreach hinv hordered hstep hright
  obtain ⟨nd', out, hv, hnode, rfl⟩ := step_inv hstep
  have hany : Reachable (World.step machine cluster) (.init machine cluster) w :=
    hreach.mono fun _ _ _ => trivial
  have hindex := IndexInv.reachable hany
  obtain ⟨votes, helection⟩ := ElectionInv.reachable hany
  by_cases huv : u = v
  · subst huv
    simp only [Function.update_self] at hright ⊢
    obtain ⟨new, hhistory, -⟩ := step_history hindex.calls hnode
    have hbefore : ∀ msg ∈ (w.nodes u).history, MsgRight machine committed msg := by
      intro msg hmsg
      exact hright msg (hhistory ▸ mem_append_left new hmsg)
    exact (hinv hbefore).step hindex hu (helection.nodes u hu).saved hordered hnode hright
  · simp only [Function.update_of_ne huv] at hright ⊢
    exact hinv hright

/-- Exactly-once application in order: if every entry a node was handed is the committed
command of its index and every snapshot the state of its label, then in every run whose
steps are in order, each prefix of what the consumer has processed leaves the state of
the committed commands up to some index that never decreases. -/
theorem applied_in_order
    (hreach : Reach (World.step machine cluster) (OrderedStep machine) (.init machine cluster) w)
    (hu : u ∈ cluster.members)
    (hright : ∀ msg ∈ (w.nodes u).history, MsgRight machine committed msg) :
    ∃ m : Nat → Nat, Monotone m ∧
      (∀ k, ((w.nodes u).consumed.take k).foldl (consumeMsg machine) (w.nodes u).bootState =
        stateAt machine committed (m k)) ∧
      (w.nodes u).sm = (w.nodes u).consumed.foldl (consumeMsg machine) (w.nodes u).bootState := by
  have hinv := StreamInv.reachable hreach hu hright
  have hconsumed := (InOrder.append_iff.mp hinv.order).1
  refine ⟨_, hconsumed.monotone Position.index fun _ _ hnext => hnext.index_le, fun k => ?_,
    hinv.state⟩
  rw [hinv.boot]
  exact InOrder.foldl_eq (fun p : Position => stateAt machine committed p.index)
    (fun _ _ hnext => hnext.consume) (hconsumed.take k)

lemma shortLogs_nodup : ([1, 2, 3] : List NodeId).Nodup := by decide

def shortLogs : Cluster where
  members := [1, 2, 3]
  nodup := shortLogs_nodup
  maxLogLength := 2
  maxLogLength_pos := Nat.zero_lt_two

def twoCommands (i : Nat) : Bytes := if i = 2 then [7] else if i = 3 then [8] else []

/-- Node 1 leads, applies the first command with node 2, commits the second, compacts its
log to index 2 and chooses to send node 3 the snapshot; the call with all three entries
that it made before is still on its way. -/
def compactRun : List (NodeId × Action Nat) :=
  let vote : RequestVoteRequest := ⟨1, 1, 0, 0⟩
  let first : AppendEntriesRequest :=
    { term := 1, leaderId := 1, prevLogIndex := 0, prevLogTerm := 0,
      entries := [⟨1, 1, []⟩, ⟨2, 1, [7]⟩], leaderCommit := 0 }
  let second : AppendEntriesRequest :=
    { term := 1, leaderId := 1, prevLogIndex := 2, prevLogTerm := 1,
      entries := [⟨3, 1, [8]⟩], leaderCommit := 2 }
  let done : AppendEntriesResponse := ⟨1, true, 0, 0⟩
  [(1, .startElection), (1, .sendVoteRequest), (2, .requestVote vote),
    (1, .voteResponse { req := vote, votes := 1, waiting := [2, 3] } 2 ⟨1, true⟩),
    (1, .propose [7]), (1, .replicate 2), (2, .appendEntries first), (1, .appendResponse 2 first done),
    (1, .applyStep), (1, .applyStep), (1, .applyStep), (1, .applyStep), (1, .applyStep),
    (1, .applyStep), (1, .consume), (1, .consume), (1, .consume),
    (1, .propose [8]), (1, .replicate 2), (2, .appendEntries second),
    (1, .appendResponse 2 second done), (1, .replicate 3),
    (1, .jobStep (.copied 2 1)), (1, .jobStep (.requested 2 1)), (1, .jobStep (.checked 2 1)),
    (1, .jobStep (.saved 2)), (1, .replicate 3)]

def fetchRun : List (NodeId × Action Nat) :=
  [(1, .transferStep (.chosen 3 2 1)), (1, .transferStep (.loaded 3 2 1 1))]

def snapshotCall : InstallSnapshotRequest Nat :=
  { term := 1, leaderId := 1, lastIncludedIndex := 2, lastIncludedTerm := 1, data := 1 }

/-- Node 3 installs the snapshot first and then receives the second command. -/
def installRun : List (NodeId × Action Nat) :=
  [(3, .installSnapshot snapshotCall), (3, .handOff { req := snapshotCall, resp := { term := 1 } }),
    (3, .consume), (3, .installDone), (1, .snapshotResponse 3 snapshotCall { term := 1 }),
    (1, .replicate 3),
    (3, .appendEntries { term := 1, leaderId := 1, prevLogIndex := 2, prevLogTerm := 1,
                         entries := [⟨3, 1, [8]⟩], leaderCommit := 3 }),
    (3, .applyStep), (3, .applyStep), (3, .consume)]

/-- An undisturbed run with a snapshot and an entry behind it. -/
theorem applied_in_order_install :
    ∃ w : World Nat,
      Reach (World.step counter shortLogs) (OrderedStep counter) (.init counter shortLogs) w ∧
        (w.nodes 3).consumed.length = 2 ∧ ∃ m : Nat → Nat, Monotone m ∧
          (∀ k, ((w.nodes 3).consumed.take k).foldl (consumeMsg counter) (w.nodes 3).bootState =
            stateAt counter twoCommands (m k)) ∧
          (w.nodes 3).sm = (w.nodes 3).consumed.foldl (consumeMsg counter) (w.nodes 3).bootState := by
  obtain ⟨w, hreach, hright, hconsumed⟩ : ∃ w,
      Reach (World.step counter shortLogs) (OrderedStep counter) (.init counter shortLogs) w ∧
        (∀ msg ∈ (w.nodes 3).history, MsgRight counter twoCommands msg) ∧
          (w.nodes 3).consumed.length = 2 :=
    Reach.exists_decide (compactRun ++ fetchRun ++ installRun) (by decide +kernel)
  exact ⟨w, hreach, hconsumed, applied_in_order hreach (by decide) hright⟩

/-- The late call arrives first, and the snapshot is handed over behind its entries. -/
def rollbackRun : List (NodeId × Action Nat) :=
  [(3, .appendEntries
      { term := 1, leaderId := 1, prevLogIndex := 0, prevLogTerm := 0,
        entries := [⟨1, 1, []⟩, ⟨2, 1, [7]⟩, ⟨3, 1, [8]⟩], leaderCommit := 3 }),
    (3, .applyStep), (3, .applyStep), (3, .applyStep), (3, .applyStep), (3, .applyStep),
    (3, .applyStep), (3, .installSnapshot snapshotCall),
    (3, .handOff { req := snapshotCall, resp := { term := 1 } }),
    (3, .consume), (3, .consume), (3, .consume), (3, .consume)]

lemma stateAt_counter_mono (committed : Nat → Bytes) : Monotone (stateAt counter committed) := by
  refine monotone_nat_of_le_succ fun m => ?_
  rw [stateAt]
  split
  · exact le_rfl
  · exact Nat.le_succ _

/-- Without the condition a right snapshot takes the consumer back behind an entry it has
processed. -/
theorem applied_out_of_order :
    ∃ w : World Nat, Reachable (World.step counter shortLogs) (.init counter shortLogs) w ∧
      (∀ msg ∈ (w.nodes 3).history, MsgRight counter twoCommands msg) ∧
      ¬ ∃ m : Nat → Nat, Monotone m ∧
        ∀ k, ((w.nodes 3).consumed.take k).foldl (consumeMsg counter) (w.nodes 3).bootState =
          stateAt counter twoCommands (m k) := by
  obtain ⟨w, hreach, hright, hthree, hfour⟩ : ∃ w,
      Reachable (World.step counter shortLogs) (.init counter shortLogs) w ∧
        (∀ msg ∈ (w.nodes 3).history, MsgRight counter twoCommands msg) ∧
          ((w.nodes 3).consumed.take 3).foldl (consumeMsg counter) (w.nodes 3).bootState = 2 ∧
          ((w.nodes 3).consumed.take 4).foldl (consumeMsg counter) (w.nodes 3).bootState = 1 :=
    Reach.exists_decide (compactRun ++ fetchRun ++ rollbackRun) (by decide +kernel)
  refine ⟨w, hreach, hright, fun ⟨m, hmono, hstate⟩ => ?_⟩
  have hle := stateAt_counter_mono twoCommands (hmono (show 3 ≤ 4 by decide))
  rw [← hstate 3, ← hstate 4, hthree, hfour] at hle
  exact absurd hle (by decide)

end stratum.raft
