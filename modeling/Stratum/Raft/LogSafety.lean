import Stratum.Raft.SimApply

open stratum.lib stratum.kvstorage stratum.kvraft

namespace stratum.raft

variable {σ : Type} {machine : StateMachine σ} {cluster : Cluster} {h : RunHistory} {u : NodeId}
  {w : World σ} {nd' : Node σ} {out : List (Msg σ)}

lemma ItemsSim.boot (machine : StateMachine σ) (id : NodeId) (persister : Persister σ)
    {history : List (ApplyMsg σ)}
    (hhistory : ∀ e, ApplyMsg.entry e ∈ history → EntryOk cluster h e) :
    ItemsSim cluster h (.boot machine cluster id persister history) where
  electing := nofun
  calls := nofun
  transfers := nofun
  installs := nofun
  applyCh := nofun
  applyPc := trivial
  installing := nofun
  jobs := nofun
  history := hhistory

/-- A process dies, perhaps after it recorded a higher term, and starts on its files. -/
lemma StepSim.restart (machine : StateMachine σ) (hsim : Sim cluster h w)
    (hu : u ∈ cluster.members) {rf' : Raft σ} (hsaved : rf'.Saved)
    (hlog : rf'.log = (w.nodes u).rf.log)
    (hsnapshot : rf'.persister.snapshot = (w.nodes u).rf.persister.snapshot)
    (hvote : rf'.term = (w.nodes u).rf.term ∧ rf'.voteFor = (w.nodes u).rf.voteFor ∨
      (w.nodes u).rf.term < rf'.term ∧ rf'.voteFor = none) :
    StepSim cluster h (h.setTerm u rf'.term) u (w.nodes u)
      (({ w.nodes u with rf := rf' } : Node σ).restart machine cluster) [] := by
  have hraft := hsim.nodes u hu
  have hold := hsim.election.nodes u hu
  have hle : h.term u ≤ rf'.term := by
    rw [hraft.term]
    omega
  have hload : rf'.persister.loadState =
      { term := rf'.term, voteFor := rf'.voteFor, log := rf'.log } := hsaved
  have hcont : Continues h (h.setTerm u rf'.term) := .setTerm hle
  refine ⟨hcont, hsim.inv.setTerm hle, ?_, fun v hv => ?_, fun t => .inl rfl, hsim.index,
    fun hstate => ?_, ?_, .boot machine _ _ fun e he => ?_, nofun⟩
  · simp only [Node.restart, Node.boot, Raft.newRaft, hload]
    refine (Votes.record_eq_self ?_).symm
    obtain ⟨hterm, hvote⟩ | ⟨hlt, hvote⟩ := hvote
    · rw [hterm, hvote]
      exact hold.current
    · rw [hvote]
      exact hold.future _ hlt
  · simp [History.setTerm, hv]
  · cases hstate
  · exact hraft.boot hcont rfl (setTerm_term_self _) (by rw [← hraft.term]; exact hle) hsaved hlog
      hsnapshot _ _ _
  · exact ((hsim.items u hu).history e he).mono hcont.ext

variable [DecidableEq σ]

lemma step_sim {act : Action σ} (hsim : Sim cluster h w) (hu : u ∈ cluster.members)
    (hsafe : SafeStep w (u, act))
    (hstep : (w.nodes u).step machine cluster w.net act = some (nd', out)) :
    ∃ h', StepSim cluster h h' u (w.nodes u) nd' out := by
  cases act with
  | startElection => exact startElection_sim hsim hu hstep
  | sendVoteRequest => exact sendVoteRequest_sim hsim hu hstep
  | requestVote req => exact requestVote_sim hsim hu hstep
  | voteResponse b p res => exact voteResponse_sim hsim hu hstep
  | propose data => exact propose_sim hsim hu hstep
  | replicate p => exact replicate_sim hsim hu hstep
  | appendEntries req => exact appendEntries_sim hsim hu hsafe hstep
  | appendResponse p req resp => exact appendResponse_sim hsim hu hsafe hstep
  | transferStep t => exact transferStep_sim hsim hu hstep
  | transferFailed t => exact transferFailed_sim hsim hu hstep
  | snapshotResponse p req resp => exact snapshotResponse_sim hsim hu hstep
  | installSnapshot req => exact installSnapshot_sim hsim hu hstep
  | handOff inst => exact handOff_sim hsim hu hstep
  | applyStep => exact applyStep_sim hsim hu hstep
  | consume => exact consume_sim hsim hu hstep
  | installDone => exact installDone_sim hsim hu hstep
  | jobStep job => exact jobStep_sim hsim hu hstep
  | restart =>
    cases hstep
    exact ⟨_, .restart machine hsim hu (hsim.election.nodes u hu).saved rfl rfl (.inl ⟨rfl, rfl⟩)⟩
  | crashInHandler msg =>
    cases Node.stepped hstep with
    | crashInHandler hlt hrf' =>
    obtain ⟨req, -, -, rfl⟩ | ⟨req, -, -, rfl⟩ := hrf'
    all_goals exact ⟨_, .restart machine hsim hu (Raft.persist_saved _) rfl rfl (.inr ⟨hlt, rfl⟩)⟩

def RunHistory.start : RunHistory where
  term := fun _ => 0
  log := fun _ => []
  leaderLog := fun _ => none
  acked := fun _ _ => 0
  votes := fun _ _ => none
  standing := fun _ _ => []

lemma RunHistory.start_inv : RunHistory.start.Inv Entry.term cluster.members where
  sound := nofun
  soundLeader := nofun
  soundStanding := nofun
  logTerm := nofun
  standingTerm := nofun
  leaderPos := nofun
  elected := nofun
  acked := fun _ _ n hn ha => by
    change n ≤ 0 at ha
    omega
  voted := nofun

omit [DecidableEq σ] in
lemma Sim.init (machine : StateMachine σ) (cluster : Cluster) :
    Sim cluster RunHistory.start (World.init machine cluster) where
  election := .init machine cluster
  inv := RunHistory.start_inv
  won := nofun
  index := nofun
  nodes := fun _ _ =>
    { term := rfl
      log := .initial
      leader := nofun
      matched := nofun
      candidate := nofun
      baseApplied := le_rfl
      applied := .inl rfl
      committed := .inl rfl
      ready := fun hlt => absurd hlt (lt_irrefl _)
      baseSaved := le_rfl
      saved := .inl rfl
      guard := rfl }
  items := fun u _ => .boot machine u .new nofun
  net := nofun

lemma Sim.reachable
    (hreach : Reach (World.step machine cluster) SafeStep (.init machine cluster) w) :
    ∃ h, Sim cluster h w := by
  refine hreach.invariant (fun w => ∃ h, Sim cluster h w) ?_ ?_
  · exact ⟨_, .init machine cluster⟩
  rintro w w' ⟨u, act⟩ - ⟨h, hsim⟩ hsafe hstep
  obtain ⟨nd', out, hmember, hnode, rfl⟩ := World.step_inv hstep
  obtain ⟨h', hmatch⟩ := step_sim hsim hmember hsafe hnode
  exact ⟨h', hsim.step hmember hnode hmatch⟩

lemma EntryOk.agree (hinv : h.Inv Entry.term cluster.members) {e f : Entry}
    (he : EntryOk cluster h e) (hf : EntryOk cluster h f) (hindex : e.index = f.index) : e = f := by
  obtain ⟨hpos, t, l, k, hl, hle, hat⟩ := he
  obtain ⟨-, t', l', k', hl', hle', hat'⟩ := hf
  have hsame := hl.agree hinv hl' (i := e.index - 1) (by omega) (by omega)
  rw [hat, hindex, hat'] at hsame
  exact Option.some.inj hsame

/-- State machine safety: in every run whose steps all meet their condition, two entries
with the same index that any two nodes sent on `applyCh` have the same term and data. -/
theorem applied_agree
    (hreach : Reach (World.step machine cluster) SafeStep (.init machine cluster) w)
    {u v : NodeId} (hu : u ∈ cluster.members) (hv : v ∈ cluster.members) {e f : Entry}
    (he : ApplyMsg.entry e ∈ (w.nodes u).history) (hf : ApplyMsg.entry f ∈ (w.nodes v).history)
    (hindex : e.index = f.index) : e.term = f.term ∧ e.data = f.data := by
  obtain ⟨h, hsim⟩ := Sim.reachable hreach
  have hsame := EntryOk.agree hsim.inv ((hsim.items u hu).history e he)
    ((hsim.items v hv).history f hf) hindex
  rw [hsame]
  exact ⟨rfl, rfl⟩

/-- The next call carries the commit index, and node 2 applies the command too. -/
def followRun : List (NodeId × Action Nat) :=
  [(1, .replicate 2),
    (2, .appendEntries { term := 1, leaderId := 1, prevLogIndex := 2, prevLogTerm := 1, entries := [],
                         leaderCommit := 2 }),
    (2, .applyStep), (2, .applyStep), (2, .applyStep), (2, .applyStep)]

/-- An undisturbed run in which two nodes apply the same command. -/
theorem applied_agree_trio :
    ∃ w : World Nat, Reach (World.step counter trio) SafeStep (.init counter trio) w ∧
      ∃ e f : Entry, .entry e ∈ (w.nodes 1).history ∧ .entry f ∈ (w.nodes 2).history ∧
        e.index = 2 ∧ f.index = 2 ∧ e.term = f.term ∧ e.data = f.data := by
  obtain ⟨w, hreach, he, hf⟩ : ∃ w,
      Reach (World.step counter trio) SafeStep (.init counter trio) w ∧
        .entry ⟨2, 1, [7]⟩ ∈ (w.nodes 1).history ∧ .entry ⟨2, 1, [7]⟩ ∈ (w.nodes 2).history :=
    Reach.exists_decide (commitRun ++ followRun) (by decide +kernel)
  exact ⟨w, hreach, _, _, he, hf, rfl, rfl, applied_agree hreach (by decide) (by decide) he hf rfl⟩

/-- Leader completeness: in every run whose steps all meet their condition, an applied entry that
some node counts as committed is in the log of every leader of that node's term or a later one,
unless the leader has compacted it away. -/
theorem leader_complete
    (hreach : Reach (World.step machine cluster) SafeStep (.init machine cluster) w)
    {u v x : NodeId} (hu : u ∈ cluster.members) (hv : v ∈ cluster.members)
    (hx : x ∈ cluster.members) (hleader : (w.nodes u).rf.state = .leader)
    (hterm : (w.nodes v).rf.term ≤ (w.nodes u).rf.term) {e : Entry}
    (he : .entry e ∈ (w.nodes x).history) (hcommitted : e.index ≤ (w.nodes v).rf.lastCommitIndex) :
    e.index ≤ (w.nodes u).rf.log.base.index ∨ (w.nodes u).rf.log.logEntry e.index = some e := by
  obtain ⟨h, hsim⟩ := Sim.reachable hreach
  obtain ⟨hpos, t, l, k, hl, hle, hat⟩ := (hsim.items x hx).history e he
  obtain hzero | ⟨c, n, m, hchosen, hc, hn⟩ := (hsim.nodes v hv).committed
  · omega
  have hraft := hsim.nodes u hu
  have hshare := hchosen.share_leader hsim.inv (le_trans hc hterm) (hraft.leader hleader).1
  refine (le_or_gt e.index _).imp_right fun hkept => ?_
  -- what the node counts as committed the leader shares, and committed entries agree
  rw [hraft.log.logEntry hkept, ← hat]
  exact History.Committed.agree hsim.inv ⟨c, n, m, hchosen, le_rfl, le_rfl, hshare⟩ hl (by omega)
    (by omega)

/-- Node 2 wins term 2 on node 3's vote. -/
def succeedRun : List (NodeId × Action Nat) :=
  let vote : RequestVoteRequest := ⟨2, 2, 2, 1⟩
  [(2, .startElection), (2, .sendVoteRequest), (3, .requestVote vote),
    (2, .voteResponse { req := vote, votes := 1, waiting := [1, 3] } 3 ⟨2, true⟩)]

/-- The command that node 1 committed and applied is in the log of the next term's leader. -/
theorem leader_complete_successor :
    ∃ w : World Nat, Reach (World.step counter trio) SafeStep (.init counter trio) w ∧
      (w.nodes 2).rf.state = .leader ∧ (w.nodes 1).rf.term < (w.nodes 2).rf.term ∧
        .entry ⟨2, 1, [7]⟩ ∈ (w.nodes 1).history ∧
          (w.nodes 2).rf.log.logEntry 2 = some ⟨2, 1, [7]⟩ := by
  obtain ⟨w, hreach, he, hleader, hbase, hcommitted, hterm⟩ : ∃ w,
      Reach (World.step counter trio) SafeStep (.init counter trio) w ∧
        .entry ⟨2, 1, [7]⟩ ∈ (w.nodes 1).history ∧ (w.nodes 2).rf.state = .leader ∧
          (w.nodes 2).rf.log.base.index < 2 ∧ 2 ≤ (w.nodes 1).rf.lastCommitIndex ∧
            (w.nodes 1).rf.term < (w.nodes 2).rf.term :=
    Reach.exists_decide (commitRun ++ succeedRun) (by decide +kernel)
  exact ⟨w, hreach, hleader, hterm, he, (leader_complete hreach (by decide) (by decide) (by decide)
    hleader (le_of_lt hterm) he hcommitted).resolve_left (not_le.mpr hbase)⟩

/-- No process votes for two candidates in one term, whatever crashes and restarts lie between. -/
theorem vote_once (hreach : Reachable (World.step machine cluster) (.init machine cluster) w)
    {p : NodeId} {req req' : RequestVoteRequest} {t t' : Nat}
    (hmsg : .voteResponse p req ⟨t, true⟩ ∈ w.net) (hmsg' : .voteResponse p req' ⟨t', true⟩ ∈ w.net)
    (hterm : req.term = req'.term) : req.candidateId = req'.candidateId := by
  obtain ⟨votes, hinv⟩ := ElectionInv.reachable hreach
  have hvote := hinv.net p req _ hmsg rfl
  rw [hterm, hinv.net p req' _ hmsg' rfl] at hvote
  exact (Option.some.inj hvote).symm

theorem vote_once_granted : ∃ w : World Nat, .voteResponse 2 ⟨1, 1, 0, 0⟩ ⟨1, true⟩ ∈ w.net ∧
    ∀ req, req.term = 1 → .voteResponse 2 req ⟨1, true⟩ ∈ w.net → req.candidateId = 1 := by
  obtain ⟨w, hreach, hmsg⟩ : ∃ w, Reachable (World.step counter trio) (.init counter trio) w ∧
      .voteResponse 2 ⟨1, 1, 0, 0⟩ ⟨1, true⟩ ∈ w.net :=
    Reach.exists_decide (commitRun.take 3) (by decide +kernel)
  exact ⟨w, hmsg, fun req hterm hreq => vote_once hreach hreq hmsg hterm⟩

/-- The first call of the term, which carried only the leader's no-op, arrives late and
cuts the acknowledged command off node 2's log. Node 2 then wins term 2 with node 3 and
commits another entry at the command's index. -/
def delayedRun : List (NodeId × Action Nat) :=
  let late : AppendEntriesRequest :=
    { term := 1, leaderId := 1, prevLogIndex := 0, prevLogTerm := 0,
      entries := [⟨1, 1, []⟩], leaderCommit := 0 }
  let vote : RequestVoteRequest := ⟨2, 2, 1, 1⟩
  let first : AppendEntriesRequest :=
    { term := 2, leaderId := 2, prevLogIndex := 1, prevLogTerm := 1,
      entries := [⟨2, 2, []⟩], leaderCommit := 0 }
  let second : AppendEntriesRequest :=
    { term := 2, leaderId := 2, prevLogIndex := 0, prevLogTerm := 0,
      entries := [⟨1, 1, []⟩, ⟨2, 2, []⟩], leaderCommit := 0 }
  [(2, .appendEntries late), (2, .startElection), (2, .sendVoteRequest), (3, .requestVote vote),
    (2, .voteResponse { req := vote, votes := 1, waiting := [1, 3] } 3 ⟨2, true⟩),
    (2, .replicate 3), (3, .appendEntries first),
    (2, .appendResponse 3 first ⟨2, false, 1, 0⟩),
    (2, .replicate 3), (3, .appendEntries second),
    (2, .appendResponse 3 second ⟨2, true, 0, 0⟩),
    (2, .applyStep), (2, .applyStep), (2, .applyStep), (2, .applyStep)]

/-- Without the condition two nodes apply different entries at one index. -/
theorem applied_disagree :
    ∃ w : World Nat, Reachable (World.step counter trio) (.init counter trio) w ∧
      ∃ e f : Entry, .entry e ∈ (w.nodes 1).history ∧ .entry f ∈ (w.nodes 2).history ∧
        e.index = f.index ∧ e.term ≠ f.term ∧ e.data ≠ f.data := by
  obtain ⟨w, hreach, he, hf⟩ : ∃ w,
      Reachable (World.step counter trio) (.init counter trio) w ∧
        .entry ⟨2, 1, [7]⟩ ∈ (w.nodes 1).history ∧ .entry ⟨2, 2, []⟩ ∈ (w.nodes 2).history :=
    Reach.exists_decide (commitRun ++ delayedRun) (by decide +kernel)
  exact ⟨w, hreach, _, _, he, hf, rfl, by decide, by decide⟩

end stratum.raft
