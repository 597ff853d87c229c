import Stratum.Raft.LogMatching
import Stratum.Raft.Committed

open stratum.lib stratum.kvraft Option

namespace stratum.kvraft

open Log

/-- What `after` holds behind index `i` followed an entry of `term` at `i` in `before`. -/
def Log.RetainedFrom (after before : Log) (i term : Nat) : Prop :=
  ∀ k e, i < k → after.logEntry k = some e →
    (before.logEntry i).map Entry.term = some term ∧ before.logEntry k = some e

namespace Raft

variable {σ : Type} {rf rf' : Raft σ} {i t : Nat}

/-- A current call whose previous entry is the one of `term` at `i` is accepted. -/
def Accepts (rf : Raft σ) (i term : Nat) : Prop :=
  ∀ req : AppendEntriesRequest, req.prevLogIndex = i → req.prevLogTerm = term → rf.term ≤ req.term →
    ∃ rf' resp, rf.appendEntries req = some (rf', resp) ∧ resp.success = true

/-- The log ends before the snapshot, or holds its last entry. -/
def SnapshotFits (rf : Raft σ) (i term : Nat) : Prop :=
  rf.log.lastLogIndex < i ∨ (rf.log.logEntry i).map Entry.term = some term
  deriving Decidable

/-- A call that starts below the base carries nothing beyond it that the log does not hold. -/
def HoldsBeyondBase (rf : Raft σ) (req : AppendEntriesRequest) : Prop :=
  req.prevLogIndex < rf.log.base.index →
    ∀ e ∈ req.entries, rf.log.base.index < e.index → rf.log.logEntry e.index = some e

lemma accepts_of_base
    (hbase : rf.log.base = { index := i, term := t, data := [] } ∨ i < rf.log.base.index) :
    rf.Accepts i t := by
  rintro req rfl rfl hterm
  obtain hbase | hbelow := hbase
  · have hentry := logEntry_base rf.log
    rw [hbase] at hentry
    obtain ⟨rf', resp, happend, hsuccess, -⟩ := appendEntries_of_matches hterm
      (show rf.Matches req by
        refine ⟨le_of_eq (by rw [hbase]), ?_⟩
        rw [hentry]
        rfl)
    exact ⟨rf', resp, happend, hsuccess⟩
  · unfold appendEntries
    rw [if_neg (by omega)]
    dsimp only
    rw [follow_log, if_pos hbelow]
    exact ⟨_, _, rfl, rfl⟩

/-- A snapshot above the base either replaces a log that ends before it or cuts the log at
its index, where the term is the log's own. -/
lemma installDone_above (hbase : rf.log.base.index < i) :
    ∃ rf', rf.installDone i t = some rf' ∧ rf'.Saved ∧ rf'.peers = rf.peers ∧ rf'.me = rf.me ∧
      ((rf.log.lastLogIndex < i ∧
          rf'.log = { base := { index := i, term := t, data := [] }, entries := [] }) ∨
        ∃ entry, rf.log.logEntry i = some entry ∧
          rf'.log = rf.log.compactAt i entry.term (rf.log.logIndex i)) := by
  unfold installDone trimLogLocked
  rw [if_neg (not_le.mpr hbase)]
  by_cases hend : rf.log.lastLogIndex < i
  · have hlength : rf.log.length ≤ rf.log.logIndex i := by
      rw [lastLogIndex_eq] at hend
      simp only [length, logIndex]
      omega
    rw [if_pos hlength]
    exact ⟨_, rfl, rfl, rfl, rfl, .inl ⟨hend, rfl⟩⟩
  have hlength : ¬ rf.log.length ≤ rf.log.logIndex i := by
    rw [lastLogIndex_eq] at hend
    simp only [length, logIndex]
    omega
  obtain ⟨entry, hentry⟩ := isSome_iff_exists.mp
    ((rf.log.logEntry_isSome_iff i).mpr ⟨le_of_lt hbase, le_of_not_gt hend⟩)
  rw [if_neg hlength]
  simp only [trimTo, hentry]
  exact ⟨_, rfl, rfl, rfl, rfl, .inr ⟨entry, rfl, rfl⟩⟩

/-- A success leaves the log alone if the call starts below the base; otherwise the log holds
every entry of the call. -/
lemma appendEntries_success {req : AppendEntriesRequest} {resp : AppendEntriesResponse}
    (happend : rf.appendEntries req = some (rf', resp)) (hsuccess : resp.success = true)
    (hentries : Consecutive req.prevLogIndex req.entries) :
    (req.prevLogIndex < rf.log.base.index ∧ rf'.log = rf.log) ∨
      rf.log.base.index ≤ req.prevLogIndex ∧
        ∀ e ∈ req.entries, rf'.log.logEntry e.index = some e := by
  have hfollow := rf.follow_log req.term req.leaderId
  obtain ⟨-, hfailed⟩ | ⟨-, rf₁, rfl, ⟨-, hfailed⟩ | ⟨hbelow, rfl⟩ |
    ⟨prevEntry, hbase, hprev, -, houtcome⟩⟩ := appendEntries_spec happend
  · rw [hsuccess] at hfailed
    cases hfailed
  · rw [hsuccess] at hfailed
    cases hfailed
  · exact .inl ⟨hbelow, hfollow⟩
  refine .inr ⟨hbase, fun e he => ?_⟩
  obtain ⟨hnone, -⟩ | ⟨-, log, rfl, rfl⟩ := houtcome
  · rw [hnone] at he
    cases he
  obtain ⟨k, hk⟩ := List.getElem?_of_mem he
  have hlast := ((rf.log.logEntry_isSome_iff _).mp (by rw [hprev]; rfl)).2
  rw [hentries k e hk]
  change (rf.log.spliceAfter _ req.entries).logEntry _ = some e
  rw [logEntry_spliceAfter_add _ hbase hlast, hk]

end Raft

end stratum.kvraft

namespace stratum.raft

variable {σ : Type} [DecidableEq σ] {machine : StateMachine σ} {cluster : Cluster}

/-- One process takes a step against whatever the network may hold. -/
def Node.next (machine : StateMachine σ) (cluster : Cluster) (nd : Node σ)
    (act : List (Msg σ) × Action σ) : Option (Node σ) :=
  (nd.step machine cluster act.1 act.2).map Prod.fst

lemma base_stays {nd nd' : Node σ} (hsaved : nd.rf.Saved)
    (hpeers : nd.rf.peers = cluster.peers nd.rf.me)
    (hreach : Reachable (Node.next machine cluster) nd nd') :
    nd'.rf.log.base = nd.rf.log.base ∨ nd.rf.log.base.index < nd'.rf.log.base.index := by
  refine (hreach.invariant (fun nd' => nd'.rf.Saved ∧ nd'.rf.peers = cluster.peers nd'.rf.me ∧
    (nd'.rf.log.base = nd.rf.log.base ∨ nd.rf.log.base.index < nd'.rf.log.base.index))
    ⟨hsaved, hpeers, .inl rfl⟩ ?_).2.2
  rintro nd₁ nd₂ ⟨net, act⟩ - ⟨hsaved₁, hpeers₁, hbase₁⟩ - hnext
  simp only [Node.next, map_eq_some_iff] at hnext
  obtain ⟨⟨nd₂, out⟩, hstep, rfl⟩ := hnext
  have hvote := Node.step_voteStep hsaved₁ hpeers₁ hstep
  refine ⟨hvote.saved hsaved₁, by rw [hvote.peers, hvote.me, hpeers₁], ?_⟩
  obtain hsame | hup := (Node.step_change hsaved₁ hstep).1.base
  · rw [hsame]
    exact hbase₁
  obtain hsame₁ | hup₁ := hbase₁
  · rw [hsame₁] at hup
    exact .inr hup
  · exact .inr (lt_trans hup₁ hup)

/-- An installed snapshot leaves a usable log - its base is the snapshot's last entry, what is
retained followed that entry, and whatever the node does next, it accepts every current call
that continues the snapshot - exactly when the old log ended before the snapshot or held its
last entry. -/
theorem install_usable_iff (machine : StateMachine σ) (nd : Node σ) {i t : Nat}
    (hpeers : nd.rf.peers = cluster.peers nd.rf.me) (hbase : nd.rf.log.base.index < i) :
    ∃ rf', nd.rf.installDone i t = some rf' ∧
      ((rf'.log.base = { index := i, term := t, data := [] } ∧
          rf'.log.RetainedFrom nd.rf.log i t ∧
          ∀ nd', Reachable (Node.next machine cluster) { nd with rf := rf', installing := none } nd' →
            nd'.rf.Accepts i t) ↔
        nd.rf.SnapshotFits i t) := by
  obtain ⟨rf', hdone, hsaved, hpeers', hme', hlog⟩ := Raft.installDone_above hbase
  refine ⟨rf', hdone, ?_, fun hfits => ?_⟩
  · rintro ⟨hinstalled, -, -⟩
    obtain ⟨hend, -⟩ | ⟨entry, hentry, hlog⟩ := hlog
    · exact .inl hend
    refine .inr ?_
    rw [hlog] at hinstalled
    rw [hentry]
    exact congrArg some (congrArg Entry.term hinstalled)
  have husable : rf'.log.base = { index := i, term := t, data := [] } ∧
      rf'.log.RetainedFrom nd.rf.log i t := by
    obtain ⟨-, hlog⟩ | ⟨entry, hentry, hlog⟩ := hlog
    · rw [hlog]
      refine ⟨rfl, fun k e hk he => ?_⟩
      have hrange : k - i ≤ 0 := (Log.logEntry_range he).2
      omega
    have hlast := ((nd.rf.log.logEntry_isSome_iff i).mp (by rw [hentry]; rfl)).2
    have hterm := hfits.resolve_left (not_lt.mpr hlast)
    rw [hentry] at hterm
    obtain rfl : entry.term = t := some.inj hterm
    rw [hlog]
    refine ⟨rfl, fun k e hk he => ⟨by rw [hentry]; rfl, ?_⟩⟩
    rwa [Log.logEntry_compactAt _ (le_of_lt hbase) hk] at he
  refine ⟨husable.1, husable.2, fun nd' hreach => Raft.accepts_of_base ?_⟩
  have hstays := base_stays hsaved (by rw [hpeers', hme', hpeers]) hreach
  rwa [husable.1] at hstays

/-- Node 2 has a command behind the entry it installs a snapshot of, and keeps it. -/
theorem install_usable_behind :
    ∃ (w : World Nat) (rf' : Raft Nat), Reachable (World.step counter trio) (.init counter trio) w ∧
      (w.nodes 2).rf.log.lastLogIndex = 2 ∧ (w.nodes 2).rf.installDone 1 1 = some rf' ∧
      rf'.log.base = { index := 1, term := 1, data := [] } ∧
      rf'.log.RetainedFrom (w.nodes 2).rf.log 1 1 ∧
      ∀ nd', Reachable (Node.next counter trio) { w.nodes 2 with rf := rf', installing := none } nd' →
        nd'.rf.Accepts 1 1 := by
  obtain ⟨w, hreach, hlast, hpeers, hbase, hfits⟩ : ∃ w,
      Reachable (World.step counter trio) (.init counter trio) w ∧
        (w.nodes 2).rf.log.lastLogIndex = 2 ∧
        (w.nodes 2).rf.peers = trio.peers (w.nodes 2).rf.me ∧ (w.nodes 2).rf.log.base.index < 1 ∧
        (w.nodes 2).rf.SnapshotFits 1 1 :=
    Reach.exists_decide commitRun (by decide +kernel)
  obtain ⟨rf', hdone, husable⟩ := install_usable_iff counter (w.nodes 2) hpeers hbase
  exact ⟨w, rf', hreach, hlast, hdone, husable.mpr hfits⟩

/-- Node 3 leads term 1 and keeps two commands to itself. Node 1 wins term 2, commits a command
of its own at index 2 with node 2, compacts its log to it and sends node 3 the snapshot, which
node 3 has restored and not reported yet. -/
def divergentInstall : List (NodeId × Action Nat) :=
  let vote : RequestVoteRequest := ⟨1, 3, 0, 0⟩
  let vote₂ : RequestVoteRequest := ⟨2, 1, 0, 0⟩
  let first : AppendEntriesRequest :=
    { term := 2, leaderId := 1, prevLogIndex := 0, prevLogTerm := 0,
      entries := [⟨1, 2, []⟩, ⟨2, 2, [7]⟩], leaderCommit := 0 }
  let done : AppendEntriesResponse := ⟨2, true, 0, 0⟩
  let call : InstallSnapshotRequest Nat :=
    { term := 2, leaderId := 1, lastIncludedIndex := 2, lastIncludedTerm := 2, data := 1 }
  [(3, .startElection), (3, .sendVoteRequest), (2, .requestVote vote),
    (3, .voteResponse { req := vote, votes := 1, waiting := [1, 2] } 2 ⟨1, true⟩),
    (3, .propose [8]), (3, .propose [9]), (1, .requestVote vote),
    (1, .startElection), (1, .sendVoteRequest), (2, .requestVote vote₂),
    (1, .voteResponse { req := vote₂, votes := 1, waiting := [2, 3] } 2 ⟨2, true⟩),
    (1, .propose [7]), (1, .replicate 2), (2, .appendEntries first), (1, .appendResponse 2 first done),
    (1, .applyStep), (1, .applyStep), (1, .applyStep), (1, .applyStep), (1, .applyStep),
    (1, .applyStep), (1, .consume), (1, .consume), (1, .consume),
    (1, .jobStep (.copied 2 1)), (1, .jobStep (.requested 2 1)), (1, .jobStep (.checked 2 1)),
    (1, .jobStep (.saved 2)),
    (1, .replicate 3), (1, .transferStep (.chosen 3 2 2)), (1, .transferStep (.loaded 3 2 2 1)),
    (3, .installSnapshot call), (3, .handOff { req := call, resp := { term := 2 } }), (3, .consume)]

/-- The leader's next call to node 3, which continues the snapshot. -/
def continuingCall : AppendEntriesRequest :=
  { term := 2, leaderId := 1, prevLogIndex := 2, prevLogTerm := 2, entries := [], leaderCommit := 2 }

/-- Without the condition the base keeps the follower's own term, the follower's own command is
retained behind it, and the leader's next call is refused. -/
theorem install_unusable :
    ∃ w w' : World Nat, Reachable (World.step counter shortLogs) (.init counter shortLogs) w ∧
      w.step counter shortLogs (3, .installDone) = some w' ∧
      (w.nodes 3).installing = some (2, 2) ∧ (w.nodes 3).rf.log.base.index < 2 ∧
      (w'.nodes 3).rf.log.base = { index := 2, term := 1, data := [] } ∧
      (w'.nodes 3).rf.log.logEntry 3 = some ⟨3, 1, [9]⟩ ∧
      (w.nodes 1).rf.state = .leader ∧ (w.nodes 1).rf.term = continuingCall.term ∧
      ∃ rf' resp, (w'.nodes 3).rf.appendEntries continuingCall = some (rf', resp) ∧
        resp.success = false :=
  Reach.exists_decide_step divergentInstall (by decide +kernel)

variable {Ok : World σ → NodeId × Action σ → Prop} {past : List (World σ)} {w : World σ} {u : NodeId}

/-- A success means that the entries are held: after a successful call the log holds each of the
call's entries, or its base lies at or beyond it in a prefix that was committed, exactly when a
call that starts below the base carries nothing beyond it that the log did not hold before. -/
theorem append_success_iff
    (hpath : Path (World.step machine cluster) Ok (.init machine cluster) past w)
    (hu : u ∈ cluster.members) {req : AppendEntriesRequest}
    (hentries : Consecutive req.prevLogIndex req.entries) {rf' : Raft σ}
    {resp : AppendEntriesResponse} (happend : (w.nodes u).rf.appendEntries req = some (rf', resp))
    (hsuccess : resp.success = true) :
    (∀ e ∈ req.entries, rf'.log.logEntry e.index = some e ∨
        e.index ≤ rf'.log.base.index ∧ CommittedIn cluster past e.index) ↔
      (w.nodes u).rf.HoldsBeyondBase req := by
  obtain ⟨hbelow, hlog⟩ | ⟨hbase, hheld⟩ := Raft.appendEntries_success happend hsuccess hentries
  · rw [hlog]
    constructor
    · intro hheld _ e he habove
      exact (hheld e he).resolve_right fun hcovered => not_le.mpr habove hcovered.1
    · intro hheld e he
      obtain hle | hlt := lt_or_ge (w.nodes u).rf.log.base.index e.index |>.symm
      · have hfile := ((committed_covered hpath).1 u hu).file.le
          (CompactInv.reachable (hpath.reach.mono fun _ _ _ => trivial) hu).baseSaved
        exact .inr ⟨hle, hfile.le hle⟩
      · exact .inl (hheld hbelow e he hlt)
  · constructor
    · intro _ hbelow
      omega
    · intro _ e he
      exact .inl (hheld e he)

/-- The call with all three entries that node 1 made before it compacted its log. -/
def earlyCall : AppendEntriesRequest :=
  { term := 1, leaderId := 1, prevLogIndex := 0, prevLogTerm := 0,
    entries := [⟨1, 1, []⟩, ⟨2, 1, [7]⟩, ⟨3, 1, [8]⟩], leaderCommit := 3 }

/-- Node 3 handles the call on an empty log. -/
theorem append_success_early :
    ∃ w : World Nat, Reachable (World.step counter shortLogs) (.init counter shortLogs) w ∧
      .appendEntries 3 earlyCall ∈ w.net ∧ ∃ (past : List (World Nat)) (rf' : Raft Nat)
        (resp : AppendEntriesResponse),
        (w.nodes 3).rf.appendEntries earlyCall = some (rf', resp) ∧ resp.success = true ∧
        ((∀ e ∈ earlyCall.entries, rf'.log.logEntry e.index = some e ∨
            e.index ≤ rf'.log.base.index ∧ CommittedIn shortLogs past e.index) ↔
          (w.nodes 3).rf.HoldsBeyondBase earlyCall) := by
  obtain ⟨w, hreach, hmsg, hhandled⟩ : ∃ w,
      Reachable (World.step counter shortLogs) (.init counter shortLogs) w ∧
        .appendEntries 3 earlyCall ∈ w.net ∧
        ((w.nodes 3).rf.appendEntries earlyCall).any fun r => r.2.success :=
    Reach.exists_decide compactRun (by decide +kernel)
  obtain ⟨⟨rf', resp⟩, happend, hsuccess⟩ := any_eq_true _ _ |>.mp hhandled
  obtain ⟨past, hpath⟩ := hreach.exists_path
  exact ⟨w, hreach, hmsg, past, rf', resp, happend, hsuccess,
    append_success_iff hpath (by decide) ((IndexInv.reachable hreach).calls 3 _ hmsg) happend
      hsuccess⟩

/-- Node 3 has installed the snapshot of index 2 when the call arrives: it answers with a
success and does not hold the third entry. -/
theorem append_success_unheld :
    ∃ w : World Nat, Reachable (World.step counter shortLogs) (.init counter shortLogs) w ∧
      .appendEntries 3 earlyCall ∈ w.net ∧ (w.nodes 3).rf.term = earlyCall.term ∧
      ∃ rf' resp, (w.nodes 3).rf.appendEntries earlyCall = some (rf', resp) ∧
        resp.success = true ∧ rf'.log.base.index = 2 ∧ rf'.log.logEntry 3 = none :=
  Reach.exists_decide (compactRun ++ fetchRun ++ installRun.take 4) (by decide +kernel)

end stratum.raft
