import Stratum.Raft.LogSafety
import Stratum.Raft.Tenure

open stratum.lib stratum.kvraft List Option

namespace stratum.kvraft

/-- The first index behind a call's entries at which a leader's log holds something. -/
def AppendEntriesRequest.nextIn (req : AppendEntriesRequest) (leaderLog : Log) : Nat :=
  max (req.prevLogIndex + req.entries.length + 1) leaderLog.base.index

variable {req : AppendEntriesRequest}

namespace Raft

variable {σ : Type}

/-- What a call cuts off is not the leader's: behind its entries the follower has nothing, or
an entry of another term than the leader's. -/
def CutsForeign (rf : Raft σ) (req : AppendEntriesRequest) (leaderLog : Log) : Prop :=
  rf.term ≤ req.term → rf.Matches req → req.entries ≠ [] →
    ∀ e f, rf.log.logEntry (req.nextIn leaderLog) = some e →
      leaderLog.logEntry (req.nextIn leaderLog) = some f → e.term ≠ f.term

/-- A call that moves the commit index meets a commit index that is not behind the snapshot,
and if it carries nothing it moves it no further than the entry it checked. -/
def CommitsVerified (rf : Raft σ) (req : AppendEntriesRequest) : Prop :=
  rf.term ≤ req.term → rf.lastCommitIndex < req.leaderCommit →
    rf.log.base.index ≤ rf.lastCommitIndex ∧
      (rf.Matches req → req.entries = [] →
        min req.leaderCommit rf.log.lastLogIndex ≤ max req.prevLogIndex rf.lastCommitIndex)
  deriving Decidable

/-- A current call that passes the check succeeds, and its entries replace what followed. -/
lemma appendEntries_of_matches {rf : Raft σ} (hterm : rf.term ≤ req.term)
    (hmatch : rf.Matches req) :
    ∃ rf' resp, rf.appendEntries req = some (rf', resp) ∧ resp.success = true ∧
      (req.entries ≠ [] →
        rf'.log = rf.log.spliceAfter (rf.log.logIndex req.prevLogIndex) req.entries) := by
  obtain ⟨hbase, hentry⟩ := hmatch
  obtain ⟨prevEntry, hprev, hprevTerm⟩ := map_eq_some_iff.mp hentry
  have hlast := ((rf.log.logEntry_isSome_iff _).mp (by rw [hprev]; rfl)).2
  unfold appendEntries
  rw [if_neg (by omega)]
  dsimp only
  rw [follow_log, if_neg (by omega)]
  unfold appendAfterBase
  rw [follow_log, if_neg (by omega), hprev, map_some, if_neg (not_not.mpr hprevTerm)]
  refine ⟨_, _, rfl, rfl, fun hsome => ?_⟩
  rw [if_pos (length_pos_of_ne_nil hsome)]
  rfl

lemma spliced_last {log : Log} {prevEntry : Entry}
    (hprev : log.logEntry req.prevLogIndex = some prevEntry) (hsome : req.entries ≠ []) :
    (log.spliceAfter (log.logIndex req.prevLogIndex) req.entries).lastLogIndex =
        req.prevLogIndex + req.entries.length ∧
      ∃ e, (log.spliceAfter (log.logIndex req.prevLogIndex) req.entries).logEntry
          (req.prevLogIndex + req.entries.length) = some e ∧
        e.term = Lineage.termBefore Entry.term req.prevLogTerm req.entries req.entries.length := by
  obtain ⟨hbase, hlast⟩ := (log.logEntry_isSome_iff _).mp (by rw [hprev]; rfl)
  constructor
  · rw [Log.lastLogIndex_eq] at hlast
    rw [Log.lastLogIndex_eq, Log.spliceAfter_base, Log.spliceAfter_entries, length_append,
      length_take, Log.logIndex]
    omega
  · obtain ⟨k, hk⟩ := Nat.exists_eq_add_of_lt (length_pos_of_ne_nil hsome)
    rw [Nat.zero_add] at hk
    obtain ⟨e, he⟩ : ∃ e, req.entries[k]? = some e := ⟨_, getElem?_eq_getElem (by omega)⟩
    refine ⟨e, ?_, ?_⟩
    · rw [hk, ← Nat.add_assoc, Log.logEntry_spliceAfter_add _ hbase hlast, he]
    · rw [hk, Lineage.termBefore_succ he]

/-- What a call newly commits lies above the base and is covered by the call's last entry, or
its previous one, at the end of what it checked. -/
lemma appendEntries_commits {rf rf' : Raft σ} {resp : AppendEntriesResponse}
    (happend : rf.appendEntries req = some (rf', resp)) (hverified : rf.CommitsVerified req)
    {i : Nat} (hold : rf.lastCommitIndex < i) (hnew : i ≤ rf'.lastCommitIndex) :
    rf'.log.base.index < i ∧ i ≤ req.prevLogIndex + req.entries.length ∧
      ∃ e, rf'.log.logEntry (req.prevLogIndex + req.entries.length) = some e ∧
        e.term = Lineage.termBefore Entry.term req.prevLogTerm req.entries req.entries.length := by
  have hfollow := rf.follow_log req.term req.leaderId
  have hcommit := rf.follow_lastCommitIndex req.term req.leaderId
  have hmoved : ∀ {rf₁ : Raft σ} {upTo : Nat}, rf₁.lastCommitIndex = rf.lastCommitIndex →
      i ≤ (rf₁.acceptAppendFrom req upTo).1.lastCommitIndex →
        rf.lastCommitIndex < req.leaderCommit ∧ i ≤ min req.leaderCommit upTo := by
    intro rf₁ upTo hsame hle
    simp only [acceptAppendFrom] at hle
    split at hle
    · split at hle <;> omega
    · omega
  obtain ⟨rfl, -⟩ | ⟨hterm, rf₁, rfl, ⟨rfl, -⟩ | ⟨-, rfl⟩ |
    ⟨prevEntry, hbase, hprev, hmatch, houtcome⟩⟩ := appendEntries_spec happend
  · omega
  · omega
  · obtain ⟨hlt, hle⟩ := hmoved hcommit hnew
    have hbelow := (hverified hterm hlt).1
    omega
  have hmatches : rf.Matches req := by
    refine ⟨hbase, ?_⟩
    rw [hprev, ← hmatch]
    rfl
  obtain ⟨hnone, rfl⟩ | ⟨hsome, log, rfl, rfl⟩ := houtcome
  · obtain ⟨hlt, hle⟩ := hmoved hcommit hnew
    obtain ⟨hbelow, hchecked⟩ := hverified hterm hlt
    have hbound := hchecked hmatches hnone
    have hlog : ((rf.follow req.term req.leaderId).acceptAppendFrom req
      rf.log.lastLogIndex).1.log = rf.log := hfollow
    rw [hlog, hnone]
    refine ⟨by omega, ?_, prevEntry, hprev, hmatch⟩
    omega
  · obtain ⟨hlast, hend⟩ := spliced_last hprev hsome
    obtain ⟨hlt, hle⟩ := @hmoved (persist { rf.follow req.term req.leaderId with
      log := rf.log.spliceAfter (rf.log.logIndex req.prevLogIndex) req.entries }) _ hcommit hnew
    have hbelow := (hverified hterm hlt).1
    refine ⟨?_, by omega, hend⟩
    change rf.log.base.index < i
    omega

end Raft

end stratum.kvraft

namespace stratum.raft

variable {σ : Type} [DecidableEq σ] {machine : StateMachine σ} {cluster : Cluster}
  {Ok : World σ → NodeId × Action σ → Prop} {past : List (World σ)} {w w' w₁ w₂ : World σ}
  {u v : NodeId}

/-- Log matching across a run: logs of any two moments that have the same term at an index
agree below it. -/
lemma logs_match (hpath : Path (World.step machine cluster) Ok (.init machine cluster) past w)
    (hw₁ : w₁ ∈ past) (hw₂ : w₂ ∈ past) (hu : u ∈ cluster.members) (hv : v ∈ cluster.members)
    {n : Nat} {e f : Entry} (he : (w₁.nodes u).rf.log.logEntry n = some e)
    (hf : (w₂.nodes v).rf.log.logEntry n = some f) (hterm : e.term = f.term) :
    (w₁.nodes u).rf.log.AgreesBelow (w₂.nodes v).rf.log n := by
  obtain ⟨votes, lineage, -, hinv⟩ := LineageInv.reachable hpath
  have hindexed : ∀ w₀ ∈ past, ∀ x ∈ cluster.members, (w₀.nodes x).rf.log.Indexed := by
    intro w₀ hw₀ x hx
    exact (IndexInv.reachable ((hpath.reach_of_mem hw₀).mono fun _ _ _ => trivial)).logs x hx
  exact (hinv.logs w₁ hw₁ u hu).agreesBelow (hinv.logs w₂ hw₂ v hv) (hindexed w₁ hw₁ u hu)
    (hindexed w₂ hw₂ v hv) he hf hterm

/-- Log matching: in every run, if two nodes' logs have the same term at an index, they hold
the same entry there, and have the same term and the same entry at every smaller index that
both hold. -/
theorem log_matching (hreach : Reachable (World.step machine cluster) (.init machine cluster) w)
    (hu : u ∈ cluster.members) (hv : v ∈ cluster.members) {n : Nat} {e f : Entry}
    (he : (w.nodes u).rf.log.logEntry n = some e) (hf : (w.nodes v).rf.log.logEntry n = some f)
    (hterm : e.term = f.term) : (w.nodes u).rf.log.AgreesBelow (w.nodes v).rf.log n := by
  obtain ⟨past, hpath⟩ := hreach.exists_path
  exact logs_match hpath hpath.mem hpath.mem hu hv he hf hterm

/-- Two nodes that hold the same command at index 2. -/
theorem log_matching_trio :
    ∃ w : World Nat, Reachable (World.step counter trio) (.init counter trio) w ∧
      (w.nodes 1).rf.log.logEntry 2 = some ⟨2, 1, [7]⟩ ∧
      (w.nodes 2).rf.log.logEntry 2 = some ⟨2, 1, [7]⟩ ∧
      (w.nodes 1).rf.log.AgreesBelow (w.nodes 2).rf.log 2 := by
  obtain ⟨w, hreach, he, hf⟩ : ∃ w,
      Reachable (World.step counter trio) (.init counter trio) w ∧
        (w.nodes 1).rf.log.logEntry 2 = some ⟨2, 1, [7]⟩ ∧
        (w.nodes 2).rf.log.logEntry 2 = some ⟨2, 1, [7]⟩ :=
    Reach.exists_decide commitRun (by decide +kernel)
  exact ⟨w, hreach, he, hf, log_matching hreach (by decide) (by decide) he hf rfl⟩

/-- A call takes nothing off the follower's log that its leader holds, exactly when the first
entry it would cut off is not the leader's. The leader's log is that of any moment at which
it led the call's term. -/
theorem append_keeps_iff
    (hpath : Path (World.step machine cluster) Ok (.init machine cluster) past w)
    (hu : u ∈ cluster.members) {req : AppendEntriesRequest}
    (hmsg : Msg.appendEntries u req ∈ w.net) (hled : LedIn past req.leaderId req.term w₁)
    {rf' : Raft σ} {resp : AppendEntriesResponse}
    (happend : (w.nodes u).rf.appendEntries req = some (rf', resp)) :
    (∀ i e f, (w.nodes u).rf.log.base.index < i → (w.nodes u).rf.log.logEntry i = some e →
        (w₁.nodes req.leaderId).rf.log.logEntry i = some f → e.term = f.term →
        rf'.log.logEntry i = some e) ↔
      (w.nodes u).rf.CutsForeign req (w₁.nodes req.leaderId).rf.log := by
  obtain ⟨votes, lineage, -, hinv⟩ := LineageInv.reachable hpath
  obtain ⟨hsender, w₂, hsent, hdrawn, -⟩ := hinv.calls u req hmsg
  have hlast : (w.nodes u).rf.Matches req →
      req.prevLogIndex ≤ (w.nodes u).rf.log.lastLogIndex := by
    rintro ⟨-, hentry⟩
    obtain ⟨prevEntry, hprev, -⟩ := map_eq_some_iff.mp hentry
    exact ((Log.logEntry_isSome_iff _ _).mp (by rw [hprev]; rfl)).2
  constructor
  · intro hkeeps hterm hmatch hsome e f he hf hsame
    obtain ⟨rf₁, resp₁, haccepted, -, hlog⟩ := Raft.appendEntries_of_matches hterm hmatch
    rw [happend] at haccepted
    cases haccepted
    have hbehind : req.prevLogIndex + req.entries.length + 1 ≤
        req.nextIn (w₁.nodes req.leaderId).rf.log := le_max_left _ _
    have hbase := hmatch.1
    have hkept := hkeeps _ e f (by omega) he hf hsame
    obtain ⟨k, hk⟩ := Nat.exists_eq_add_of_le hbehind
    rw [hlog hsome, hk, show req.prevLogIndex + req.entries.length + 1 + k =
      req.prevLogIndex + (req.entries.length + k) + 1 by omega,
      Log.logEntry_spliceAfter_add _ hbase (hlast hmatch),
      getElem?_eq_none (by omega)] at hkept
    cases hkept
  · intro hforeign i e f hbase he hf hsame
    obtain hlog | ⟨hterm, hmatch, hsome, hlog⟩ := Raft.appendEntries_log happend
    · rw [hlog]
      exact he
    rw [hlog]
    obtain hle | hlt := lt_or_ge req.prevLogIndex i
    swap
    · rw [Log.logEntry_spliceAfter_le _ hmatch.1 (hlast hmatch) hlt]
      exact he
    obtain ⟨k, rfl⟩ : ∃ k, i = req.prevLogIndex + k + 1 := ⟨i - req.prevLogIndex - 1, by omega⟩
    rw [Log.logEntry_spliceAfter_add _ hmatch.1 (hlast hmatch)]
    by_cases hk : k < req.entries.length
    · -- the call's own entry there is the leader's, so it is the one that was held
      obtain ⟨g, hg⟩ : ∃ g, req.entries[k]? = some g := ⟨_, getElem?_eq_getElem hk⟩
      obtain ⟨hlow, hheld⟩ := hdrawn.logEntry hg
      obtain ⟨hgf, -⟩ := (TenureInv.reachable hpath).agree _ _ w₂ w₁ hsent hled _ _ le_rfl
        g f hheld hf
      have hmatching := logs_match hpath hpath.mem hsent.1 hu hsender he hheld
        (hsame.trans hgf.symm)
      rw [hg, (hmatching _ le_rfl e g he hheld).2 hbase hlow]
    -- an entry of the leader's behind the call: then the first one behind it is too
    exfalso
    have hmatching := logs_match hpath hpath.mem hled.1 hu hsender he hf hsame
    have hnext : req.nextIn (w₁.nodes req.leaderId).rf.log ≤ req.prevLogIndex + k + 1 :=
      Nat.max_le.mpr ⟨by omega, (Log.logEntry_range hf).1⟩
    have hbehind : req.prevLogIndex < req.nextIn (w₁.nodes req.leaderId).rf.log :=
      lt_of_lt_of_le (by omega) (le_max_left _ _)
    obtain ⟨e', he'⟩ := Log.exists_logEntry he (le_of_lt (lt_of_le_of_lt hmatch.1 hbehind)) hnext
    obtain ⟨f', hf'⟩ := Log.exists_logEntry hf (le_max_right _ _) hnext
    exact hforeign hterm hmatch hsome e' f' he' hf' (hmatching _ hnext e' f' he' hf').1

def lateCall : AppendEntriesRequest :=
  { term := 1, leaderId := 1, prevLogIndex := 0, prevLogTerm := 0,
    entries := [⟨1, 1, []⟩], leaderCommit := 0 }

/-- The call of the second round, which carries the command too. -/
def secondCall : AppendEntriesRequest :=
  { term := 1, leaderId := 1, prevLogIndex := 0, prevLogTerm := 0,
    entries := [⟨1, 1, []⟩, ⟨2, 1, [7]⟩], leaderCommit := 0 }

/-- The two calls at a follower that has handled the longer one: repeated, it keeps all the
leader holds; the shorter one does not. -/
theorem append_keeps_repeated :
    ∃ w : World Nat, Reachable (World.step counter trio) (.init counter trio) w ∧
      .appendEntries 2 secondCall ∈ w.net ∧ (w.nodes 1).rf.state = .leader ∧
      (w.nodes 1).rf.term = 1 ∧ ∃ rf' resp,
        (w.nodes 2).rf.appendEntries secondCall = some (rf', resp) ∧
        ((∀ i e f, (w.nodes 2).rf.log.base.index < i → (w.nodes 2).rf.log.logEntry i = some e →
            (w.nodes 1).rf.log.logEntry i = some f → e.term = f.term →
            rf'.log.logEntry i = some e) ↔
          (w.nodes 2).rf.CutsForeign secondCall (w.nodes 1).rf.log) := by
  obtain ⟨w, hreach, hmsg, hleader, hterm, hhandled⟩ : ∃ w,
      Reachable (World.step counter trio) (.init counter trio) w ∧
        .appendEntries 2 secondCall ∈ w.net ∧
        (w.nodes 1).rf.state = .leader ∧ (w.nodes 1).rf.term = 1 ∧
        ((w.nodes 2).rf.appendEntries secondCall).isSome :=
    Reach.exists_decide commitRun (by decide +kernel)
  obtain ⟨⟨rf', resp⟩, happend⟩ := isSome_iff_exists.mp hhandled
  obtain ⟨past, hpath⟩ := hreach.exists_path
  have hled : LedIn past secondCall.leaderId secondCall.term w := ⟨hpath.mem, hleader, hterm⟩
  exact ⟨w, hreach, hmsg, hleader, hterm, rf', resp, happend,
    append_keeps_iff hpath (by decide) hmsg hled happend⟩

/-- The shorter call of the same leader, handled late, takes off the command that the leader
holds and the follower has acknowledged. -/
theorem append_loses_acknowledged :
    ∃ w : World Nat, Reachable (World.step counter trio) (.init counter trio) w ∧
      .appendEntries 2 lateCall ∈ w.net ∧ (w.nodes 1).rf.state = .leader ∧
      (w.nodes 1).rf.term = 1 ∧
      (w.nodes 2).rf.log.logEntry 2 = some ⟨2, 1, [7]⟩ ∧
      (w.nodes 1).rf.log.logEntry 2 = some ⟨2, 1, [7]⟩ ∧
      ∃ rf' resp, (w.nodes 2).rf.appendEntries lateCall = some (rf', resp) ∧
        rf'.log.logEntry 2 = none :=
  Reach.exists_decide commitRun (by decide +kernel)

/-- A follower commits only what the call proved: in every run, if a call meets its condition,
every index it newly commits holds an entry, and the log agrees up to there with the log the
leader had when it made the call. -/
theorem committed_verified
    (hpath : Path (World.step machine cluster) Ok (.init machine cluster) past w)
    {req : AppendEntriesRequest} (hstep : w.step machine cluster (u, .appendEntries req) = some w')
    (hverified : (w.nodes u).rf.CommitsVerified req) :
    ∃ w₁, LedIn past req.leaderId req.term w₁ ∧
      ∀ i, (w.nodes u).rf.lastCommitIndex < i → i ≤ (w'.nodes u).rf.lastCommitIndex →
        (w'.nodes u).rf.log.base.index < i ∧ (∃ e, (w'.nodes u).rf.log.logEntry i = some e) ∧
        (w'.nodes u).rf.log.AgreesUpTo (w₁.nodes req.leaderId).rf.log i := by
  obtain ⟨nd', out, hu, hnode, hw'⟩ := World.step_inv hstep
  cases Node.stepped hnode with
  | @appendEntries _ rf' resp hmsg happend =>
  obtain ⟨votes, lineage, helection, hinv⟩ := LineageInv.reachable hpath
  rw [(helection.nodes u hu).me] at hmsg
  obtain ⟨hsender, w₁, hsent, hdrawn, -⟩ := hinv.calls u req hmsg
  refine ⟨w₁, hsent, fun i hold hnew => ?_⟩
  have hself : (w'.nodes u).rf = rf' := by
    subst hw'
    simp only [Function.update_self]
  have hpath' : Path (World.step machine cluster) (fun _ _ => True) (.init machine cluster)
      (w' :: past) w' := (hpath.mono fun _ _ _ => trivial).tail trivial hstep
  rw [hself] at hnew
  obtain ⟨hbase, hle, e, he, hterm⟩ := Raft.appendEntries_commits happend hverified hold hnew
  rw [← hself] at hbase he
  obtain ⟨f, hf, hfterm⟩ := hdrawn.last
  have hsame : e.term = f.term := by rw [hterm, hfterm]
  have hagree := logs_match hpath' hpath'.mem (mem_cons_of_mem _ hsent.1) hu hsender he hf hsame
  exact ⟨hbase, Log.exists_logEntry he (le_of_lt hbase) hle,
    ⟨_, e, f, hle, he, hf, hsame⟩, fun j hj => hagree j (le_trans hj hle)⟩

def commitCall : AppendEntriesRequest :=
  { term := 1, leaderId := 1, prevLogIndex := 2, prevLogTerm := 1, entries := [], leaderCommit := 2 }

/-- A follower that commits two entries on a heartbeat that checked the second. -/
theorem committed_verified_trio :
    ∃ w w' : World Nat, Reachable (World.step counter trio) (.init counter trio) w ∧
      w.step counter trio (2, .appendEntries commitCall) = some w' ∧
      (w.nodes 2).rf.lastCommitIndex = 0 ∧ (w'.nodes 2).rf.lastCommitIndex = 2 ∧
      ∃ w₁ : World Nat, (w₁.nodes 1).rf.state = .leader ∧ (w₁.nodes 1).rf.term = 1 ∧
        ∀ i, (w.nodes 2).rf.lastCommitIndex < i → i ≤ (w'.nodes 2).rf.lastCommitIndex →
          (w'.nodes 2).rf.log.base.index < i ∧ (∃ e, (w'.nodes 2).rf.log.logEntry i = some e) ∧
          (w'.nodes 2).rf.log.AgreesUpTo (w₁.nodes 1).rf.log i := by
  obtain ⟨w, hreach, hverified, hbefore, hafter⟩ : ∃ w,
      Reachable (World.step counter trio) (.init counter trio) w ∧
        (w.nodes 2).rf.CommitsVerified commitCall ∧ (w.nodes 2).rf.lastCommitIndex = 0 ∧
          (w.step counter trio (2, .appendEntries commitCall)).any fun w' =>
            (w'.nodes 2).rf.lastCommitIndex = 2 :=
    Reach.exists_decide (commitRun ++ [(1, Action.replicate 2)]) (by decide +kernel)
  obtain ⟨w', hstep, hafter⟩ := any_eq_true _ _ |>.mp hafter
  obtain ⟨past, hpath⟩ := hreach.exists_path
  obtain ⟨w₁, hled, hcommitted⟩ := committed_verified hpath hstep hverified
  exact ⟨w, w', hreach, hstep, hbefore, of_decide_eq_true hafter, w₁, hled.2.1, hled.2.2, hcommitted⟩

/-- Node 3 leads term 1 and commits a command at index 2 with the others; only node 3 holds a
second command at index 3. Node 1 compacts its log to index 2, wins term 2 and, after a
restart, term 3, which puts its own entries at indices 3 and 4. Node 3 refuses its first call,
so node 1 starts a snapshot transfer to it; with node 2 it commits index 4. -/
def divergentRun : List (NodeId × Action Nat) :=
  let vote : RequestVoteRequest := ⟨1, 3, 0, 0⟩
  let vote₂ : RequestVoteRequest := ⟨2, 1, 2, 1⟩
  let vote₃ : RequestVoteRequest := ⟨3, 1, 3, 2⟩
  let first : AppendEntriesRequest :=
    { term := 1, leaderId := 3, prevLogIndex := 0, prevLogTerm := 0,
      entries := [⟨1, 1, []⟩, ⟨2, 1, [7]⟩], leaderCommit := 0 }
  let commit : AppendEntriesRequest :=
    { term := 1, leaderId := 3, prevLogIndex := 2, prevLogTerm := 1, entries := [], leaderCommit := 2 }
  let third : AppendEntriesRequest :=
    { term := 3, leaderId := 1, prevLogIndex := 3, prevLogTerm := 2,
      entries := [⟨4, 3, []⟩], leaderCommit := 2 }
  let fourth : AppendEntriesRequest :=
    { term := 3, leaderId := 1, prevLogIndex := 2, prevLogTerm := 1,
      entries := [⟨3, 2, []⟩, ⟨4, 3, []⟩], leaderCommit := 2 }
  let done (term : Nat) : AppendEntriesResponse :=
    { term, success := true, conflictIndex := 0, conflictTerm := 0 }
  [(3, .startElection), (3, .sendVoteRequest), (1, .requestVote vote),
    (3, .voteResponse { req := vote, votes := 1, waiting := [1, 2] } 1 ⟨1, true⟩),
    (3, .propose [7]), (3, .replicate 1), (3, .replicate 2), (1, .appendEntries first),
    (2, .appendEntries first), (3, .appendResponse 1 first (done 1)), (3, .replicate 1),
    (3, .propose [9]), (1, .appendEntries commit),
    (1, .applyStep), (1, .applyStep), (1, .applyStep), (1, .applyStep), (1, .applyStep),
    (1, .applyStep), (1, .consume), (1, .consume), (1, .consume),
    (1, .jobStep (.copied 2 1)), (1, .jobStep (.requested 2 1)), (1, .jobStep (.checked 2 1)),
    (1, .jobStep (.saved 2)),
    (1, .startElection), (1, .sendVoteRequest), (2, .requestVote vote₂),
    (1, .voteResponse { req := vote₂, votes := 1, waiting := [2, 3] } 2 ⟨2, true⟩),
    (1, .restart), (1, .startElection), (1, .sendVoteRequest), (2, .requestVote vote₃),
    (1, .voteResponse { req := vote₃, votes := 1, waiting := [2, 3] } 2 ⟨3, true⟩),
    (1, .replicate 3), (3, .appendEntries third),
    (1, .appendResponse 3 third ⟨3, false, 1, 1⟩),
    (1, .replicate 3), (1, .replicate 2), (2, .appendEntries third),
    (1, .appendResponse 2 third ⟨3, false, 3, 0⟩),
    (1, .replicate 2), (2, .appendEntries fourth), (1, .appendResponse 2 fourth (done 3)),
    (1, .replicate 3)]

/-- The heartbeat node 1 sends to node 3 while the transfer is pending. -/
def pendingHeartbeat : AppendEntriesRequest :=
  { term := 3, leaderId := 1, prevLogIndex := 2, prevLogTerm := 1, entries := [], leaderCommit := 4 }

/-- Without the condition a heartbeat during a snapshot transfer makes the follower commit its
own entry at an index where the leader holds another one. -/
theorem committed_divergent :
    ∃ w w' : World Nat, Reachable (World.step counter shortLogs) (.init counter shortLogs) w ∧
      w.step counter shortLogs (3, .appendEntries pendingHeartbeat) = some w' ∧
      (w.nodes 1).rf.state = .leader ∧ (w.nodes 1).rf.term = pendingHeartbeat.term ∧
      (w.nodes 1).rf.snapshotPending 3 = true ∧
      (w.nodes 3).rf.lastCommitIndex = 2 ∧ (w'.nodes 3).rf.lastCommitIndex = 3 ∧
      (w'.nodes 3).rf.log.logEntry 3 = some ⟨3, 1, [9]⟩ ∧
      (w.nodes 1).rf.log.logEntry 3 = some ⟨3, 2, []⟩ :=
  Reach.exists_decide_step divergentRun (by decide +kernel)

end stratum.raft
