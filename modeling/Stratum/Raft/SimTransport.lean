import Stratum.Raft.SimReplication

open stratum.kvraft List Function

namespace stratum.raft

open Raft

variable {σ : Type} {cluster : Cluster} {h : RunHistory} {u : NodeId} {w : World σ} {nd' : Node σ}
  {out : List (Msg σ)} {machine : StateMachine σ} {req : AppendEntriesRequest} {p : NodeId}

section

variable {rf : Raft σ}

section

variable (hraft : RaftSim cluster h u rf) (hleader : rf.state = .leader)

include hraft hleader

lemma RaftSim.appendRequest {next : Nat} (hnext : rf.log.base.index < next)
    (hreq : rf.appendRequest next = some req) : AppendOk cluster h req := by
  simp only [Raft.appendRequest, Option.map_eq_some_iff] at hreq
  obtain ⟨prev, hprev, rfl⟩ := hreq
  obtain ⟨-, hle, hterm⟩ := hraft.log.logEntry_term hprev
  rw [hraft.log.logEntry_index hprev, hraft.log.suffix hnext, hterm]
  refine ⟨hraft.committed, h.log u, (hraft.leader hleader).1, ?_, rfl, fun i _ => ?_⟩
  · dsimp only
    rw [length_drop]
    omega
  · exact getElem?_drop

lemma RaftSim.baseRequest : AppendOk cluster h
      { term := rf.term, leaderId := rf.me, prevLogIndex := rf.log.base.index,
        prevLogTerm := rf.log.base.term, entries := [], leaderCommit := rf.lastCommitIndex } :=
  ⟨hraft.committed, h.log u, (hraft.leader hleader).1, hraft.log.base_le, hraft.log.base_term,
    fun _ hi => absurd hi (Nat.not_lt_zero _)⟩

end

lemma RaftSim.baseSnapshot (hinv : h.Inv Entry.term cluster.members)
    (hraft : RaftSim cluster h u rf) (hleader : rf.state = .leader) :
    SnapshotOk cluster h rf.term rf.log.base.index rf.log.base.term := by
  obtain hzero | hpos := Nat.eq_zero_or_pos rf.log.base.index
  · exact .inl hzero
  have hcov : Covered cluster h rf.term rf.log.base.index :=
    hraft.applied.mono Continues.refl.ext le_rfl hraft.baseApplied
  have hlead := (hraft.leader hleader).1
  exact .inr ⟨rf.term, h.log u, le_rfl, hlead,
    hcov.committed hinv hpos hlead le_rfl, hraft.log.base_term⟩

end

lemma replicate_sim [DecidableEq σ] (hsim : Sim cluster h w) (hu : u ∈ cluster.members)
    (hstep : (w.nodes u).step machine cluster w.net (.replicate p) = some (nd', out)) :
    ∃ h', StepSim cluster h h' u (w.nodes u) nd' out := by
  have hraft := hsim.nodes u hu
  have hitems := hsim.items u hu
  cases Node.stepped hstep with
  | idle => exact ⟨h, .same hsim hu rfl rfl rfl hraft hitems nofun⟩
  | heartbeat hleader hround =>
    obtain ⟨rfl, ⟨⟩⟩ | ⟨-, ⟨⟩⟩ | ⟨_, _, -, -, -, ⟨⟩⟩ := replicateToPeer_spec hleader hround
    refine ⟨h, .same hsim hu rfl rfl rfl hraft hitems fun msg hmsg => ?_⟩
    rw [mem_singleton] at hmsg
    subst hmsg
    exact hraft.baseRequest hleader
  | choose hleader hround =>
    obtain ⟨-, ⟨⟩⟩ | ⟨rfl, ⟨⟩⟩ | ⟨_, _, -, -, -, ⟨⟩⟩ := replicateToPeer_spec hleader hround
    refine ⟨h, .same hsim hu rfl rfl rfl (hraft.congr rfl rfl rfl rfl rfl rfl rfl rfl rfl) ?_
      nofun⟩
    have hframe := hitems.frame { (w.nodes u).rf with
      snapshotPending := update (w.nodes u).rf.snapshotPending p true }
      .refl le_rfl le_rfl le_rfl
    refine { hframe with transfers := fun t ht => ?_ }
    obtain rfl | ht := mem_cons.mp ht
    · exact hraft.baseSnapshot hsim.inv hleader
    · exact hitems.transfers t ht
  | append hleader hround =>
    obtain ⟨-, ⟨⟩⟩ | ⟨-, ⟨⟩⟩ | ⟨next, req, hnext, hreq, rfl, ⟨⟩⟩ :=
      replicateToPeer_spec hleader hround
    have hok := hraft.appendRequest hleader hnext hreq
    refine ⟨h, .same hsim hu rfl rfl rfl hraft ?_ fun msg hmsg => ?_⟩
    · refine { hitems with calls := fun c hc => ?_ }
      obtain rfl | hc := mem_cons.mp hc
      · exact hok
      · exact hitems.calls c hc
    · rw [mem_singleton] at hmsg
      subst hmsg
      exact hok

lemma RaftSim.record {rf : Raft σ} {n : Nat} (hraft : RaftSim cluster h u rf)
    (hn : n ≤ h.acked p rf.term ∨ Covered cluster h rf.term n) (nextIndex : NodeId → Nat)
    (snapshotPending : NodeId → Bool) : RaftSim cluster h u
      { rf with
        matchIndex := update rf.matchIndex p (some n)
        nextIndex
        snapshotPending } := by
  refine ⟨hraft.term, hraft.log, hraft.leader, fun hleader q hq => ?_, hraft.candidate,
    hraft.baseApplied, hraft.applied, hraft.committed, hraft.ready, hraft.baseSaved, hraft.saved,
    hraft.guard⟩
  by_cases hqp : q = p
  · subst hqp
    exact ⟨n, update_self _ _ _, hn⟩
  dsimp only
  rw [update_of_ne hqp]
  exact hraft.matched hleader q hq

lemma appendSucceeded_sim (hsim : Sim cluster h w) (hu : u ∈ cluster.members)
    (hleader : (w.nodes u).rf.state = .leader) (hterm : (w.nodes u).rf.term = req.term)
    (hack : AckOk cluster h p req) (hrf : nd'.rf = (w.nodes u).rf.appendSucceeded p req)
    (hitems : ItemsSim cluster h { w.nodes u with rf := nd'.rf } → ItemsSim cluster h nd') :
    StepSim cluster h h u (w.nodes u) nd' [] := by
  have hraft := hsim.nodes u hu
  have hpeers := (hsim.election.nodes u hu).peers
  rw [AckOk, ← hterm] at hack
  obtain ⟨rf₁, hsucceeded, hbooks⟩ := appendSucceeded_spec (w.nodes u).rf p req
  have hframe : ∀ rf' : Raft σ, rf'.term = (w.nodes u).rf.term →
      rf'.lastApplied = (w.nodes u).rf.lastApplied → rf'.persister = (w.nodes u).rf.persister →
      ItemsSim cluster h { w.nodes u with rf := rf' } :=
    fun rf' hterm happlied hpersister => (hsim.items u hu).frame rf' .refl (le_of_eq hterm.symm)
      (le_of_eq happlied.symm) (by rw [hpersister])
  obtain rfl | ⟨nextIndex, rfl⟩ := hbooks
  · refine .same hsim hu ?_ ?_ ?_ ?_ (hitems (hframe _ ?_ ?_ ?_)) nofun
    all_goals rw [hrf, hsucceeded]
    all_goals try rfl
    exact (hraft.advance hsim.inv hu hpeers hleader).congr rfl rfl rfl rfl rfl rfl rfl rfl rfl
  refine .same hsim hu ?_ ?_ ?_ ?_ (hitems (hframe _ ?_ ?_ ?_)) nofun
  all_goals rw [hrf, hsucceeded]
  all_goals try rfl
  have hrecord := hraft.record hack nextIndex (w.nodes u).rf.snapshotPending
  exact (hrecord.advance hsim.inv hu hpeers hleader).congr rfl rfl rfl rfl rfl rfl rfl rfl rfl

variable [DecidableEq σ]

lemma appendResponse_sim (hsim : Sim cluster h w) (hu : u ∈ cluster.members)
    {resp : AppendEntriesResponse} (hsafe : (w.nodes u).rf.ResponseSafe req resp)
    (hstep : (w.nodes u).step machine cluster w.net (.appendResponse p req resp) = some (nd', out)) :
    ∃ h', StepSim cluster h h' u (w.nodes u) nd' out := by
  cases Node.stepped hstep with
  | appendResponse _ hmsg =>
  have hraft := hsim.nodes u hu
  have hitems := hsim.items u hu
  have hack : resp.success = true → AckOk cluster h p req := hsim.net _ hmsg
  have hcalls : ∀ c ∈ (w.nodes u).calls.erase (p, req), c ∈ (w.nodes u).calls :=
    fun c hc => mem_of_mem_erase hc
  unfold applyAppendResponse
  by_cases hlt : (w.nodes u).rf.term < resp.term
  · rw [if_pos hlt]
    have hcont : Continues h (h.setTerm u resp.term) :=
      .setTerm (by rw [hraft.term]; exact le_of_lt hlt)
    have hframe := hitems.frame ((w.nodes u).rf.stepDown resp.term) hcont (le_of_lt hlt)
      le_rfl le_rfl
    exact ⟨_, .later hsim hu hlt rfl rfl rfl (.stepDown hsim hu hlt)
      { hframe with calls := fun c hc => hframe.calls c (hcalls c hc) } nofun⟩
  rw [if_neg hlt]
  cases hsuccess : resp.success with
  | true =>
    obtain ⟨hleader, hterm⟩ := hsafe (by omega) hsuccess
    exact ⟨h, appendSucceeded_sim hsim hu hleader hterm (hack hsuccess) rfl fun hframe =>
      { hframe with calls := fun c hc => hframe.calls c (hcalls c hc) }⟩
  | false =>
    have hframe := hitems.frame ((w.nodes u).rf.appendFailed p resp) .refl le_rfl le_rfl le_rfl
    exact ⟨h, .same hsim hu rfl rfl rfl (hraft.congr rfl rfl rfl rfl rfl rfl rfl rfl rfl)
      { hframe with calls := fun c hc => hframe.calls c (hcalls c hc) } nofun⟩

end stratum.raft
