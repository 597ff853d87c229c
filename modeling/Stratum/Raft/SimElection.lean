import Stratum.Raft.SimulationStep

open stratum.lib stratum.kvraft List

namespace stratum.raft

open History

variable {σ : Type} {cluster : Cluster} {h : RunHistory} {u : NodeId} {w : World σ}
  {nd' : Node σ} {out : List (Msg σ)}

/-- A step that changes neither term nor vote nor role needs no new history. -/
lemma StepSim.same (hsim : Sim cluster h w) (hu : u ∈ cluster.members)
    (hterm : nd'.rf.term = (w.nodes u).rf.term) (hvote : nd'.rf.voteFor = (w.nodes u).rf.voteFor)
    (hstate : nd'.rf.state = (w.nodes u).rf.state) (hnode : RaftSim cluster h u nd'.rf)
    (hitems : ItemsSim cluster h nd') (hnet : ∀ msg ∈ out, MsgOk cluster h msg) :
    StepSim cluster h h u (w.nodes u) nd' out where
  cont := .refl
  __ := hsim
  votes := by
    rw [hterm, hvote]
    exact (Votes.record_eq_self (hsim.election.nodes u hu).current).symm
  others := fun _ _ => ⟨rfl, rfl⟩
  leaders := fun _ => .inl rfl
  past := fun hcandidate => .inl ⟨hstate ▸ hcandidate, hterm⟩
  node := hnode
  items := hitems
  net := hnet

variable {t : Nat} {rf : Raft σ} {e : Entry}

lemma Continues.setTerm (ht : h.term u ≤ t) : Continues h (h.setTerm u t) :=
  ⟨setTerm_extends ht, fun _ _ _ => rfl⟩

lemma setTerm_term_self (t : Nat) : (h.setTerm u t).term u = t := by
  simp [setTerm]

section

variable (hsim : Sim cluster h w) (hu : u ∈ cluster.members) (hlt : (w.nodes u).rf.term < t)

include hsim hu hlt

lemma StepSim.later (hterm : nd'.rf.term = t) (hvote : nd'.rf.voteFor = none)
    (hstate : nd'.rf.state = .follower) (hnode : RaftSim cluster (h.setTerm u t) u nd'.rf)
    (hitems : ItemsSim cluster (h.setTerm u t) nd')
    (hnet : ∀ msg ∈ out, MsgOk cluster (h.setTerm u t) msg) :
    StepSim cluster h (h.setTerm u t) u (w.nodes u) nd' out := by
  have hle : h.term u ≤ t := by
    rw [(hsim.nodes u hu).term]
    omega
  refine ⟨.setTerm hle, hsim.inv.setTerm hle, ?_, ?_, fun _ => .inl rfl, hsim.index, ?_, hnode,
    hitems, hnet⟩
  · have hfree := (hsim.election.nodes u hu).future _ hlt
    rw [hvote, hterm]
    exact (Votes.record_eq_self hfree).symm
  · intro v hv
    simp [setTerm, hv]
  intro hcandidate
  rw [hstate] at hcandidate
  cases hcandidate

lemma RaftSim.stepDown : RaftSim cluster (h.setTerm u t) u ((w.nodes u).rf.stepDown t) := by
  have hle : h.term u ≤ t := by
    rw [(hsim.nodes u hu).term]
    omega
  exact (hsim.nodes u hu).follower (.setTerm hle) (setTerm_term_self t) (le_of_lt hlt) rfl rfl rfl
    rfl rfl rfl rfl

lemma StepSim.stepDown (hnet : ∀ msg ∈ out, MsgOk cluster (h.setTerm u t) msg) :
    StepSim cluster h (h.setTerm u t) u (w.nodes u)
      { w.nodes u with rf := (w.nodes u).rf.stepDown t } out := by
  have hle : h.term u ≤ t := by
    rw [(hsim.nodes u hu).term]
    omega
  refine .later hsim hu hlt rfl rfl rfl (.stepDown hsim hu hlt) ?_ hnet
  exact (hsim.items u hu).frame _ (.setTerm hle) (le_of_lt hlt) le_rfl le_rfl

end

/-- An index some leader has chosen is committed in the log of every leader since. -/
lemma Covered.committed (hinv : h.Inv Entry.term cluster.members) {t' k : Nat} {m : List Entry}
    (hcov : Covered cluster h t k) (hk : 0 < k) (hm : h.leaderLog t' = some m) (ht : t ≤ t') :
    h.Committed Entry.term cluster.members t m k := by
  obtain rfl | ⟨c, n, mc, hchosen, hct, hkn⟩ := hcov
  · exact absurd hk (lt_irrefl 0)
  · have hshare := hchosen.share_leader hinv (by omega) hm
    exact ⟨c, n, mc, hchosen, hct, hkn, hshare.mono hkn⟩

/-- The commit rule of a leader: an index of its own term that more than half of the
cluster holds by its books is chosen by it, unless one of those books rests on an index
that was chosen before. -/
lemma RaftSim.committable (hu : u ∈ cluster.members) (hraft : RaftSim cluster h u rf)
    (hpeers : rf.peers = cluster.peers u) (hleader : rf.state = .leader) {n : Nat}
    (hbase : rf.log.base.index < n) (hcommit : rf.Committable n) : Covered cluster h rf.term n := by
  obtain ⟨hcurrent, hcount⟩ := hcommit
  obtain ⟨hlead, hacked⟩ := hraft.leader hleader
  have hmatched := hraft.matched hleader
  obtain ⟨e, he, heterm⟩ : ∃ e, (h.log u)[n - 1]? = some e ∧ e.term = rf.term := by
    rw [hraft.log.logEntry hbase, Option.map_eq_some_iff] at hcurrent
    exact hcurrent
  have hlen := (List.getElem?_eq_some_iff.mp he).1
  have hall : rf.matchCount = rf.peers.length := by
    rw [Raft.matchCount, filter_eq_self.mpr]
    intro p hp
    obtain ⟨k, hk, -⟩ := hmatched p hp
    rw [hk]
    rfl
  by_cases hacks : ∀ p ∈ rf.peers.filter (fun p => (rf.matchIndex p).any fun m => n ≤ m),
      n ≤ h.acked p rf.term
  · refine .inr ⟨rf.term, n, h.log u, ⟨hlead, by omega, ⟨e, he, heterm⟩,
      u :: rf.peers.filter (fun p => (rf.matchIndex p).any fun m => n ≤ m), ⟨?_, ?_, ?_⟩, ?_⟩,
      le_rfl, le_rfl⟩
    · rw [hpeers]
      refine nodup_cons.mpr ⟨fun hmem => ?_, (cluster.nodup_peers u).filter _⟩
      exact cluster.not_mem_peers u (mem_of_mem_filter hmem)
    · intro v hv
      obtain rfl | hv := mem_cons.mp hv
      · exact hu
      · rw [hpeers] at hv
        exact Cluster.mem_members_of_mem_peers (mem_of_mem_filter hv)
    · rw [Raft.replicaCount, hall, hpeers] at hcount
      have hsize := Cluster.length_peers hu
      rw [length_cons, hpeers]
      omega
    intro v hv
    obtain rfl | hv := mem_cons.mp hv
    · omega
    · exact hacks v hv
  · simp only [not_forall] at hacks
    obtain ⟨p, hp, hmiss⟩ := hacks
    obtain ⟨hpeer, hbook⟩ := mem_filter.mp hp
    obtain ⟨k, hk, hok⟩ := hmatched p hpeer
    rw [hk, Option.any_some, decide_eq_true_eq] at hbook
    obtain hle | hcov := hok
    · omega
    · exact hcov.mono Continues.refl.ext le_rfl hbook

lemma RaftSim.advance (hinv : h.Inv Entry.term cluster.members) (hu : u ∈ cluster.members)
    (hraft : RaftSim cluster h u rf) (hpeers : rf.peers = cluster.peers u)
    (hleader : rf.state = .leader) : RaftSim cluster h u rf.advanceCommitIndex := by
  obtain hsame | ⟨-, hbase, -, hcommit⟩ := rf.nextCommitIndex_cases
  · exact hraft.congr rfl rfl rfl rfl rfl hsame rfl rfl rfl
  have hcov := hraft.committable hu hpeers hleader hbase hcommit
  refine ⟨hraft.term, hraft.log, hraft.leader, hraft.matched, hraft.candidate, hraft.baseApplied,
    hraft.applied, hcov, fun _ => ?_, hraft.baseSaved, hraft.saved, hraft.guard⟩
  exact hcov.committed hinv (by omega) (hraft.leader hleader).1 le_rfl

/-- The history after the leader `u` of its term appended `e`. -/
def leadHistory (h : RunHistory) (u : NodeId) (e : Entry) : RunHistory :=
  (h.setLeaderLog (h.term u) (h.log u ++ [e])).setLog u (h.log u ++ [e])
    (max (h.acked u (h.term u)) (h.log u ++ [e]).length)

lemma leadHistory_log (e : Entry) : (leadHistory h u e).log u = h.log u ++ [e] := by
  simp [leadHistory, setLog]

lemma leadHistory_leaderLog (e : Entry) :
    (leadHistory h u e).leaderLog (h.term u) = some (h.log u ++ [e]) := by
  simp [leadHistory, setLog, setLeaderLog]

lemma leadHistory_acked (e : Entry) :
    (h.log u ++ [e]).length ≤ (leadHistory h u e).acked u (h.term u) := by
  simp [leadHistory, setLog, setLeaderLog]

lemma leadHistory_inv
    (hgrow : (h.setLeaderLog (h.term u) (h.log u ++ [e])).Inv Entry.term cluster.members) :
    (leadHistory h u e).Inv Entry.term cluster.members := by
  have hm : (h.setLeaderLog (h.term u) (h.log u ++ [e])).leaderLog (h.term u) =
      some (h.log u ++ [e]) := by
    simp [setLeaderLog]
  have haccept := hgrow.accept (u := u) (j := (h.log u ++ [e]).length) hm le_rfl
    (.inl (by simp [setLeaderLog]))
  rw [take_length] at haccept
  exact haccept

lemma RaftSim.lead {rf₀ : Raft σ} {data : Bytes} (hu : u ∈ cluster.members)
    (hraft : RaftSim cluster h u rf) (hcont : Continues h (leadHistory h u e))
    (hinv : (leadHistory h u e).Inv Entry.term cluster.members)
    (hpeers : rf₀.peers = cluster.peers u) (hstate : rf₀.state = .leader)
    (hterm : rf₀.term = rf.term) (hlog : rf₀.log = rf.log)
    (hcommit : rf₀.lastCommitIndex = rf.lastCommitIndex)
    (happlied : rf₀.lastApplied = rf.lastApplied) (hpersister : rf₀.persister = rf.persister)
    (hmatched : ∀ p ∈ rf₀.peers, ∃ n, rf₀.matchIndex p = some n ∧ (n ≤ h.acked p rf.term ∨ Covered
      cluster h rf.term n)) (he : e = { term := rf.term, index := (h.log u).length + 1, data }) :
    RaftSim cluster (leadHistory h u e) u (rf₀.appendEntryLocked data) := by
  have hentry : e = { term := rf₀.term, index := rf₀.log.lastLogIndex + 1, data } := by
    rw [he, hterm, hlog, hraft.log.lastLogIndex]
  have hkept : Share (h.log u ++ [e]) (h.log u) (h.log u).length :=
    .append_left (.refl le_rfl) [e]
  unfold Raft.appendEntryLocked
  rw [← hentry]
  refine RaftSim.advance hinv hu ⟨?_, ?_, fun _ => ⟨?_, ?_⟩, fun _ p hp => ?_, ?_, ?_, ?_, ?_, ?_, ?_, ?_,
    ?_⟩ hpeers hstate
  · exact hraft.term.trans hterm.symm
  · rw [leadHistory_log]
    rw [hlog]
    exact hraft.log.push (by rw [he])
  · change (leadHistory h u e).leaderLog rf₀.term = _
    rw [leadHistory_log, hterm, ← hraft.term, leadHistory_leaderLog]
  · rw [leadHistory_log, hterm, ← hraft.term]
    exact leadHistory_acked e
  · obtain ⟨n, hn, hok⟩ := hmatched p hp
    refine ⟨n, hn, ?_⟩
    rw [hterm]
    exact hok.imp (fun ha => le_trans ha (hcont.ext.acked_le _ _)) fun hcov =>
      hcov.extend hcont.ext
  · intro hcandidate
    rw [hstate] at hcandidate
    cases hcandidate
  · rw [hlog, happlied]
    exact hraft.baseApplied
  · rw [hterm, happlied]
    exact hraft.applied.extend hcont.ext
  · rw [hterm, hcommit]
    exact hraft.committed.extend hcont.ext
  · intro hready
    rw [happlied, hcommit] at hready
    rw [leadHistory_log, hterm, hcommit]
    have hcommitted := (hraft.ready hready).extend hcont.ext
    exact hcommitted.of_share (hkept.mono hcommitted.le_length)
  · rw [hlog, hpersister]
    exact hraft.baseSaved
  · rw [hterm, hpersister]
    exact hraft.saved.extend hcont.ext
  · rw [hpersister]
    exact hraft.guard

end stratum.raft
