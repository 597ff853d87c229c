import Stratum.Raft.Simulation

open stratum.lib stratum.kvraft Function

namespace stratum.raft

variable {σ : Type} {cluster : Cluster} {h h' : RunHistory} {u : NodeId} {rf rf' : Raft σ}
  {nd nd' : Node σ} {out : List (Msg σ)}

lemma Covered.extend {t k : Nat} (hcov : Covered cluster h t k)
    (hext : History.Extends Entry.term h h') : Covered cluster h' t k :=
  hcov.mono hext le_rfl le_rfl

section

variable (hraft : RaftSim cluster h u rf)

include hraft

lemma RaftSim.frame (hcont : Continues h h') (hterm : h'.term u = h.term u)
    (hlog : h'.log u = h.log u)
    (hleader : rf.state = .leader → h'.leaderLog rf.term = h.leaderLog rf.term) :
    RaftSim cluster h' u rf where
  term := hterm.trans hraft.term
  log := hlog ▸ hraft.log
  leader := fun hstate => by
    obtain ⟨hlead, hacked⟩ := hraft.leader hstate
    rw [hlog, hleader hstate]
    exact ⟨hlead, le_trans hacked (hcont.ext.acked_le _ _)⟩
  matched := fun hstate p hp => by
    obtain ⟨n, hn, hok⟩ := hraft.matched hstate p hp
    exact ⟨n, hn, hok.imp (fun ha => le_trans ha (hcont.ext.acked_le _ _))
      fun hcov => hcov.extend hcont.ext⟩
  candidate := fun hstate => by
    rw [hlog, hcont.standing u rf.term (le_of_eq hraft.term.symm)]
    refine (hraft.candidate hstate).imp_right (Or.imp_right fun ⟨l, k, hcommitted, hk⟩ => ?_)
    exact ⟨l, k, hcommitted.extend hcont.ext, hk⟩
  __ := hraft
  applied := hraft.applied.extend hcont.ext
  committed := hraft.committed.extend hcont.ext
  ready := fun hready => hlog ▸ (hraft.ready hready).extend hcont.ext
  saved := hraft.saved.extend hcont.ext

lemma RaftSim.follower (hcont : Continues h h') (hterm : h'.term u = rf'.term)
    (hle : rf.term ≤ rf'.term) (hlog : h'.log u = h.log u) (hstate : rf'.state = .follower)
    (hlog' : rf'.log = rf.log) (hcommit : rf'.lastCommitIndex = rf.lastCommitIndex)
    (happlied : rf'.lastApplied = rf.lastApplied)
    (hsaved : rf'.persister.lastIndex = rf.persister.lastIndex)
    (hguard : rf'.persister.snapshotIndex = rf.persister.snapshotIndex) :
    RaftSim cluster h' u rf' where
  term := hterm
  log := by
    rw [hlog, hlog']
    exact hraft.log
  leader := fun hleader => by rw [hstate] at hleader; cases hleader
  matched := fun hleader => by rw [hstate] at hleader; cases hleader
  candidate := fun hcandidate => by rw [hstate] at hcandidate; cases hcandidate
  baseApplied := by
    rw [hlog', happlied]
    exact hraft.baseApplied
  applied := happlied ▸ hraft.applied.mono hcont.ext hle le_rfl
  committed := hcommit ▸ hraft.committed.mono hcont.ext hle le_rfl
  ready := fun hready => by
    rw [happlied, hcommit] at hready
    rw [hlog, hcommit]
    exact ((hraft.ready hready).extend hcont.ext).mono hle le_rfl
  baseSaved := by
    rw [hlog', hsaved]
    exact hraft.baseSaved
  saved := hsaved ▸ hraft.saved.mono hcont.ext hle le_rfl
  guard := by
    rw [hguard, hsaved]
    exact hraft.guard

/-- Fields the history does not speak about may change freely. -/
lemma RaftSim.congr (hterm : rf'.term = rf.term) (hlog : rf'.log = rf.log)
    (hstate : rf'.state = rf.state) (hpeers : rf'.peers = rf.peers)
    (hmatch : rf'.matchIndex = rf.matchIndex) (hcommit : rf'.lastCommitIndex = rf.lastCommitIndex)
    (happlied : rf'.lastApplied = rf.lastApplied)
    (hsaved : rf'.persister.lastIndex = rf.persister.lastIndex)
    (hguard : rf'.persister.snapshotIndex = rf.persister.snapshotIndex) :
    RaftSim cluster h u rf' where
  term := hterm ▸ hraft.term
  log := hlog ▸ hraft.log
  leader := by
    rw [hstate, hterm]
    exact hraft.leader
  matched := by
    rw [hstate, hterm, hpeers, hmatch]
    exact hraft.matched
  candidate := by
    rw [hstate, hterm]
    exact hraft.candidate
  baseApplied := by
    rw [hlog, happlied]
    exact hraft.baseApplied
  applied := by
    rw [hterm, happlied]
    exact hraft.applied
  committed := by
    rw [hterm, hcommit]
    exact hraft.committed
  ready := by
    rw [hterm, happlied, hcommit]
    exact hraft.ready
  baseSaved := by
    rw [hlog, hsaved]
    exact hraft.baseSaved
  saved := by
    rw [hterm, hsaved]
    exact hraft.saved
  guard := by
    rw [hguard, hsaved]
    exact hraft.guard

end

lemma ItemsSim.frame (hitems : ItemsSim cluster h nd) (rf' : Raft σ) (hcont : Continues h h')
    (hterm : nd.rf.term ≤ rf'.term) (happlied : nd.rf.lastApplied ≤ rf'.lastApplied)
    (hsaved : nd.rf.persister.lastIndex ≤ rf'.persister.lastIndex) :
    ItemsSim cluster h' { nd with rf := rf' } where
  electing := fun req hreq => (hitems.electing req hreq).mono hcont
  calls := fun c hc => (hitems.calls c hc).mono hcont.ext
  transfers := fun t ht => (hitems.transfers t ht).mono hcont.ext hterm
  installs := fun inst hinst => (hitems.installs inst hinst).mono hcont.ext hterm
  applyCh := fun msg hmsg => (hitems.applyCh msg hmsg).mono hcont.ext hterm happlied
  applyPc := hitems.applyPc.mono hcont.ext happlied
  installing := fun i t hi => by
    obtain ⟨hok, hle⟩ := hitems.installing i t hi
    exact ⟨hok.mono hcont.ext hterm, le_trans hle hsaved⟩
  jobs := fun job hjob => (hitems.jobs job hjob).mono happlied hsaved
  history := fun e he => (hitems.history e he).mono hcont.ext

variable [DecidableEq σ] {machine : StateMachine σ} {w : World σ} {act : Action σ}

/-- A step that is matched on the history leads to a cluster that follows it. -/
lemma Sim.step (hsim : Sim cluster h w) (hu : u ∈ cluster.members)
    (hstep : (w.nodes u).step machine cluster w.net act = some (nd', out))
    (hmatch : StepSim cluster h h' u (w.nodes u) nd' out) :
    Sim cluster h' { nodes := update w.nodes u nd', net := w.net ++ out } := by
  have helection : ElectionInv cluster h'.votes
      { nodes := update w.nodes u nd', net := w.net ++ out } := by
    rw [hmatch.votes]
    exact hsim.election.step hu hstep
  have hself : NodeVotes cluster h'.votes u nd' := by simpa using helection.nodes u hu
  have hold := hsim.election.nodes u hu
  have hvotes := Node.step_voteStep hold.saved (by rw [hold.peers, hold.me]) hstep
  have hvotesExt : Votes.Extends h'.votes h.votes := by
    rw [hmatch.votes]
    exact hvotes.extends hold
  have hterm : (w.nodes u).rf.term ≤ nd'.rf.term := by
    obtain hlt | ⟨heq, -⟩ := hvotes.vote <;> omega
  have hwonOf : ∀ t, nd'.rf.state = .leader → t = nd'.rf.term → h'.votes.Won cluster.members u t := by
    intro t hstate ht
    rw [ht]
    exact hself.leader hstate
  refine ⟨helection, hmatch.inv, ?_, hmatch.index, ?_, ?_, ?_⟩
  · intro t m hm
    obtain hsame | ⟨rfl, hstate⟩ := hmatch.leaders t
    · rw [hsame] at hm
      obtain ⟨c, hc, hwon, hpast, hnot⟩ := hsim.won t m hm
      refine ⟨c, hc, hwon.mono hvotesExt, ?_⟩
      by_cases hcu : c = u
      · subst hcu
        simp only [update_self]
        refine ⟨by omega, fun ⟨hcand, hnow⟩ => ?_⟩
        obtain ⟨hwas, hkept⟩ | hlater := hmatch.past hcand
        · exact hnot ⟨hwas, by omega⟩
        · omega
      · simpa only [update_of_ne hcu] using ⟨hpast, hnot⟩
    · refine ⟨u, hu, hwonOf _ hstate rfl, ?_⟩
      simp only [update_self]
      refine ⟨le_rfl, fun ⟨hcand, _⟩ => ?_⟩
      rw [hstate] at hcand
      cases hcand
  · intro v hv
    by_cases hvu : v = u
    · subst hvu
      simpa only [update_self] using hmatch.node
    simp only [update_of_ne hvu]
    obtain ⟨hterm, hlog⟩ := hmatch.others v hvu
    refine (hsim.nodes v hv).frame hmatch.cont hterm hlog fun hstate => ?_
    obtain hsame | ⟨hterm, hlead⟩ := hmatch.leaders (w.nodes v).rf.term
    · exact hsame
    have hother := helection.nodes v hv
    simp only [update_of_ne hvu] at hother
    exact absurd ((hother.leader hstate).unique (hwonOf _ hlead hterm)) hvu
  · intro v hv
    by_cases hvu : v = u
    · subst hvu
      simpa only [update_self] using hmatch.items
    · simp only [update_of_ne hvu]
      exact (hsim.items v hv).frame _ hmatch.cont le_rfl le_rfl le_rfl
  · intro msg hmsg
    obtain hmsg | hmsg := List.mem_append.mp hmsg
    · exact (hsim.net msg hmsg).mono hmatch.cont
    · exact hmatch.net msg hmsg

end stratum.raft
