import Stratum.Raft.SimElection

open stratum.lib stratum.kvraft

namespace stratum.raft

open Raft History

variable {σ : Type} {machine : StateMachine σ} {cluster : Cluster} {h : RunHistory} {u : NodeId}
  {w : World σ} {nd' : Node σ} {out : List (Msg σ)}

lemma leadHistory_leaders (e : Entry) (t : Nat) :
    (leadHistory h u e).leaderLog t = h.leaderLog t ∨ t = h.term u := by
  by_cases ht : t = h.term u
  · exact .inr ht
  · exact .inl (by simp [leadHistory, setLog, setLeaderLog, ht])

/-- A step in which the process ends up leading its term and appends an entry. -/
lemma StepSim.lead (rf₀ : Raft σ) (data : Bytes) (hsim : Sim cluster h w)
    (hu : u ∈ cluster.members) {e : Entry}
    (hgrow : (h.setLeaderLog (h.term u) (h.log u ++ [e])).Inv Entry.term cluster.members ∧
      History.Extends Entry.term h (h.setLeaderLog (h.term u) (h.log u ++ [e])))
    (hrf₀ : rf₀ = { (w.nodes u).rf with
      state := .leader
      leaderID := rf₀.leaderID
      nextIndex := rf₀.nextIndex
      matchIndex := rf₀.matchIndex
      snapshotPending := rf₀.snapshotPending })
    (hmatched : ∀ p ∈ rf₀.peers, ∃ n, rf₀.matchIndex p = some n ∧
      (n ≤ h.acked p (w.nodes u).rf.term ∨ Covered cluster h (w.nodes u).rf.term n))
    (he : e = { term := (w.nodes u).rf.term, index := (h.log u).length + 1, data })
    (hnd' : nd'.rf = rf₀.appendEntryLocked data)
    (hitems : Continues h (leadHistory h u e) → ItemsSim cluster (leadHistory h u e) nd') :
    StepSim cluster h (leadHistory h u e) u (w.nodes u) nd' [] := by
  have hraft := hsim.nodes u hu
  have hold := hsim.election.nodes u hu
  have hinv := leadHistory_inv hgrow.1
  have hcont : Continues h (leadHistory h u e) :=
    ⟨hgrow.2.trans (setLog_extends (le_max_left _ _)), fun _ _ _ => rfl⟩
  have hterm : nd'.rf.term = (w.nodes u).rf.term := by rw [hnd', hrf₀]; rfl
  have hvote : nd'.rf.voteFor = (w.nodes u).rf.voteFor := by rw [hnd', hrf₀]; rfl
  have hstate : nd'.rf.state = .leader := by rw [hnd', hrf₀]; rfl
  refine ⟨hcont, hinv, ?_, ?_, ?_, ?_, ?_, ?_, hitems hcont, ?_⟩
  · rw [hterm, hvote]
    exact (Votes.record_eq_self hold.current).symm
  · intro v hv
    simp [leadHistory, setLog, setLeaderLog, hv]
  · intro t
    refine (leadHistory_leaders e t).imp_right fun ht => ⟨?_, hstate⟩
    rw [ht, hterm, hraft.term]
  · intro t m hm
    by_cases ht : t = h.term u
    · subst ht
      rw [leadHistory_leaderLog] at hm
      cases hm
      exact (hraft.log.push (by rw [he])).index
    · rw [(leadHistory_leaders e t).resolve_right ht] at hm
      exact hsim.index t m hm
  · intro hcandidate
    rw [hstate] at hcandidate
    cases hcandidate
  · rw [hnd']
    refine RaftSim.lead hu hraft hcont hinv ?_ ?_ ?_ ?_ ?_ ?_ ?_ hmatched he
    · rw [hrf₀]
      exact hold.peers
    all_goals rw [hrf₀]
  · intro msg hmsg
    cases hmsg

section

variable (hsim : Sim cluster h w) (hu : u ∈ cluster.members)

include hsim hu

lemma propose_sim [DecidableEq σ] {data : Bytes}
    (hstep : (w.nodes u).step machine cluster w.net (.propose data) = some (nd', out)) :
    ∃ h', StepSim cluster h h' u (w.nodes u) nd' out := by
  cases Node.stepped hstep with
  | propose hleader =>
  have hraft := hsim.nodes u hu
  obtain ⟨hlead, -⟩ := hraft.leader hleader
  have hgrow := hsim.inv.growLeader (e := ⟨(h.log u).length + 1, (w.nodes u).rf.term, data⟩)
    (hraft.term ▸ hlead) hraft.term.symm
  refine ⟨_, .lead (w.nodes u).rf data hsim hu hgrow ?_ (hraft.matched hleader) rfl rfl fun hcont => ?_⟩
  · rw [← hleader]
  · exact (hsim.items u hu).frame _ hcont le_rfl le_rfl le_rfl

section

variable (hcandidate : (w.nodes u).rf.state = .candidate)
  (hwon : h.votes.Won cluster.members u (w.nodes u).rf.term)

include hcandidate hwon

/-- A candidate that has won its term has no leader before it there, and its log is the
one it stood with: a committed log that outgrew that one would have to be in it. -/
lemma Sim.newLeader {e : Entry} (he : e.term = (w.nodes u).rf.term) :
    (h.setLeaderLog (h.term u) (h.log u ++ [e])).Inv Entry.term cluster.members ∧
      History.Extends Entry.term h (h.setLeaderLog (h.term u) (h.log u ++ [e])) := by
  have hraft := hsim.nodes u hu
  have hfirst : h.leaderLog (w.nodes u).rf.term = none := by
    cases hm : h.leaderLog (w.nodes u).rf.term with
    | none => rfl
    | some m =>
      obtain ⟨c, -, hwon', -, hnot⟩ := hsim.won _ m hm
      obtain rfl := hwon'.unique hwon
      exact absurd ⟨hcandidate, rfl⟩ hnot
  obtain ⟨hpos, hlog⟩ := hraft.candidate hcandidate
  have hgrow := hsim.inv.newLeader hpos hfirst hwon he
  obtain hsame | ⟨l, k, ⟨c, n, mc, hchosen, hct, hkn, -⟩, hk⟩ := hlog
  · rw [hraft.term, hsame]
    exact hgrow
  have hne : c ≠ (w.nodes u).rf.term := by
    rintro rfl
    rw [hchosen.leader] at hfirst
    cases hfirst
  obtain ⟨x, hchosen⟩ := hchosen.mono hgrow.2
  have hlead : (h.setLeaderLog (w.nodes u).rf.term
      (h.standing u (w.nodes u).rf.term ++ [e])).leaderLog (w.nodes u).rf.term =
      some (h.standing u (w.nodes u).rf.term ++ [e]) := by
    simp [setLeaderLog]
  have hshare := hchosen.share_leader hgrow.1 (by omega) hlead
  have hentry := hshare.2 (h.standing u (w.nodes u).rf.term).length (by omega)
  rw [List.getElem?_append_right (Nat.le_refl _), Nat.sub_self] at hentry
  have hle := hgrow.1.leader_le hchosen.leader hentry.symm
  omega

lemma becomeLeader_sim (hnd' : nd'.rf = (w.nodes u).rf.becomeLeaderLocked)
    (hitems : ∀ h', Continues h h' → ItemsSim cluster h' nd') :
    ∃ h', StepSim cluster h h' u (w.nodes u) nd' [] := by
  have hgrow := hsim.newLeader hu hcandidate hwon
    (e := ⟨(h.log u).length + 1, (w.nodes u).rf.term, []⟩) rfl
  refine ⟨_, .lead _ [] hsim hu hgrow ?_ ?_ rfl hnd' (hitems _)⟩
  · rfl
  · intro p hp
    exact ⟨0, by simp only [if_pos hp], .inl (Nat.zero_le _)⟩

end

lemma startElection_sim [DecidableEq σ]
    (hstep : (w.nodes u).step machine cluster w.net .startElection = some (nd', out)) :
    ∃ h', StepSim cluster h h' u (w.nodes u) nd' out := by
  cases Node.stepped hstep
  have hraft := hsim.nodes u hu
  have hold := hsim.election.nodes u hu
  have hlt : h.term u < (w.nodes u).rf.term + 1 := by
    rw [hraft.term]
    omega
  have hcont : Continues h (h.stand u ((w.nodes u).rf.term + 1)) := by
    refine ⟨stand_extends (le_of_lt hlt), fun c t ht => ?_⟩
    by_cases hc : c = u
    · subst hc
      simp [stand, show t ≠ (w.nodes c).rf.term + 1 by omega]
    · simp [stand, hc]
  have hterm : (h.stand u ((w.nodes u).rf.term + 1)).term u = (w.nodes u).rf.term + 1 := by
    simp [stand]
  have hstanding : (h.stand u ((w.nodes u).rf.term + 1)).standing u ((w.nodes u).rf.term + 1) =
      h.log u := by
    simp [stand]
  have hle : (w.nodes u).rf.term ≤ (w.nodes u).rf.term + 1 := Nat.le_succ _
  refine ⟨h.stand u ((w.nodes u).rf.term + 1), hcont, hsim.inv.stand hlt, ?_, ?_,
    fun _ => .inl rfl, hsim.index, fun _ => .inr (Nat.lt_succ_self _), ?_, ?_, ?_⟩
  · simp only [stand, startElection, persist, hold.me]
  · intro v hv
    simp [stand, hv]
  · refine ⟨hterm, hraft.log, fun hleader => ?_, fun hleader => ?_,
      fun _ => ⟨Nat.succ_pos _, .inl hstanding.symm⟩, hraft.baseApplied,
      hraft.applied.mono hcont.ext hle le_rfl,
      hraft.committed.mono hcont.ext hle le_rfl,
      fun hready => ((hraft.ready hready).extend hcont.ext).mono hle le_rfl,
      hraft.baseSaved, hraft.saved.mono hcont.ext hle le_rfl, hraft.guard⟩
    all_goals cases hleader
  · have hframe := (hsim.items u hu).frame (w.nodes u).rf.startElection.1 hcont hle le_rfl le_rfl
    refine { hframe with electing := fun req hreq => ?_ }
    cases hreq
    simp only [RequestOk, startElection, persist, hold.me, hstanding, hterm]
    exact ⟨le_rfl, hraft.log.lastLogIndex, hraft.log.lastLogTerm⟩
  · intro msg hmsg
    cases hmsg

/-- A vote by a node of the request's term whose log is no newer than the candidate's. -/
lemma castVote_sim {req : RequestVoteRequest} {rf₁ : Raft σ} (hreq : RequestOk h req)
    (hrf₁ : rf₁ = (w.nodes u).rf ∧ (w.nodes u).rf.term = req.term ∨
      (w.nodes u).rf.term < req.term ∧ rf₁ = (w.nodes u).rf.stepDown req.term)
    (hlogOK : rf₁.LogOK req) (hnet : ∀ msg ∈ out, ∀ h' : RunHistory, MsgOk cluster h' msg) :
    ∃ h', StepSim cluster h h' u (w.nodes u)
      { w.nodes u with rf := persist { rf₁ with voteFor := some req.candidateId } } out := by
  have hraft := hsim.nodes u hu
  have hle : (w.nodes u).rf.term ≤ req.term := by
    obtain ⟨-, heq⟩ | ⟨hlt, -⟩ := hrf₁ <;> omega
  have hle' : h.term u ≤ req.term := by rw [hraft.term]; exact hle
  have hcont₁ : Continues h (h.setTerm u req.term) := .setTerm hle'
  have hterm : (h.setTerm u req.term).term u = req.term := setTerm_term_self _
  have hlog : rf₁.log = (w.nodes u).rf.log := by
    obtain ⟨rfl, -⟩ | ⟨-, rfl⟩ := hrf₁ <;> rfl
  have hrfTerm : rf₁.term = req.term := by
    obtain ⟨rfl, heq⟩ | ⟨-, rfl⟩ := hrf₁
    · exact heq
    · rfl
  have hnewer : History.UpToDate Entry.term ((h.setTerm u req.term).standing req.candidateId req.term)
      ((h.setTerm u req.term).log u) := by
    have hlogOK' := hlogOK
    rw [Raft.LogOK, hlog, hraft.log.lastLogTerm, hraft.log.lastLogIndex, hreq.2.1, hreq.2.2] at hlogOK'
    exact hlogOK'
  have hinv := (hsim.inv.setTerm hle').vote (v := u) (c := req.candidateId)
    (by rw [hterm]; exact le_trans hreq.1 (hcont₁.ext.term _)) (by rw [hterm]; exact hnewer)
  have hcont : Continues h ((h.setTerm u req.term).vote u req.candidateId) :=
    ⟨hcont₁.ext.trans vote_extends, fun _ _ _ => rfl⟩
  refine ⟨_, hcont, hinv, ?_, ?_, fun _ => .inl rfl, hsim.index, ?_, ?_, ?_, ?_⟩
  · simp only [vote, hterm, hrfTerm]
    rfl
  · intro v hv
    simp [vote, setTerm, hv]
  · intro hcandidate
    obtain ⟨rfl, -⟩ | ⟨-, rfl⟩ := hrf₁
    · exact .inl ⟨hcandidate, rfl⟩
    · cases hcandidate
  · obtain ⟨rfl, heq⟩ | ⟨hlt, rfl⟩ := hrf₁
    · have hframe := hraft.frame hcont (hterm.trans (heq.symm.trans hraft.term.symm)) rfl fun _ => rfl
      exact hframe.congr rfl rfl rfl rfl rfl rfl rfl rfl rfl
    · exact hraft.follower hcont hterm (le_of_lt hlt) rfl rfl rfl rfl rfl rfl rfl
  · refine (hsim.items u hu).frame _ hcont ?_ ?_ ?_
    · exact hrfTerm ▸ hle
    all_goals obtain ⟨rfl, -⟩ | ⟨-, rfl⟩ := hrf₁ <;> exact le_rfl
  · exact fun msg hmsg => hnet msg hmsg _

lemma sendVoteRequest_sim [DecidableEq σ]
    (hstep : (w.nodes u).step machine cluster w.net .sendVoteRequest = some (nd', out)) :
    ∃ h', StepSim cluster h h' u (w.nodes u) nd' out := by
  have hold := hsim.election.nodes u hu
  have hitems := hsim.items u hu
  cases Node.stepped hstep with
  | @elected req hreq hcandidate hterm hmajority =>
    have hwon : h.votes.Won cluster.members u (w.nodes u).rf.term := by
      rw [hterm]
      refine (BallotOk.fresh (b := ⟨req, 1, cluster.peers u⟩) (hold.electing req hreq) rfl rfl).won hu ?_
      rw [Raft.HasMajority, hold.peers] at hmajority
      exact hmajority
    refine becomeLeader_sim hsim hu hcandidate hwon rfl fun h' hcont => ?_
    have hframe := hitems.frame (w.nodes u).rf.becomeLeaderLocked hcont le_rfl le_rfl le_rfl
    exact { hframe with electing := by intro req hreq; cases hreq }
  | sendVoteRequest hreq =>
    refine ⟨h, .same hsim hu rfl rfl rfl (hsim.nodes u hu) ?_ fun msg hmsg => ?_⟩
    · exact { hitems with electing := by intro req hreq; cases hreq }
    · obtain ⟨p, -, rfl⟩ := List.mem_map.mp hmsg
      exact hitems.electing _ hreq

end

variable [DecidableEq σ]

lemma requestVote_sim (hsim : Sim cluster h w) (hu : u ∈ cluster.members) {req : RequestVoteRequest}
    (hstep : (w.nodes u).step machine cluster w.net (.requestVote req) = some (nd', out)) :
    ∃ h', StepSim cluster h h' u (w.nodes u) nd' out := by
  cases Node.stepped hstep with
  | @requestVote _ rf' res hmsg hvote =>
  have hnet : ∀ msg ∈ [Msg.voteResponse (w.nodes u).rf.me req res], ∀ h' : RunHistory,
      MsgOk (σ := σ) cluster h' msg := by
    intro msg hmem h'
    rw [List.mem_singleton] at hmem
    subst hmem
    trivial
  obtain ⟨-, rfl | ⟨hlt, rfl⟩⟩ | ⟨-, rf₁, hrf₁, -, hlog, rfl⟩ := requestVote_spec hvote
  · exact ⟨h, .same hsim hu rfl rfl rfl (hsim.nodes u hu) (hsim.items u hu) fun m hm => hnet m hm h⟩
  · exact ⟨_, .stepDown hsim hu hlt fun m hm => hnet m hm _⟩
  · exact castVote_sim hsim hu (hsim.net _ hmsg) hrf₁ hlog hnet

lemma voteResponse_sim (hsim : Sim cluster h w) (hu : u ∈ cluster.members) {b : Ballot}
    {p : NodeId} {res : RequestVoteResponse}
    (hstep : (w.nodes u).step machine cluster w.net (.voteResponse b p res) = some (nd', out)) :
    ∃ h', StepSim cluster h h' u (w.nodes u) nd' out := by
  cases Node.stepped hstep with
  | @voteResponse _ _ _ rf' votes hb hp hmsg hvote =>
  have hold := hsim.election.nodes u hu
  have hitems := hsim.items u hu
  have hraft := hsim.nodes u hu
  have hsame : rf' = (w.nodes u).rf → ∃ h', StepSim cluster h h' u (w.nodes u)
      { w.nodes u with
        rf := rf'
        ballots := { b with votes, waiting := b.waiting.erase p } :: (w.nodes u).ballots.erase b } [] := by
    rintro rfl
    exact ⟨h, .same hsim hu rfl rfl rfl hraft { hitems with } nofun⟩
  obtain ⟨-, hrf' | ⟨hlt, rfl⟩⟩ | ⟨rfl, hyes, hcandidate, hterm, hrf' | ⟨hmajority, rfl⟩⟩ :=
    voteResponse_spec hvote
  · exact hsame hrf'
  · have hle : h.term u ≤ res.term := by
      rw [hraft.term]
      omega
    refine ⟨_, .later hsim hu hlt rfl rfl rfl (.stepDown hsim hu hlt) ?_ nofun⟩
    have hframe := hitems.frame ((w.nodes u).rf.stepDown res.term) (.setTerm hle) (le_of_lt hlt)
      le_rfl le_rfl
    exact { hframe with }
  · exact hsame hrf'
  have hballot : BallotOk cluster h.votes u { b with
      votes := b.votes + 1, waiting := b.waiting.erase p } := by
    refine (hold.ballots b hb).heard hp rfl rfl (.inr ⟨rfl, ?_⟩)
    exact hsim.election.net p b.req res hmsg hyes
  have hwon : h.votes.Won cluster.members u (w.nodes u).rf.term := by
    rw [hterm]
    refine hballot.won hu ?_
    rw [Raft.HasMajority, hold.peers] at hmajority
    exact hmajority
  refine becomeLeader_sim hsim hu hcandidate hwon rfl fun h' hcont => ?_
  have hframe := hitems.frame (w.nodes u).rf.becomeLeaderLocked hcont le_rfl le_rfl le_rfl
  exact { hframe with }

end stratum.raft
