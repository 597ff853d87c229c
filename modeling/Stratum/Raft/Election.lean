import Stratum.Lib.Quorum
import Stratum.Lib.Reach
import Stratum.Kvraft.VoteStep
import Stratum.Raft.Cluster

open stratum.lib stratum.kvraft List

namespace stratum.raft

open Votes

variable {σ : Type}

/-- A ballot whose tally is backed by the ledger: the node's own vote and one vote of each
peer in `granted`, none of which will be asked for again. -/
structure BallotOk (cluster : Cluster) (votes : Votes NodeId) (u : NodeId) (b : Ballot) : Prop where
  candidate : b.req.candidateId = u
  own : votes u b.req.term = some u
  waiting : b.waiting.Nodup
  asked : ∀ p ∈ b.waiting, p ∈ cluster.peers u
  tally : ∃ granted : List NodeId, granted.Nodup ∧ b.votes = granted.length + 1 ∧
    ∀ p ∈ granted, p ∈ cluster.peers u ∧ p ∉ b.waiting ∧ votes p b.req.term = some u

/-- A node agrees with the ledger of votes: its current vote is the one written down, it
voted in no later term, and whatever it counts towards an election was cast for it. -/
structure NodeVotes (cluster : Cluster) (votes : Votes NodeId) (u : NodeId) (nd : Node σ) : Prop where
  me : nd.rf.me = u
  peers : nd.rf.peers = cluster.peers u
  saved : nd.rf.Saved
  current : votes u nd.rf.term = nd.rf.voteFor
  future : ∀ t, nd.rf.term < t → votes u t = none
  electing : ∀ req, nd.electing = some req → req.candidateId = u ∧ votes u req.term = some u
  ballots : ∀ b ∈ nd.ballots, BallotOk cluster votes u b
  leader : nd.rf.state = .leader → votes.Won cluster.members u nd.rf.term

/-- The election invariant: every node agrees with one ledger, and every granted vote on
the wire stands in it. -/
structure ElectionInv (cluster : Cluster) (votes : Votes NodeId) (w : World σ) : Prop where
  nodes : ∀ u ∈ cluster.members, NodeVotes cluster votes u (w.nodes u)
  net : ∀ p req res, Msg.voteResponse p req res ∈ w.net → res.voteGranted = true →
    votes p req.term = some req.candidateId

/-- What one step of a process does to elections. A new leader holds a majority in a
ballot that is either still open or was decided by its own vote alone. -/
structure NodeVoteStep (net : List (Msg σ)) (nd nd' : Node σ) (out : List (Msg σ)) : Prop where
  me : nd'.rf.me = nd.rf.me
  peers : nd'.rf.peers = nd.rf.peers
  saved : nd.rf.Saved → nd'.rf.Saved
  vote : nd.rf.term < nd'.rf.term ∨
    nd'.rf.term = nd.rf.term ∧ (nd.rf.voteFor = none ∨ nd'.rf.voteFor = nd.rf.voteFor)
  granted : ∀ p req res, Msg.voteResponse p req res ∈ out → res.voteGranted = true →
    p = nd.rf.me ∧ req.term = nd'.rf.term ∧ nd'.rf.voteFor = some req.candidateId
  electing : ∀ req, nd'.electing = some req → nd.electing = some req ∨
    req.candidateId = nd.rf.me ∧ req.term = nd'.rf.term ∧ nd'.rf.voteFor = some nd.rf.me
  ballots : ∀ b ∈ nd'.ballots, b ∈ nd.ballots ∨
    (nd.electing = some b.req ∧ b.votes = 1 ∧ b.waiting = nd.rf.peers) ∨
    ∃ b₀ ∈ nd.ballots, ∃ p ∈ b₀.waiting, b.req = b₀.req ∧ b.waiting = b₀.waiting.erase p ∧
      (b.votes = b₀.votes ∨ b.votes = b₀.votes + 1 ∧
        ∃ res, Msg.voteResponse p b₀.req res ∈ net ∧ res.voteGranted = true)
  leader : nd'.rf.state = .leader → nd.rf.state = .leader ∧ nd'.rf.term = nd.rf.term ∨
    ∃ b : Ballot, nd'.rf.term = b.req.term ∧ nd.rf.HasMajority b.votes ∧
      (b ∈ nd'.ballots ∨ nd.electing = some b.req ∧ b.votes = 1 ∧ b.waiting = nd.rf.peers)

variable {cluster : Cluster} {votes : Votes NodeId} {u : NodeId}

lemma Cluster.nodup_peers (cluster : Cluster) (u : NodeId) : (cluster.peers u).Nodup :=
  cluster.nodup.filter _

variable {cluster : Cluster} {b : Ballot} {votes' : Votes NodeId} {nd : Node σ}
  {net out : List (Msg σ)}

lemma Cluster.length_peers {u : NodeId} (hu : u ∈ cluster.members) :
    (cluster.peers u).length + 1 = cluster.members.length := by
  have hfilter : cluster.peers u = cluster.members.erase u := by
    rw [cluster.nodup.erase_eq_filter]
    refine filter_congr fun p _ => ?_
    by_cases hp : p = u <;> simp [hp]
  rw [hfilter, length_erase_of_mem hu]
  have := length_pos_of_mem hu
  omega

lemma Cluster.mem_members_of_mem_peers {u p : NodeId} (hp : p ∈ cluster.peers u) :
    p ∈ cluster.members :=
  mem_of_mem_filter hp

lemma Cluster.not_mem_peers (cluster : Cluster) (u : NodeId) : u ∉ cluster.peers u := by
  simp [Cluster.peers]

lemma BallotOk.won (hok : BallotOk cluster votes u b) (hu : u ∈ cluster.members)
    (hmajority : ((cluster.peers u).length + 1) / 2 < b.votes) :
    votes.Won cluster.members u b.req.term := by
  obtain ⟨granted, hnodup, hvotes, hgranted⟩ := hok.tally
  refine ⟨u :: granted, ⟨?_, ?_, ?_⟩, ?_⟩
  · refine nodup_cons.mpr ⟨fun hmem => ?_, hnodup⟩
    exact cluster.not_mem_peers u (hgranted u hmem).1
  · intro v hv
    rcases mem_cons.mp hv with rfl | hv
    · exact hu
    · exact Cluster.mem_members_of_mem_peers (hgranted v hv).1
  · have hlength := Cluster.length_peers hu
    rw [length_cons]
    omega
  intro v hv
  rcases mem_cons.mp hv with rfl | hv
  · exact hok.own
  · exact (hgranted v hv).2.2

lemma BallotOk.mono (hok : BallotOk cluster votes u b) (hext : Votes.Extends votes' votes) :
    BallotOk cluster votes' u b := by
  obtain ⟨granted, hnodup, hvotes, hgranted⟩ := hok.tally
  refine ⟨hok.candidate, hext _ _ _ hok.own, hok.waiting, hok.asked, granted, hnodup, hvotes, ?_⟩
  intro p hp
  obtain ⟨hpeer, hwaiting, hvoted⟩ := hgranted p hp
  exact ⟨hpeer, hwaiting, hext _ _ _ hvoted⟩

lemma BallotOk.fresh (hown : b.req.candidateId = u ∧ votes u b.req.term = some u)
    (hvotes : b.votes = 1) (hwaiting : b.waiting = cluster.peers u) :
    BallotOk cluster votes u b := by
  refine ⟨hown.1, hown.2, ?_, ?_, [], nodup_nil, by simpa using hvotes, by simp⟩
  · rw [hwaiting]
    exact cluster.nodup_peers u
  · rw [hwaiting]
    exact fun p hp => hp

lemma BallotOk.heard {b' : Ballot} {p : NodeId} (hok : BallotOk cluster votes u b)
    (hp : p ∈ b.waiting) (hreq : b'.req = b.req) (hwaiting : b'.waiting = b.waiting.erase p)
    (hvotes : b'.votes = b.votes ∨ b'.votes = b.votes + 1 ∧ votes p b.req.term = some
      b.req.candidateId) : BallotOk cluster votes u b' := by
  obtain ⟨granted, hnodup, hcount, hgranted⟩ := hok.tally
  have hnotin : p ∉ b'.waiting := by
    rw [hwaiting, hok.waiting.mem_erase_iff]
    simp
  have hold : ∀ q ∈ granted, q ∉ b'.waiting := by
    intro q hq
    rw [hwaiting]
    exact fun hmem => (hgranted q hq).2.1 (mem_of_mem_erase hmem)
  have hasked : ∀ q ∈ b'.waiting, q ∈ cluster.peers u := by
    intro q hq
    rw [hwaiting] at hq
    exact hok.asked q (mem_of_mem_erase hq)
  refine ⟨hreq ▸ hok.candidate, hreq ▸ hok.own, hwaiting ▸ hok.waiting.erase p, hasked, ?_⟩
  rcases hvotes with hsame | ⟨hmore, hvoted⟩
  · refine ⟨granted, hnodup, hsame.trans hcount, fun q hq => ?_⟩
    exact ⟨(hgranted q hq).1, hold q hq, hreq ▸ (hgranted q hq).2.2⟩
  refine ⟨p :: granted, nodup_cons.mpr ⟨fun hmem => (hgranted p hmem).2.1 hp, hnodup⟩, ?_, ?_⟩
  · rw [hmore, hcount, length_cons]
  intro q hq
  rcases mem_cons.mp hq with rfl | hq
  · exact ⟨hok.asked q hp, hnotin, by rw [hreq, hvoted, hok.candidate]⟩
  · exact ⟨(hgranted q hq).1, hold q hq, hreq ▸ (hgranted q hq).2.2⟩

lemma NodeVoteStep.extends {nd' : Node σ} (hnode : NodeVotes cluster votes u nd)
    (hstep : NodeVoteStep net nd nd' out) :
    Votes.Extends (votes.record u nd'.rf.term nd'.rf.voteFor) votes := by
  apply record_extends
  rcases hstep.vote with hlt | ⟨hterm, hnone | hsame⟩
  · exact .inl (hnode.future _ hlt)
  · exact .inl (by rw [hterm, hnode.current, hnone])
  · exact .inr (by rw [hterm, hnode.current, hsame])

lemma NodeVotes.step {nd' : Node σ} (hu : u ∈ cluster.members)
    (hnode : NodeVotes cluster votes u nd) (hstep : NodeVoteStep net nd nd' out)
    (hnet : ∀ p req res, Msg.voteResponse p req res ∈ net → res.voteGranted = true → votes p
      req.term = some req.candidateId) :
    NodeVotes cluster (votes.record u nd'.rf.term nd'.rf.voteFor) u nd' := by
  have hext := hstep.extends hnode
  have hballots : ∀ b ∈ nd'.ballots,
      BallotOk cluster (votes.record u nd'.rf.term nd'.rf.voteFor) u b := by
    intro b hb
    rcases hstep.ballots b hb with hold | ⟨hreq, hvotes, hwaiting⟩ |
      ⟨b₀, hb₀, p, hp, hreq, hwaiting, hvotes⟩
    · exact (hnode.ballots b hold).mono hext
    · have hown := hnode.electing _ hreq
      exact (BallotOk.fresh hown hvotes (hwaiting.trans hnode.peers)).mono hext
    refine ((hnode.ballots b₀ hb₀).heard hp hreq hwaiting ?_).mono hext
    refine hvotes.imp_right fun ⟨hmore, res, hmsg, hgranted⟩ => ⟨hmore, ?_⟩
    exact hnet p _ res hmsg hgranted
  refine ⟨hstep.me.trans hnode.me, hstep.peers.trans hnode.peers, hstep.saved hnode.saved,
    record_self _ _ _, ?_, ?_, hballots, ?_⟩
  · intro t ht
    rw [record_of_ne_term (by omega)]
    apply hnode.future
    rcases hstep.vote with hlt | ⟨hterm, -⟩ <;> omega
  · intro req hreq
    rcases hstep.electing req hreq with hold | ⟨hcandidate, hterm, hvote⟩
    · obtain ⟨hcandidate, hvoted⟩ := hnode.electing req hold
      exact ⟨hcandidate, hext _ _ _ hvoted⟩
    · rw [hnode.me] at hcandidate hvote
      exact ⟨hcandidate, by rw [hterm, record_self, hvote]⟩
  intro hleader
  rcases hstep.leader hleader with ⟨hwas, hterm⟩ | ⟨b, hterm, hmajority, hballot⟩
  · rw [hterm]
    exact (hnode.leader hwas).mono (hterm ▸ hext)
  rw [Raft.HasMajority, hnode.peers] at hmajority
  have hb : BallotOk cluster (votes.record u nd'.rf.term nd'.rf.voteFor) u b := by
    rcases hballot with hopen | ⟨hreq, hvotes, hwaiting⟩
    · exact hballots b hopen
    · have hown := hnode.electing _ hreq
      exact (BallotOk.fresh hown hvotes (hwaiting.trans hnode.peers)).mono hext
  exact hterm ▸ hb.won hu hmajority

lemma NodeVotes.frame (hnode : NodeVotes cluster votes u nd) (hext : Votes.Extends votes' votes)
    (hsame : ∀ t, votes' u t = votes u t) : NodeVotes cluster votes' u nd where
  __ := hnode
  current := (hsame _).trans hnode.current
  future := fun t ht => (hsame t).trans (hnode.future t ht)
  electing := fun req hreq => (hnode.electing req hreq).imp_right (hext _ _ _)
  ballots := fun b hb => (hnode.ballots b hb).mono hext
  leader := fun hleader => (hnode.leader hleader).mono hext

end stratum.raft
