import Stratum.Raft.Election
import Stratum.Raft.Steps

open stratum.lib stratum.kvraft List

namespace stratum.raft

open Raft Node World

variable {σ : Type} {cluster : Cluster} {machine : StateMachine σ} {net out : List (Msg σ)}
  {nd nd' : Node σ}

lemma NodeVoteStep.of_voteStep (hrf : Raft.VoteStep nd.rf nd'.rf)
    (helecting : nd'.electing = nd.electing) (hballots : nd'.ballots = nd.ballots)
    (hout : ∀ p req res, Msg.voteResponse p req res ∉ out) : NodeVoteStep net nd nd' out where
  __ := hrf
  granted := fun p req res hmsg => absurd hmsg (hout p req res)
  electing := fun _ hreq => .inl (helecting ▸ hreq)
  ballots := fun _ hb => .inl (hballots ▸ hb)
  leader := fun hleader => .inl (hrf.leader hleader)

lemma restart_voteStep {rf : Raft σ} (hme : rf.me = nd.rf.me)
    (hvote : nd.rf.term < rf.term ∨
      rf.term = nd.rf.term ∧ (nd.rf.voteFor = none ∨ rf.voteFor = nd.rf.voteFor))
    (hsaved : rf.Saved) (hpeers : nd.rf.peers = cluster.peers nd.rf.me) :
    NodeVoteStep net nd (restart machine cluster { nd with rf }) [] := by
  have hload : rf.persister.loadState = { term := rf.term, voteFor := rf.voteFor, log := rf.log } :=
    hsaved
  refine ⟨hme, ?_, fun _ => ?_, ?_, ?_, ?_, ?_, ?_⟩
  · rw [hpeers, ← hme]
    rfl
  · rfl
  · simpa only [restart, boot, newRaft, hload] using hvote
  · exact nofun
  · exact nofun
  · exact nofun
  · intro hleader
    cases hleader

lemma becomeLeaderLocked_fields (rf : Raft σ) :
    rf.becomeLeaderLocked.me = rf.me ∧ rf.becomeLeaderLocked.peers = rf.peers ∧
      rf.becomeLeaderLocked.term = rf.term ∧ rf.becomeLeaderLocked.voteFor = rf.voteFor ∧
      rf.becomeLeaderLocked.Saved :=
  ⟨rfl, rfl, rfl, rfl, rfl⟩

lemma requestVote_voteStep {req : RequestVoteRequest} {rf' : Raft σ}
    {res : RequestVoteResponse} (hvote : nd.rf.requestVote req = (rf', res)) :
    NodeVoteStep net nd { nd with rf := rf' } [.voteResponse nd.rf.me req res] := by
  rcases requestVote_spec hvote with ⟨hrefused, hrf'⟩ | ⟨hgranted, rf₁, hrf₁, hfree, -, rfl⟩
  · have hrf : Raft.VoteStep nd.rf rf' := by
      rcases hrf' with rfl | ⟨hlt, rfl⟩
      · exact .refl _
      · exact stepDown_voteStep hlt
    refine ⟨hrf.me, hrf.peers, hrf.saved, hrf.vote, ?_, fun r hr => .inl hr,
      fun b hb => .inl hb, fun hleader => .inl (hrf.leader hleader)⟩
    intro p r res' hmsg hyes
    simp only [mem_singleton, Msg.voteResponse.injEq] at hmsg
    rw [hmsg.2.2, hrefused] at hyes
    cases hyes
  have hrf : Raft.VoteStep nd.rf rf₁ ∧ rf₁.term = req.term := by
    rcases hrf₁ with ⟨rfl, hterm⟩ | ⟨hlt, rfl⟩
    · exact ⟨.refl _, hterm⟩
    · exact ⟨stepDown_voteStep hlt, rfl⟩
  have hcast : Raft.VoteStep rf₁ (persist { rf₁ with voteFor := some req.candidateId }) := by
    refine ⟨rfl, rfl, fun _ => rfl, .inr ⟨rfl, ?_⟩, fun h => ⟨h, rfl⟩⟩
    exact hfree.imp_right Eq.symm
  have hboth := hrf.1.trans hcast
  refine ⟨hboth.me, hboth.peers, hboth.saved, hboth.vote, ?_, fun r hr => .inl hr,
    fun b hb => .inl hb, fun hleader => .inl (hboth.leader hleader)⟩
  intro p r res' hmsg _
  simp only [mem_singleton] at hmsg
  obtain ⟨rfl, rfl, -⟩ := hmsg
  exact ⟨rfl, hrf.2.symm, rfl⟩

lemma voteResponse_voteStep {b : Ballot} {p : NodeId} {res : RequestVoteResponse}
    {rf' : Raft σ} {votes : Nat} (hb : b ∈ nd.ballots) (hp : p ∈ b.waiting)
    (hmsg : .voteResponse p b.req res ∈ net)
    (hvote : nd.rf.voteResponse b.req b.votes res = (rf', votes)) :
    NodeVoteStep net nd { nd with
      rf := rf'
      ballots := { b with votes, waiting := b.waiting.erase p } :: nd.ballots.erase b } [] := by
  have hballots : (votes = b.votes ∨ votes = b.votes + 1 ∧ res.voteGranted = true) →
      ∀ b' ∈ ({ b with votes, waiting := b.waiting.erase p } : Ballot) :: nd.ballots.erase b,
        b' ∈ nd.ballots ∨ (nd.electing = some b'.req ∧ b'.votes = 1 ∧ b'.waiting = nd.rf.peers) ∨
          ∃ b₀ ∈ nd.ballots, ∃ p ∈ b₀.waiting, b'.req = b₀.req ∧
            b'.waiting = b₀.waiting.erase p ∧ (b'.votes = b₀.votes ∨ b'.votes = b₀.votes + 1 ∧
              ∃ res, Msg.voteResponse p b₀.req res ∈ net ∧ res.voteGranted = true) := by
    intro hvotes b' hb'
    rcases mem_cons.mp hb' with rfl | hb'
    · exact .inr (.inr ⟨b, hb, p, hp, rfl, rfl,
        hvotes.imp_right fun ⟨hmore, hyes⟩ => ⟨hmore, res, hmsg, hyes⟩⟩)
    · exact .inl (mem_of_mem_erase hb')
  have hkeep : Raft.VoteStep nd.rf rf' →
      (votes = b.votes ∨ votes = b.votes + 1 ∧ res.voteGranted = true) →
      NodeVoteStep net nd { nd with
        rf := rf'
        ballots := { b with votes, waiting := b.waiting.erase p } :: nd.ballots.erase b } [] := by
    intro hrf hvotes
    exact ⟨hrf.me, hrf.peers, hrf.saved, hrf.vote, fun _ _ _ hmem => (nomatch hmem),
      fun r hr => .inl hr, hballots hvotes, fun hleader => .inl (hrf.leader hleader)⟩
  rcases voteResponse_spec hvote with ⟨hvotes, hrf'⟩ |
    ⟨hvotes, hyes, -, hterm, rfl | ⟨hmajority, rfl⟩⟩
  · refine hkeep ?_ (.inl hvotes)
    rcases hrf' with rfl | ⟨hlt, rfl⟩
    · exact .refl _
    · exact stepDown_voteStep hlt
  · exact hkeep (.refl _) (.inr ⟨hvotes, hyes⟩)
  obtain ⟨hme, hpeers, hsame, hvote, hsaved⟩ := becomeLeaderLocked_fields nd.rf
  exact ⟨hme, hpeers, fun _ => hsaved, .inr ⟨hsame, .inr hvote⟩, fun _ _ _ hmem => (nomatch hmem),
    fun r hr => .inl hr, hballots (.inr ⟨hvotes, hyes⟩),
    fun _ => .inr ⟨{ b with votes, waiting := b.waiting.erase p }, hsame.trans hterm, hmajority,
      .inl mem_cons_self⟩⟩

variable [DecidableEq σ]

lemma Node.step_voteStep {act : Action σ} (hsaved : nd.rf.Saved)
    (hpeers : nd.rf.peers = cluster.peers nd.rf.me)
    (hstep : nd.step machine cluster net act = some (nd', out)) : NodeVoteStep net nd nd' out := by
  cases stepped hstep with
  | startElection =>
    refine ⟨rfl, rfl, fun _ => rfl, .inl (Nat.lt_succ_self _), ?_, ?_, fun b hb => .inl hb, ?_⟩
    · exact nofun
    · intro req hreq
      cases hreq
      exact .inr ⟨rfl, rfl, rfl⟩
    · exact nofun
  | @elected req hreq _ hcurrent hmajority =>
    obtain ⟨hme, hpeers, hterm, hvote, hsaved⟩ := becomeLeaderLocked_fields nd.rf
    refine ⟨hme, hpeers, fun _ => hsaved, .inr ⟨hterm, .inr hvote⟩, ?_, ?_, fun b hb => .inl hb, ?_⟩
    · exact nofun
    · intro req hreq
      cases hreq
    intro _
    exact .inr ⟨{ req, votes := 1, waiting := nd.rf.peers }, hterm.trans hcurrent, hmajority,
      .inr ⟨hreq, rfl, rfl⟩⟩
  | sendVoteRequest hreq =>
    refine ⟨rfl, rfl, id, .inr ⟨rfl, .inr rfl⟩, ?_, ?_, ?_, fun h => .inl ⟨h, rfl⟩⟩
    · intro p req' res hmsg
      simp at hmsg
    · intro req hreq
      cases hreq
    intro b hb
    rcases mem_cons.mp hb with rfl | hb
    · exact .inr (.inl ⟨hreq, rfl, rfl⟩)
    · exact .inl hb
  | requestVote _ hvote => exact requestVote_voteStep hvote
  | voteResponse hb hp hmsg hvote => exact voteResponse_voteStep hb hp hmsg hvote
  | propose => exact .of_voteStep (appendEntryLocked_voteStep _ _) rfl rfl (by simp)
  | heartbeat _ hround | choose _ hround | append _ hround =>
    exact .of_voteStep (replicateToPeer_voteStep hround) rfl rfl (by simp)
  | appendEntries _ happend => exact .of_voteStep (appendEntries_voteStep happend) rfl rfl (by simp)
  | appendResponse => exact .of_voteStep (applyAppendResponse_voteStep _ _ _ _) rfl rfl (by simp)
  | transferFailed | finishJob =>
    exact .of_voteStep (.of_same rfl rfl rfl rfl rfl fun h => h) rfl rfl (by simp)
  | snapshotResponse => exact .of_voteStep (snapshotResponse_voteStep _ _ _ _) rfl rfl (by simp)
  | answerInstall hinstall | install _ hinstall =>
    exact .of_voteStep (installSnapshot_voteStep hinstall) rfl rfl (by simp)
  | applyLoop hloop =>
    have hrf := applyLoop_voteStep (hloop.imp And.right And.right)
    exact .of_voteStep hrf rfl rfl (by simp)
  | idle | load | encode | send | handOff | sendEntry | requestSnapshot | encodeJob | checkJob
  | keepJob =>
    exact .of_voteStep (.refl _) rfl rfl (by simp)
  | @consume msg =>
    cases msg with
    | entry | snapshotRequest => exact .of_voteStep (.refl _) rfl rfl (by simp)
    | snapshot data i t =>
      exact .of_voteStep (saveSnapshot_voteStep _ _ _) rfl rfl (by simp)
  | installDone _ hdone => exact .of_voteStep (installDone_voteStep hdone) rfl rfl (by simp)
  | saveJob => exact .of_voteStep (saveSnapshot_voteStep _ _ _) rfl rfl (by simp)
  | trimJob _ _ htrim => exact .of_voteStep (trimTo_voteStep htrim) rfl rfl (by simp)
  | restart => exact restart_voteStep rfl (.inr ⟨rfl, .inr rfl⟩) hsaved hpeers
  | crashInHandler hlt hrf' =>
    obtain ⟨req, -, -, rfl⟩ | ⟨req, -, -, rfl⟩ := hrf'
    all_goals exact restart_voteStep rfl (.inl hlt) rfl hpeers

lemma World.step_inv {w w' : World σ} {act : NodeId × Action σ}
    (hstep : w.step machine cluster act = some w') : ∃ nd' out, act.1 ∈ cluster.members ∧
      (w.nodes act.1).step machine cluster w.net act.2 = some (nd', out) ∧
      w' = { nodes := Function.update w.nodes act.1 nd', net := w.net ++ out } := by
  unfold step at hstep
  split at hstep
  · next hmember =>
    simp only [Option.map_eq_some_iff] at hstep
    obtain ⟨⟨nd', out⟩, hnode, rfl⟩ := hstep
    exact ⟨nd', out, hmember, hnode, rfl⟩
  · cases hstep

omit [DecidableEq σ] in
lemma ElectionInv.init (machine : StateMachine σ) (cluster : Cluster) :
    ElectionInv cluster (fun _ _ => none) (init machine cluster) where
  nodes := fun u _ => by
    refine ⟨rfl, rfl, rfl, rfl, fun _ _ => rfl, ?_, ?_, ?_⟩
    · exact nofun
    · exact nofun
    · intro hleader
      cases hleader
  net := nofun

lemma ElectionInv.step {votes : Votes NodeId} {w : World σ} {u : NodeId} {act : Action σ}
    (hinv : ElectionInv cluster votes w) (hu : u ∈ cluster.members)
    (hstep : (w.nodes u).step machine cluster w.net act = some (nd', out)) :
    ElectionInv cluster (votes.record u nd'.rf.term nd'.rf.voteFor)
      { nodes := Function.update w.nodes u nd', net := w.net ++ out } := by
  have hold := hinv.nodes u hu
  have hvotes := step_voteStep hold.saved (by rw [hold.peers, hold.me]) hstep
  have hext := hvotes.extends hold
  refine ⟨fun v hv => ?_, fun p req res hmsg hgranted => ?_⟩
  · by_cases hself : v = u
    · subst hself
      simpa using hold.step hv hvotes hinv.net
    · simpa [hself] using (hinv.nodes v hv).frame hext fun t => Votes.record_of_ne hself
  obtain hmsg | hmsg := mem_append.mp hmsg
  · exact hext _ _ _ (hinv.net p req res hmsg hgranted)
  · obtain ⟨rfl, hterm, hvote⟩ := hvotes.granted p req res hmsg hgranted
    rw [hold.me, hterm, Votes.record_self, hvote]

lemma ElectionInv.reachable {w : World σ}
    (hreach : Reachable (World.step machine cluster) (.init machine cluster) w) :
    ∃ votes, ElectionInv cluster votes w := by
  refine hreach.invariant (fun w => ∃ votes, ElectionInv cluster votes w) ?_ ?_
  · exact ⟨_, .init machine cluster⟩
  rintro w w' act - ⟨votes, hinv⟩ - hstep
  obtain ⟨nd', out, hmember, hnode, rfl⟩ := step_inv hstep
  exact ⟨_, hinv.step hmember hnode⟩

/-- Election safety: in every run no two nodes lead the same term. -/
theorem leader_unique {w : World σ}
    (hreach : Reachable (World.step machine cluster) (.init machine cluster) w) {u v : NodeId}
    (hu : u ∈ cluster.members) (hv : v ∈ cluster.members)
    (hleadu : (w.nodes u).rf.state = .leader) (hleadv : (w.nodes v).rf.state = .leader)
    (hterm : (w.nodes u).rf.term = (w.nodes v).rf.term) : u = v := by
  obtain ⟨votes, hinv⟩ := ElectionInv.reachable hreach
  have hwonu := (hinv.nodes u hu).leader hleadu
  have hwonv := (hinv.nodes v hv).leader hleadv
  rw [hterm] at hwonu
  exact hwonu.unique hwonv

/-- A machine that counts the commands it applies. -/
def counter : StateMachine Nat := { init := 0, apply := fun count _ => count + 1 }

def trio : Cluster where
  members := [1, 2, 3]
  nodup := by decide
  maxLogLength := 1000
  maxLogLength_pos := Nat.zero_lt_succ _

/-- Node 1 leads term 1 on node 2's vote and applies a command that node 2 acknowledged. -/
def commitRun : List (NodeId × Action Nat) :=
  let vote : RequestVoteRequest := ⟨1, 1, 0, 0⟩
  let append : AppendEntriesRequest :=
    { term := 1, leaderId := 1, prevLogIndex := 0, prevLogTerm := 0,
      entries := [⟨1, 1, []⟩, ⟨2, 1, [7]⟩], leaderCommit := 0 }
  [(1, .startElection), (1, .sendVoteRequest), (2, .requestVote vote),
    (1, .voteResponse { req := vote, votes := 1, waiting := [2, 3] } 2 ⟨1, true⟩),
    (1, .replicate 2), (1, .propose [7]), (1, .replicate 2), (2, .appendEntries append),
    (1, .appendResponse 2 append ⟨1, true, 0, 0⟩),
    (1, .applyStep), (1, .applyStep), (1, .applyStep), (1, .applyStep)]

/-- Node 1 leads on its own vote and node 2's, so no other node of the three leads the term. -/
theorem leader_unique_trio :
    ∃ w : World Nat, Reachable (World.step counter trio) (.init counter trio) w ∧
      .voteResponse 2 ⟨1, 1, 0, 0⟩ ⟨1, true⟩ ∈ w.net ∧ (w.nodes 1).rf.state = .leader ∧
        ∀ v ∈ trio.members, (w.nodes v).rf.state = .leader →
          (w.nodes v).rf.term = (w.nodes 1).rf.term → v = 1 := by
  obtain ⟨w, hreach, hvote, hlead⟩ : ∃ w,
      Reachable (World.step counter trio) (.init counter trio) w ∧
        .voteResponse 2 ⟨1, 1, 0, 0⟩ ⟨1, true⟩ ∈ w.net ∧ (w.nodes 1).rf.state = .leader :=
    Reach.exists_decide commitRun (by decide +kernel)
  exact ⟨w, hreach, hvote, hlead, fun v hv hleadv hterm =>
    leader_unique hreach hv (by decide) hleadv hlead hterm⟩

end stratum.raft
