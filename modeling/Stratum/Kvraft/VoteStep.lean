import Stratum.Kvraft.RpcHandlers
import Stratum.Kvraft.Transport

open stratum.kvstorage

namespace stratum.kvraft

open Option

variable {rf rf' : Raft σ} {term index : Nat} {req : AppendEntriesRequest}
  {resp : AppendEntriesResponse}

namespace Raft

variable {σ : Type}

/-- What every operation guarantees about elections: the term never goes back, the vote
of a term is never changed once cast, and both reach the disk with the log before the
lock is released. -/
structure VoteStep (rf rf' : Raft σ) : Prop where
  me : rf'.me = rf.me
  peers : rf'.peers = rf.peers
  saved : rf.Saved → rf'.Saved
  vote : rf.term < rf'.term ∨ rf'.term = rf.term ∧ (rf.voteFor = none ∨ rf'.voteFor = rf.voteFor)
  leader : rf'.state = .leader → rf.state = .leader ∧ rf'.term = rf.term

lemma VoteStep.of_same (hme : rf'.me = rf.me) (hpeers : rf'.peers = rf.peers)
    (hterm : rf'.term = rf.term) (hvote : rf'.voteFor = rf.voteFor) (hstate : rf'.state = rf.state)
    (hsaved : rf.Saved → rf'.Saved) : VoteStep rf rf' :=
  ⟨hme, hpeers, hsaved, .inr ⟨hterm, .inr hvote⟩, fun h => ⟨hstate ▸ h, hterm⟩⟩

lemma VoteStep.refl (rf : Raft σ) : VoteStep rf rf := .of_same rfl rfl rfl rfl rfl id

lemma VoteStep.trans {rf₁ rf₂ rf₃ : Raft σ} (h₁₂ : VoteStep rf₁ rf₂) (h₂₃ : VoteStep rf₂ rf₃) :
    VoteStep rf₁ rf₃ := by
  refine ⟨h₂₃.me.trans h₁₂.me, h₂₃.peers.trans h₁₂.peers, h₂₃.saved ∘ h₁₂.saved, ?_, ?_⟩
  · rcases h₁₂.vote with hlt | ⟨hterm, hvote⟩
    · rcases h₂₃.vote with hlt' | ⟨hterm', -⟩ <;> omega
    rcases h₂₃.vote with hlt' | ⟨hterm', hvote'⟩
    · omega
    refine .inr ⟨hterm'.trans hterm, ?_⟩
    rcases hvote with hnone | hsame
    · exact .inl hnone
    · rw [hsame] at hvote'
      exact hvote'
  · intro hleader
    obtain ⟨hleader₂, hterm₃⟩ := h₂₃.leader hleader
    obtain ⟨hleader₁, hterm₂⟩ := h₁₂.leader hleader₂
    exact ⟨hleader₁, hterm₃.trans hterm₂⟩

lemma stepDown_voteStep (hterm : rf.term < term) : VoteStep rf (rf.stepDown term) :=
  ⟨rfl, rfl, fun _ => rfl, .inl hterm, nofun⟩

lemma follow_voteStep {leaderId : NodeId} : VoteStep rf (rf.follow term leaderId) := by
  unfold follow
  split
  · next hlt => exact ⟨rfl, rfl, fun _ => rfl, .inl hlt, nofun⟩
  · exact ⟨rfl, rfl, id, .inr ⟨rfl, .inr rfl⟩, nofun⟩

lemma appendEntryLocked_voteStep (rf : Raft σ) (data : Bytes) :
    VoteStep rf (rf.appendEntryLocked data) :=
  .of_same rfl rfl rfl rfl rfl fun _ => rfl

lemma applyLoop_voteStep {pc : ApplyPc}
    (hloop : rf.applyLoopTop = some (rf', pc) ∨ rf.applyLoopInner = some (rf', pc)) :
    VoteStep rf rf' := by
  obtain ⟨applied, flag, rfl⟩ := applyLoop_spec hloop
  exact .of_same rfl rfl rfl rfl rfl fun h => h

lemma acceptAppendFrom_voteStep (rf : Raft σ) (req : AppendEntriesRequest) (upTo : Nat) :
    VoteStep rf (rf.acceptAppendFrom req upTo).1 :=
  .of_same rfl rfl rfl rfl rfl fun h => h

lemma appendAfterBase_voteStep (happend : rf.appendAfterBase req = some (rf', resp)) :
    VoteStep rf rf' := by
  unfold appendAfterBase at happend
  split at happend
  · cases happend
    exact .refl _
  simp only [map_eq_some_iff] at happend
  obtain ⟨prevEntry, -, heq⟩ := happend
  split at heq
  · cases heq
    exact .refl _
  have hrf' := congrArg Prod.fst heq
  dsimp only at hrf'
  rw [← hrf']
  refine .trans ?_ (acceptAppendFrom_voteStep _ _ _)
  split
  · exact .of_same rfl rfl rfl rfl rfl fun _ => rfl
  · exact .refl _

lemma appendEntries_voteStep (happend : rf.appendEntries req = some (rf', resp)) :
    VoteStep rf rf' := by
  unfold appendEntries at happend
  split at happend
  · cases happend
    exact .refl _
  dsimp only at happend
  split at happend
  · have hrf' := congrArg Prod.fst (some.inj happend)
    dsimp only at hrf'
    rw [← hrf']
    exact follow_voteStep.trans (acceptAppendFrom_voteStep _ _ _)
  · exact follow_voteStep.trans (appendAfterBase_voteStep happend)

lemma installSnapshot_voteStep {rf rf' : Raft σ} {req : InstallSnapshotRequest σ} {hand : Bool}
    {resp : InstallSnapshotResponse} (hinstall : rf.installSnapshot req = (rf', hand, resp)) :
    VoteStep rf rf' := by
  unfold installSnapshot at hinstall
  split at hinstall
  · cases hinstall
    exact .refl _
  dsimp only at hinstall
  split at hinstall
  all_goals
    cases hinstall
    exact follow_voteStep

lemma replicateToPeer_voteStep {id : NodeId} {r : Replication}
    (hrep : rf.replicateToPeer id = some (rf', r)) : VoteStep rf rf' := by
  unfold replicateToPeer at hrep
  split at hrep
  · cases hrep
    exact .refl _
  split at hrep
  · split at hrep
    · cases hrep
      exact .refl _
    · cases hrep
      exact .of_same rfl rfl rfl rfl rfl fun h => h
  · simp only [map_eq_some_iff] at hrep
    obtain ⟨_, -, ⟨⟩⟩ := hrep
    exact .refl _

lemma applyAppendResponse_voteStep (rf : Raft σ) (id : NodeId) (req : AppendEntriesRequest)
    (resp : AppendEntriesResponse) : VoteStep rf (rf.applyAppendResponse id req resp) := by
  unfold applyAppendResponse
  split
  · next hlt => exact stepDown_voteStep hlt
  split
  · unfold appendSucceeded
    dsimp only
    split
    all_goals exact .of_same rfl rfl rfl rfl rfl fun h => h
  · exact .of_same rfl rfl rfl rfl rfl fun h => h

lemma snapshotResponse_voteStep (rf : Raft σ) (peerID : NodeId) (lastIndex : Nat)
    (resp : InstallSnapshotResponse) : VoteStep rf (rf.snapshotResponse peerID lastIndex resp) := by
  unfold snapshotResponse
  split
  · next hlt => exact ⟨rfl, rfl, fun _ => rfl, .inl hlt, nofun⟩
  · exact .of_same rfl rfl rfl rfl rfl fun h => h

lemma saveSnapshot_voteStep (rf : Raft σ) (data : σ) (index : Nat) :
    VoteStep rf (rf.saveSnapshot data index) := by
  refine ⟨rfl, rfl, fun hsaved => ?_, .inr ⟨rfl, .inr rfl⟩, fun h => ⟨h, rfl⟩⟩
  unfold Saved at hsaved ⊢
  simpa only [saveSnapshot, Persister.saveSnapshot_loadState] using hsaved

lemma trimTo_voteStep (htrim : rf.trimTo index = some rf') : VoteStep rf rf' := by
  simp only [trimTo, map_eq_some_iff] at htrim
  obtain ⟨entry, -, rfl⟩ := htrim
  exact .of_same rfl rfl rfl rfl rfl fun _ => rfl

lemma trimLogLocked_voteStep (htrim : rf.trimLogLocked index term = some rf') :
    VoteStep rf rf' := by
  unfold trimLogLocked at htrim
  split at htrim
  · cases htrim
    exact .refl _
  split at htrim
  · cases htrim
    exact .of_same rfl rfl rfl rfl rfl fun _ => rfl
  simp only [map_eq_some_iff] at htrim
  obtain ⟨rf₁, htrim, rfl⟩ := htrim
  have hstep := trimTo_voteStep htrim
  exact ⟨hstep.me, hstep.peers, hstep.saved, hstep.vote, hstep.leader⟩

lemma installDone_voteStep {lastIndex lastTerm : Nat}
    (hdone : rf.installDone lastIndex lastTerm = some rf') : VoteStep rf rf' := by
  have hstep := trimLogLocked_voteStep hdone
  exact ⟨hstep.me, hstep.peers, hstep.saved, hstep.vote, hstep.leader⟩

end Raft

end stratum.kvraft
