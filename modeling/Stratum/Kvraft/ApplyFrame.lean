import Stratum.Kvraft.RpcHandlers
import Stratum.Kvraft.Transport

open stratum.kvstorage List

namespace stratum.kvraft

/-- Entries that carry consecutive indices from the one after `start` on. -/
def Consecutive (start : Nat) (entries : List Entry) : Prop :=
  ∀ k e, entries[k]? = some e → e.index = start + k + 1

lemma Consecutive.nil (start : Nat) : Consecutive start [] := nofun

variable {es : List Entry} {start : Nat} {rf rf' : Raft σ} {req : RequestVoteRequest}
  {res : RequestVoteResponse}

lemma Consecutive.append {next : Nat} {fs : List Entry} (hes : Consecutive start es)
    (hfs : Consecutive next fs) (hnext : next = start + es.length) :
    Consecutive start (es ++ fs) := by
  intro k e he
  by_cases hk : k < es.length
  · rw [getElem?_append_left hk] at he
    exact hes k e he
  rw [getElem?_append_right (by omega)] at he
  have hindex := hfs _ e he
  omega

lemma Consecutive.take (hes : Consecutive start es) (n : Nat) : Consecutive start (es.take n) := by
  intro k e he
  rw [getElem?_take] at he
  split at he
  · exact hes k e he
  · cases he

lemma Consecutive.drop (hes : Consecutive start es) (n : Nat) :
    Consecutive (start + n) (es.drop n) := by
  intro k e he
  rw [getElem?_drop] at he
  have hindex := hes _ e he
  omega

namespace Log

/-- Every entry is stored at its own index. -/
def Indexed (log : Log) : Prop := Consecutive log.base.index log.entries

variable {log : Log} (hlog : log.Indexed)

include hlog

lemma Indexed.logEntry {i : Nat} {e : Entry} (he : log.logEntry i = some e) : e.index = i := by
  unfold Log.logEntry logIndex at he
  split at he
  · cases he
  obtain heq | ⟨k, hk⟩ : i - log.base.index = 0 ∨ ∃ k, i - log.base.index = k + 1 := by
    cases hi : i - log.base.index with
    | zero => exact .inl rfl
    | succ k => exact .inr ⟨k, rfl⟩
  · rw [heq] at he
    cases he
    omega
  · rw [hk] at he
    have hindex := hlog k e he
    omega

lemma Indexed.push {e : Entry} (he : e.index = log.lastLogIndex + 1) : (log.push e).Indexed := by
  have htail : Consecutive (log.base.index + log.entries.length) [e] := by
    intro k f hf
    obtain ⟨hk, rfl⟩ := List.getElem?_eq_some_iff.mp hf
    rw [List.length_singleton] at hk
    obtain rfl : k = 0 := by omega
    rw [getElem_cons_zero, he, lastLogIndex_eq]
  exact Consecutive.append hlog htail rfl

lemma Indexed.spliceAfter {prev : Nat} (hbase : log.base.index ≤ prev)
    (hprev : prev ≤ log.lastLogIndex) (hes : Consecutive prev es) :
    (log.spliceAfter (log.logIndex prev) es).Indexed := by
  rw [lastLogIndex_eq] at hprev
  refine Consecutive.append (Consecutive.take hlog _) hes ?_
  rw [length_take, logIndex, spliceAfter_base]
  omega

lemma Indexed.compactAt {i : Nat} (t : Nat) (hi : log.base.index ≤ i) :
    (log.compactAt i t (log.logIndex i)).Indexed := by
  have hdrop := Consecutive.drop hlog (i - log.base.index)
  rwa [Nat.add_sub_of_le hi] at hdrop

end Log

namespace Raft

variable {σ : Type}

/-- What a step that has nothing to do with applying leaves alone: the base of the log,
the applied index and the snapshot file; and the log stays stored by index. -/
structure ApplyFrame (rf rf' : Raft σ) : Prop where
  base : rf'.log.base = rf.log.base
  indexed : rf.log.Indexed → rf'.log.Indexed
  lastApplied : rf'.lastApplied = rf.lastApplied
  snapshot : rf'.persister.snapshot = rf.persister.snapshot
  snapshotIndex : rf'.persister.snapshotIndex = rf.persister.snapshotIndex
  maxLogLength : rf'.maxLogLength = rf.maxLogLength

namespace ApplyFrame

lemma of_log (hlog : rf'.log = rf.log) (happlied : rf'.lastApplied = rf.lastApplied)
    (hsnapshot : rf'.persister.snapshot = rf.persister.snapshot)
    (hindex : rf'.persister.snapshotIndex = rf.persister.snapshotIndex)
    (hmax : rf'.maxLogLength = rf.maxLogLength) : ApplyFrame rf rf' :=
  ⟨by rw [hlog], by rw [hlog]; exact id, happlied, hsnapshot, hindex, hmax⟩

lemma refl (rf : Raft σ) : ApplyFrame rf rf := .of_log rfl rfl rfl rfl rfl

lemma trans {rf₁ rf₂ rf₃ : Raft σ} (h₁₂ : ApplyFrame rf₁ rf₂)
    (h₂₃ : ApplyFrame rf₂ rf₃) : ApplyFrame rf₁ rf₃ :=
  ⟨h₂₃.base.trans h₁₂.base, h₂₃.indexed ∘ h₁₂.indexed, h₂₃.lastApplied.trans h₁₂.lastApplied,
    h₂₃.snapshot.trans h₁₂.snapshot, h₂₃.snapshotIndex.trans h₁₂.snapshotIndex,
    h₂₃.maxLogLength.trans h₁₂.maxLogLength⟩

lemma lastIndex (hframe : ApplyFrame rf rf') :
    rf'.persister.lastIndex = rf.persister.lastIndex := by
  rw [Persister.lastIndex, hframe.snapshot]
  rfl

end ApplyFrame

lemma stepDown_applyFrame (rf : Raft σ) (term : Nat) : ApplyFrame rf (rf.stepDown term) :=
  .of_log rfl rfl rfl rfl rfl

lemma follow_applyFrame (rf : Raft σ) (term : Nat) (leaderId : NodeId) :
    ApplyFrame rf (rf.follow term leaderId) := by
  unfold follow
  split
  all_goals exact .of_log rfl rfl rfl rfl rfl

lemma appendEntryLocked_applyFrame (rf : Raft σ) (data : Bytes) :
    ApplyFrame rf (rf.appendEntryLocked data) :=
  ⟨rfl, fun hlog => hlog.push rfl, rfl, rfl, rfl, rfl⟩

lemma becomeLeaderLocked_applyFrame (rf : Raft σ) : ApplyFrame rf rf.becomeLeaderLocked :=
  ⟨rfl, fun hlog => hlog.push rfl, rfl, rfl, rfl, rfl⟩

lemma requestVote_applyFrame (hvote : rf.requestVote req = (rf', res)) : ApplyFrame rf rf' := by
  obtain ⟨-, rfl | ⟨-, rfl⟩⟩ | ⟨-, rf₁, ⟨rfl, -⟩ | ⟨-, rfl⟩, -, -, rfl⟩ := requestVote_spec hvote
  · exact .refl _
  · exact stepDown_applyFrame rf _
  all_goals exact .of_log rfl rfl rfl rfl rfl

lemma voteResponse_applyFrame {votes votes' : Nat}
    (hvote : rf.voteResponse req votes res = (rf', votes')) : ApplyFrame rf rf' := by
  obtain ⟨-, rfl | ⟨-, rfl⟩⟩ | ⟨-, -, -, -, rfl | ⟨-, rfl⟩⟩ := voteResponse_spec hvote
  · exact .refl _
  · exact stepDown_applyFrame rf _
  · exact .refl _
  · exact becomeLeaderLocked_applyFrame rf

lemma appendEntries_applyFrame {req : AppendEntriesRequest} {resp : AppendEntriesResponse}
    (happend : rf.appendEntries req = some (rf', resp))
    (hentries : Consecutive req.prevLogIndex req.entries) : ApplyFrame rf rf' := by
  have hfollow := follow_applyFrame rf req.term req.leaderId
  obtain ⟨rfl, -⟩ | ⟨-, rf₁, rfl, ⟨rfl, -⟩ | ⟨-, rfl⟩ | ⟨prevEntry, hbase, hentry, -, houtcome⟩⟩ :=
    appendEntries_spec happend
  · exact .refl _
  · exact hfollow
  · exact hfollow.trans (.of_log rfl rfl rfl rfl rfl)
  obtain ⟨-, rfl⟩ | ⟨-, log, rfl, rfl⟩ := houtcome
  · exact hfollow.trans (.of_log rfl rfl rfl rfl rfl)
  have hrange := (rf.log.logEntry_isSome_iff _).mp (by rw [hentry]; rfl)
  exact ⟨rfl, fun hlog => hlog.spliceAfter hbase hrange.2 hentries, hfollow.lastApplied,
    hfollow.snapshot, hfollow.snapshotIndex, hfollow.maxLogLength⟩

lemma applyAppendResponse_applyFrame (rf : Raft σ) (p : NodeId) (req : AppendEntriesRequest)
    (resp : AppendEntriesResponse) : ApplyFrame rf (rf.applyAppendResponse p req resp) := by
  unfold applyAppendResponse
  split
  · exact stepDown_applyFrame rf _
  split
  · obtain ⟨rf₁, hsucceeded, rfl | ⟨nextIndex, rfl⟩⟩ := appendSucceeded_spec rf p req
    · rw [hsucceeded]
      exact .of_log rfl rfl rfl rfl rfl
    · rw [hsucceeded]
      exact .of_log rfl rfl rfl rfl rfl
  · exact .of_log rfl rfl rfl rfl rfl

lemma snapshotResponse_applyFrame (rf : Raft σ) (p : NodeId) (lastIndex : Nat)
    (resp : InstallSnapshotResponse) : ApplyFrame rf (rf.snapshotResponse p lastIndex resp) := by
  unfold snapshotResponse
  split
  all_goals exact .of_log rfl rfl rfl rfl rfl

lemma installSnapshot_applyFrame {rf rf' : Raft σ} {hand : Bool} {req : InstallSnapshotRequest σ}
    {resp : InstallSnapshotResponse} (hinstall : rf.installSnapshot req = (rf', hand, resp)) :
    ApplyFrame rf rf' := by
  obtain ⟨rfl, -⟩ | ⟨-, rfl⟩ := installSnapshot_spec hinstall
  · exact .refl _
  · exact follow_applyFrame rf _ _

/-- A round of replication leaves the leader's applying alone and sends consecutive
entries. -/
lemma replicateToPeer_applyFrame {p : NodeId} {r : Replication} (hleader : rf.state = .leader)
    (hround : rf.replicateToPeer p = some (rf', r)) :
    ApplyFrame rf rf' ∧ (rf.log.Indexed → ∀ req, r = .heartbeat req ∨ r = .append req →
      Consecutive req.prevLogIndex req.entries) := by
  obtain ⟨rfl, rfl⟩ | ⟨rfl, rfl⟩ | ⟨next, req, hnext, hreq, rfl, rfl⟩ :=
    replicateToPeer_spec hleader hround
  · refine ⟨.refl _, fun _ req hreq => ?_⟩
    obtain heq | heq := hreq
    · cases heq
      exact .nil _
    · cases heq
  · refine ⟨.of_log rfl rfl rfl rfl rfl, fun _ req hreq => ?_⟩
    obtain heq | heq := hreq
    all_goals cases heq
  refine ⟨.refl _, fun hlog req' hreq' => ?_⟩
  obtain heq | heq := hreq'
  · cases heq
  cases heq
  simp only [appendRequest, Option.map_eq_some_iff] at hreq
  obtain ⟨prev, hprev, rfl⟩ := hreq
  obtain ⟨k, rfl⟩ : ∃ k, next = rf'.log.base.index + k + 1 :=
    ⟨next - rf'.log.base.index - 1, by omega⟩
  rw [hlog.logEntry hprev, Log.logIndex, Nat.add_assoc, Nat.add_sub_cancel_left,
    ← Nat.add_assoc, Nat.add_sub_cancel]
  exact Consecutive.drop hlog k

end Raft

end stratum.kvraft
