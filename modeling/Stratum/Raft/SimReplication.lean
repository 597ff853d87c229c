import Stratum.Raft.SafeStep
import Stratum.Raft.SimLeadership

open stratum.lib stratum.kvstorage stratum.kvraft List

namespace stratum.raft

open Raft History

variable {σ : Type} {cluster : Cluster} {h h' : RunHistory} {u : NodeId} {w : World σ}
  {nd' : Node σ} {out : List (Msg σ)} {l m : List Entry} {leaderId : NodeId} {j t : Nat}
  {req : AppendEntriesRequest} {log : Log} {prevEntry : Entry}

lemma share_of_termAt {N : Type} {h : History N Entry} {k : Nat}
    (hl : h.Sound Entry.term l) (hm : h.Sound Entry.term m) (hkl : k ≤ l.length)
    (hkm : k ≤ m.length) (hterm : termAt l k = termAt m k) : Share l m k := by
  cases k with
  | zero => exact .zero l m
  | succ k =>
  obtain ⟨e, he⟩ : ∃ e, l[k]? = some e := ⟨_, getElem?_eq_getElem (by omega)⟩
  obtain ⟨f, hf⟩ : ∃ f, m[k]? = some f := ⟨_, getElem?_eq_getElem (by omega)⟩
  rw [termAt_succ he, termAt_succ hf] at hterm
  exact hl.matching hm he hf hterm

/-- A process that follows the sender of a request in the request's term, with a history
in which only its own log changed. -/
lemma StepSim.following (hsim : Sim cluster h w) (hu : u ∈ cluster.members)
    (hle : (w.nodes u).rf.term ≤ t) (hterm : nd'.rf.term = t)
    (hvote : nd'.rf.voteFor = ((w.nodes u).rf.follow t leaderId).voteFor)
    (hstate : nd'.rf.state = .follower) (hcont : Continues h h')
    (hinv : h'.Inv Entry.term cluster.members) (hvotes : h'.votes = h.votes)
    (hothers : ∀ v, v ≠ u → h'.term v = h.term v ∧ h'.log v = h.log v)
    (hleaders : h'.leaderLog = h.leaderLog) (hnode : RaftSim cluster h' u nd'.rf)
    (hitems : ItemsSim cluster h' nd') (hnet : ∀ msg ∈ out, MsgOk cluster h' msg) :
    StepSim cluster h h' u (w.nodes u) nd' out := by
  have hold := hsim.election.nodes u hu
  refine ⟨hcont, hinv, ?_, hothers, fun t => .inl (by rw [hleaders]), ?_, ?_, hnode, hitems, hnet⟩
  · have hslot : h.votes u nd'.rf.term = nd'.rf.voteFor := by
      rw [hvote, hterm]
      obtain hlt | rfl := lt_or_eq_of_le hle
      · rw [hold.future t hlt, follow, if_pos hlt]
        rfl
      · rw [hold.current, follow, if_neg (lt_irrefl _)]
    rw [hvotes]
    exact (Votes.record_eq_self hslot).symm
  · rw [hleaders]
    exact hsim.index
  intro hcandidate
  rw [hstate] at hcandidate
  cases hcandidate

lemma RaftSim.follow (leaderId : NodeId) (hsim : Sim cluster h w) (hu : u ∈ cluster.members)
    (hle : (w.nodes u).rf.term ≤ t) :
    RaftSim cluster (h.setTerm u t) u ((w.nodes u).rf.follow t leaderId) := by
  have hraft := hsim.nodes u hu
  refine hraft.follower (.setTerm (by rw [hraft.term]; exact hle)) ?_ ?_ rfl rfl
    (follow_log _ _ _) (follow_lastCommitIndex _ _ _)
    (follow_lastApplied _ _ _) ?_ (follow_snapshotIndex _ _ _)
  · rw [setTerm_term_self, follow_term leaderId hle]
  · rw [follow_term leaderId hle]
    exact hle
  · rw [Persister.lastIndex, follow_snapshot]
    rfl

lemma ItemsSim.follow (leaderId : NodeId) (hsim : Sim cluster h w) (hu : u ∈ cluster.members)
    (hle : (w.nodes u).rf.term ≤ t) :
    ItemsSim cluster (h.setTerm u t) { w.nodes u with rf := (w.nodes u).rf.follow t leaderId } := by
  refine (hsim.items u hu).frame _ (.setTerm (by rw [(hsim.nodes u hu).term]; exact hle)) ?_ ?_ ?_
  · rw [follow_term leaderId hle]
    exact hle
  · rw [follow_lastApplied]
  · simp only [Persister.lastIndex, follow_snapshot, le_refl]

/-- A step that follows the sender of a request and takes nothing else from it. -/
lemma StepSim.followed (hsim : Sim cluster h w) (hu : u ∈ cluster.members)
    (hle : (w.nodes u).rf.term ≤ t) (hrf : nd'.rf = (w.nodes u).rf.follow t leaderId)
    (hitems : ItemsSim cluster (h.setTerm u t) nd')
    (hnet : ∀ msg ∈ out, MsgOk cluster (h.setTerm u t) msg) :
    StepSim cluster h (h.setTerm u t) u (w.nodes u) nd' out := by
  have hterm : h.term u ≤ t := by
    rw [(hsim.nodes u hu).term]
    exact hle
  refine .following hsim hu hle ?_ (by rw [hrf]) (by rw [hrf]; rfl) (.setTerm hterm)
    (hsim.inv.setTerm hterm) rfl ?_ rfl (hrf ▸ .follow leaderId hsim hu hle) hitems hnet
  · rw [hrf, follow_term leaderId hle]
  · intro v hv
    simp [setTerm, hv]

/-- Accepting up to `upTo` keeps the state in agreement if the log is the leader's as far
as the commit index moves. -/
lemma RaftSim.accept {rf : Raft σ} {upTo : Nat} (hinv : h.Inv Entry.term cluster.members)
    (hraft : RaftSim cluster h u rf) (hstate : rf.state = .follower) (hterm : rf.term = req.term)
    (hcov : Covered cluster h req.term req.leaderCommit) (hm : h.leaderLog req.term = some m)
    (hmoved : rf.lastCommitIndex < req.leaderCommit → min req.leaderCommit upTo ≤ rf.lastApplied ∨
      Share (h.log u) m (min req.leaderCommit upTo)) :
    RaftSim cluster h u (rf.acceptAppendFrom req upTo).1 := by
  have hmin : (rf.acceptAppendFrom req upTo).1.lastCommitIndex =
      if rf.lastCommitIndex < req.leaderCommit then min req.leaderCommit upTo
      else rf.lastCommitIndex := by
    simp only [acceptAppendFrom]
    split
    · split <;> omega
    · rfl
  refine ⟨hraft.term, hraft.log, ?_, ?_, ?_, hraft.baseApplied, hraft.applied, ?_, ?_,
    hraft.baseSaved, hraft.saved, hraft.guard⟩
  · intro hleader
    change rf.state = .leader at hleader
    rw [hstate] at hleader
    cases hleader
  · intro hleader
    change rf.state = .leader at hleader
    rw [hstate] at hleader
    cases hleader
  · intro hcandidate
    change rf.state = .candidate at hcandidate
    rw [hstate] at hcandidate
    cases hcandidate
  · rw [hmin]
    change Covered cluster h rf.term _
    split
    · rw [hterm]
      exact hcov.mono Continues.refl.ext le_rfl (min_le_left _ _)
    · exact hraft.committed
  rw [hmin]
  intro hready
  change rf.lastApplied < _ at hready
  change h.Committed Entry.term cluster.members rf.term _ _
  split at hready
  · next hlt =>
    rw [if_pos hlt, hterm]
    obtain hpast | hshare := hmoved hlt
    · omega
    have hcommitted : Covered cluster h req.term (min req.leaderCommit upTo) :=
      hcov.mono Continues.refl.ext le_rfl (min_le_left _ _)
    exact (hcommitted.committed hinv (by omega) hm le_rfl).of_share hshare
  · next hge =>
    rw [if_neg hge]
    exact hraft.ready hready

/-- A follower that acknowledges entries, with the same or another log over the same base. -/
lemma RaftSim.setLog {rf : Raft σ} {a : Nat} (hraft : RaftSim cluster h u rf)
    (hstate : rf.state = .follower) (ha : h.acked u (h.term u) ≤ a) (hbase : log.base = rf.log.base)
    (hlog : log.Represents l)
    (hready : rf.lastApplied < rf.lastCommitIndex → Share l (h.log u) rf.lastCommitIndex) :
    RaftSim cluster (h.setLog u l a) u { rf with log } := by
  have hext : History.Extends Entry.term h (h.setLog u l a) := History.setLog_extends ha
  have hself : (h.setLog u l a).log u = l := by simp [History.setLog]
  refine ⟨hraft.term, ?_, ?_, ?_, ?_, ?_, hraft.applied.extend hext,
    hraft.committed.extend hext, fun hlt => ?_, ?_, hraft.saved.extend hext, hraft.guard⟩
  · rw [hself]
    exact hlog
  · intro hleader
    rw [hstate] at hleader
    cases hleader
  · intro hleader
    rw [hstate] at hleader
    cases hleader
  · intro hcandidate
    rw [hstate] at hcandidate
    cases hcandidate
  · rw [hbase]
    exact hraft.baseApplied
  · rw [hself]
    exact ((hraft.ready hlt).of_share (hready hlt)).extend hext
  · rw [hbase]
    exact hraft.baseSaved

lemma Continues.setLog {a : Nat} (ha : h.acked u (h.term u) ≤ a) : Continues h (h.setLog u l a) :=
  ⟨setLog_extends ha, fun _ _ _ => rfl⟩

lemma Continues.trans {h'' : RunHistory} (h₁ : Continues h h') (h₂ : Continues h' h'') :
    Continues h h'' :=
  ⟨h₁.ext.trans h₂.ext, fun c t ht => by
    rw [h₂.standing c t (le_trans ht (h₁.ext.term c)), h₁.standing c t ht]⟩

/-- What a call that passes the consistency check shows: the follower's log is the
leader's up to the matching entry. -/
lemma Sim.share_matched (hsim : Sim cluster h w) (hu : u ∈ cluster.members)
    (hm : h.leaderLog req.term = some m) (hlen : req.prevLogIndex ≤ m.length)
    (hprev : req.prevLogTerm = termAt m req.prevLogIndex)
    (hentry : (w.nodes u).rf.log.logEntry req.prevLogIndex = some prevEntry)
    (hmatch : prevEntry.term = req.prevLogTerm) : Share (h.log u) m req.prevLogIndex := by
  obtain ⟨-, hle, hterm⟩ := (hsim.nodes u hu).log.logEntry_term hentry
  refine share_of_termAt (hsim.inv.sound u) (hsim.inv.soundLeader _ m hm) hle hlen ?_
  rw [← hterm, hmatch, hprev]

/-- The entries a call carries, appended to what precedes them, are the start of the
leader's log. -/
lemma AppendOk.splice (hlen : req.prevLogIndex + req.entries.length ≤ m.length)
    (hentries : ∀ i, i < req.entries.length → req.entries[i]? = m[req.prevLogIndex + i]?)
    (hshare : Share l m req.prevLogIndex) :
    l.take req.prevLogIndex ++ req.entries = m.take (req.prevLogIndex + req.entries.length) := by
  have hl : (l.take req.prevLogIndex).length = req.prevLogIndex := by
    have := hshare.1
    rw [length_take]
    omega
  apply ext_getElem?
  intro i
  by_cases hi : i < req.prevLogIndex
  · rw [getElem?_append_left (by omega), getElem?_take_of_lt hi, hshare.2 i hi,
      getElem?_take_of_lt (by omega)]
  rw [getElem?_append_right (by omega)]
  by_cases hin : i < req.prevLogIndex + req.entries.length
  · rw [hentries _ (by omega), getElem?_take_of_lt hin]
    congr 1
    omega
  · rw [getElem?_eq_none (by omega), getElem?_eq_none (by rw [length_take]; omega)]

/-- A conflict the follower can see is an entry it holds that is not the leader's. -/
lemma Sim.conflict (hsim : Sim cluster h w) (hu : u ∈ cluster.members)
    (hm : h.leaderLog req.term = some m)
    (hentries : ∀ i, i < req.entries.length → req.entries[i]? = m[req.prevLogIndex + i]?)
    (hbase : (w.nodes u).rf.log.base.index ≤ req.prevLogIndex)
    (hconflict : (w.nodes u).rf.Conflicts req) :
    ∃ k, k < req.prevLogIndex + req.entries.length ∧ k < (h.log u).length ∧
      (h.log u)[k]? ≠ m[k]? := by
  obtain ⟨e, he, hheld⟩ := hconflict
  obtain ⟨i, hi⟩ := List.getElem?_of_mem he
  have hilen := (List.getElem?_eq_some_iff.mp hi).1
  have hmi : m[req.prevLogIndex + i]? = some e := by rw [← hentries i hilen, hi]
  have hindex := hsim.index _ m hm _ e hmi
  rw [Option.any_eq_true] at hheld
  obtain ⟨held, hheldAt, hdiffer⟩ := hheld
  rw [(hsim.nodes u hu).log.logEntry (by omega), hindex, Nat.add_sub_cancel] at hheldAt
  refine ⟨req.prevLogIndex + i, by omega, (List.getElem?_eq_some_iff.mp hheldAt).1, ?_⟩
  rw [hheldAt, hmi]
  intro heq
  cases heq
  exact absurd rfl (of_decide_eq_true hdiffer)

/-- The outcomes in which the follower answers with success: it ends up with log `l`, of
which it acknowledges the first `j` entries. -/
lemma StepSim.accepted (hsim : Sim cluster h w) (hu : u ∈ cluster.members)
    {resp : AppendEntriesResponse} {rf₂ : Raft σ} {upTo : Nat}
    (hle : (w.nodes u).rf.term ≤ req.term) (hcov : Covered cluster h req.term req.leaderCommit)
    (hm : h.leaderLog req.term = some m)
    (hrf₂ : rf₂ = { (w.nodes u).rf.follow req.term req.leaderId with log } ∨ rf₂ = persist {
      (w.nodes u).rf.follow req.term req.leaderId with log })
    (hbase : log.base = (w.nodes u).rf.log.base) (hlog : log.Represents l)
    (hinv : ((h.setTerm u req.term).setLog u l (max (h.acked u req.term) j)).Inv Entry.term
      cluster.members)
    (hready : (w.nodes u).rf.lastApplied < (w.nodes u).rf.lastCommitIndex → Share l (h.log u)
      (w.nodes u).rf.lastCommitIndex)
    (hmoved : (w.nodes u).rf.lastCommitIndex < req.leaderCommit → min req.leaderCommit upTo ≤
      (w.nodes u).rf.lastApplied ∨ Share l m (min req.leaderCommit upTo))
    (hack : req.prevLogIndex + req.entries.length ≤ j ∨ Covered cluster h req.term
      (req.prevLogIndex + req.entries.length)) :
    StepSim cluster h ((h.setTerm u req.term).setLog u l (max (h.acked u req.term) j)) u (w.nodes u)
      { w.nodes u with rf := (rf₂.acceptAppendFrom req upTo).1 } [.appendResponse u req resp] := by
  have hfollow : RaftSim cluster (h.setTerm u req.term) u _ :=
    .follow req.leaderId hsim hu hle
  have hterm₁ : ((w.nodes u).rf.follow req.term req.leaderId).term = req.term :=
    follow_term req.leaderId hle
  have hcont₁ : Continues h (h.setTerm u req.term) :=
    .setTerm (by rw [(hsim.nodes u hu).term]; exact hle)
  have hgrow : (h.setTerm u req.term).acked u ((h.setTerm u req.term).term u) ≤
      max (h.acked u req.term) j := by
    rw [setTerm_term_self]
    exact le_max_left _ _
  have hcont := hcont₁.trans (.setLog (l := l) hgrow)
  have hset : RaftSim cluster _ u { (w.nodes u).rf.follow req.term req.leaderId with log } :=
    hfollow.setLog rfl hgrow (by rw [hbase, follow_log]) hlog (by
      rw [follow_lastApplied, follow_lastCommitIndex]
      exact hready)
  have hself : ((h.setTerm u req.term).setLog u l (max (h.acked u req.term) j)).log u = l := by
    simp [setLog]
  -- Persisting the new log changes nothing the history speaks about.
  obtain ⟨hraft₂, hterm₂, hvote₂, hstate₂, happlied₂, hcommit₂, hsaved₂⟩ :
      RaftSim cluster ((h.setTerm u req.term).setLog u l (max (h.acked u req.term) j)) u rf₂ ∧
        rf₂.term = req.term ∧
        rf₂.voteFor = ((w.nodes u).rf.follow req.term req.leaderId).voteFor ∧
        rf₂.state = .follower ∧ rf₂.lastApplied = (w.nodes u).rf.lastApplied ∧
        rf₂.lastCommitIndex = (w.nodes u).rf.lastCommitIndex ∧
        rf₂.persister.lastIndex = (w.nodes u).rf.persister.lastIndex := by
    have happlied := follow_lastApplied (w.nodes u).rf req.term req.leaderId
    have hcommit := follow_lastCommitIndex (w.nodes u).rf req.term req.leaderId
    have hsnapshot := follow_snapshot (w.nodes u).rf req.term req.leaderId
    obtain rfl | rfl := hrf₂
    · refine ⟨hset, hterm₁, rfl, rfl, happlied, hcommit, ?_⟩
      simp only [Persister.lastIndex, hsnapshot]
    refine ⟨hset.congr rfl rfl rfl rfl rfl rfl rfl rfl rfl, hterm₁, rfl, rfl, happlied, hcommit,
      ?_⟩
    simp only [persist, Persister.lastIndex, Persister.saveState_snapshot, hsnapshot]
  refine .following hsim hu hle hterm₂ hvote₂ hstate₂ hcont hinv rfl ?_ rfl ?_ ?_ ?_
  · intro v hv
    simp [setLog, setTerm, hv]
  · refine RaftSim.accept hinv hraft₂ hstate₂ hterm₂ (hcov.extend hcont.ext) hm ?_
    rw [hcommit₂, happlied₂, hself]
    exact hmoved
  · refine (hsim.items u hu).frame _ hcont ?_ ?_ ?_
    · change (w.nodes u).rf.term ≤ rf₂.term
      omega
    · exact le_of_eq happlied₂.symm
    · exact le_of_eq hsaved₂.symm
  intro msg hmsg
  rw [mem_singleton] at hmsg
  subst hmsg
  intro _
  obtain hack | hack := hack
  · refine .inl (le_trans hack ?_)
    simp [setLog, setTerm]
  · exact .inr (hack.extend hcont.ext)

variable {req : AppendEntriesRequest} {m : List Entry}

section

variable (hsim : Sim cluster h w) (hu : u ∈ cluster.members) (hle : (w.nodes u).rf.term ≤ req.term)
  (hm : h.leaderLog req.term = some m)

include hsim hu hle hm

lemma Sim.acknowledge (hshare : Share (h.log u) m j) :
    ((h.setTerm u req.term).setLog u (h.log u) (max (h.acked u req.term) j)).Inv Entry.term
      cluster.members := by
  have hinv := hsim.inv.setTerm (u := u) (t := req.term) (by rw [(hsim.nodes u hu).term]; exact hle)
  have hack := hinv.acknowledge (u := u) (m := m) (j := j) (by rw [setTerm_term_self]; exact hm) hshare
  rwa [setTerm_term_self] at hack

lemma Sim.takeOver (hj : j ≤ m.length)
    (hcut : (h.log u).length ≤ j ∨ ∃ k, k < j ∧ k < (h.log u).length ∧ (h.log u)[k]? ≠ m[k]?) :
    ((h.setTerm u req.term).setLog u (m.take j) (max (h.acked u req.term) j)).Inv Entry.term
      cluster.members := by
  have hinv := hsim.inv.setTerm (u := u) (t := req.term) (by rw [(hsim.nodes u hu).term]; exact hle)
  have haccept := hinv.accept (u := u) (m := m) (j := j) (by rw [setTerm_term_self]; exact hm) hj hcut
  rwa [setTerm_term_self] at haccept

end

variable {resp : AppendEntriesResponse}

section

variable (hsim : Sim cluster h w) (hu : u ∈ cluster.members) (hok : AppendOk cluster h req)
  (hle : (w.nodes u).rf.term ≤ req.term)

include hsim hu hok hle

lemma StepSim.belowBase
    (hskip : req.prevLogIndex + req.entries.length ≤ (w.nodes u).rf.log.base.index) :
    ∃ h', StepSim cluster h h' u (w.nodes u)
      { w.nodes u with rf := (((w.nodes u).rf.follow req.term req.leaderId).acceptAppendFrom req
        (w.nodes u).rf.log.base.index).1 } [.appendResponse u req resp] := by
  obtain ⟨hcov, m, hm, -⟩ := hok
  have hraft := hsim.nodes u hu
  have hbase := hraft.baseApplied
  refine ⟨_, .accepted hsim hu hle hcov hm (.inl ?_) rfl hraft.log
    (hsim.acknowledge hu hle hm (.zero _ _)) (fun hlt => .refl (hraft.ready hlt).le_length)
    (fun _ => .inl ?_) (.inr (hraft.applied.mono Continues.refl.ext hle ?_))⟩
  · rw [← follow_log (w.nodes u).rf req.term req.leaderId]
  all_goals omega

/-- A heartbeat that passes the check acknowledges the log up to the entry it names. -/
lemma StepSim.heartbeat (hentry : (w.nodes u).rf.log.logEntry req.prevLogIndex = some prevEntry)
    (hmatch : prevEntry.term = req.prevLogTerm) (hempty : req.entries = [])
    (hchecked : req.leaderCommit ≤ (w.nodes u).rf.lastCommitIndex ∨ min req.leaderCommit (w.nodes
      u).rf.log.lastLogIndex ≤ req.prevLogIndex) : ∃ h', StepSim cluster h h' u (w.nodes u)
      { w.nodes u with rf := (((w.nodes u).rf.follow req.term req.leaderId).acceptAppendFrom req
        (w.nodes u).rf.log.lastLogIndex).1 } [.appendResponse u req resp] := by
  obtain ⟨hcov, m, hm, hlen, hprev, -⟩ := hok
  have hraft := hsim.nodes u hu
  have hshare := hsim.share_matched hu hm (by omega) hprev hentry hmatch
  refine ⟨_, .accepted hsim hu hle hcov hm (.inl ?_) rfl hraft.log
    (hsim.acknowledge hu hle hm hshare) (fun hlt => .refl (hraft.ready hlt).le_length)
    (fun hlt => .inr (hshare.mono ?_)) (.inl ?_)⟩
  · rw [← follow_log (w.nodes u).rf req.term req.leaderId]
  · omega
  · rw [hempty]
    exact le_rfl

/-- Entries that pass the check leave the follower with the leader's log up to their end. -/
lemma StepSim.spliced (hbase : (w.nodes u).rf.log.base.index ≤ req.prevLogIndex)
    (hentry : (w.nodes u).rf.log.logEntry req.prevLogIndex = some prevEntry)
    (hmatch : prevEntry.term = req.prevLogTerm)
    (hlog : log = (w.nodes u).rf.log.spliceAfter ((w.nodes u).rf.log.logIndex req.prevLogIndex)
      req.entries)
    (hcut : (w.nodes u).rf.log.lastLogIndex ≤ req.prevLogIndex + req.entries.length ∨ (w.nodes
      u).rf.Conflicts req) : ∃ h', StepSim cluster h h' u (w.nodes u)
      { w.nodes u with
        rf := ((persist { (w.nodes u).rf.follow req.term req.leaderId with
          log }).acceptAppendFrom req log.lastLogIndex).1 } [.appendResponse u req resp] := by
  obtain ⟨hcov, m, hm, hlen, hprev, hentries⟩ := hok
  have hraft := hsim.nodes u hu
  have hshare := hsim.share_matched hu hm (by omega) hprev hentry hmatch
  have hsplice := AppendOk.splice hlen hentries hshare
  have hcut' : (h.log u).length ≤ req.prevLogIndex + req.entries.length ∨
      ∃ k, k < req.prevLogIndex + req.entries.length ∧ k < (h.log u).length ∧
        (h.log u)[k]? ≠ m[k]? := by
    rw [hraft.log.lastLogIndex] at hcut
    exact hcut.imp_right (hsim.conflict hu hm hentries hbase)
  have hrep : log.Represents (m.take (req.prevLogIndex + req.entries.length)) := by
    rw [hlog, ← hsplice]
    refine hraft.log.spliceAfter hbase hshare.1 fun k e he => ?_
    rw [hsplice] at he
    refine hsim.index _ m hm k e ?_
    rw [getElem?_take] at he
    split at he
    · exact he
    · cases he
  have hlast : log.lastLogIndex = req.prevLogIndex + req.entries.length := by
    rw [hrep.lastLogIndex, length_take]
    omega
  refine ⟨_, .accepted hsim hu hle hcov hm (.inr rfl) (by rw [hlog]; rfl) hrep
    (hsim.takeOver hu hle hm hlen hcut') (fun hlt => ?_) (fun _ => .inr ?_) (.inl le_rfl)⟩
  · -- What is still to be applied is committed, so the leader has it and the cut keeps it.
    have hleader := (hraft.ready hlt).share_leader hsim.inv hle hm
    have hkept := Share.le_of_cut hleader (.refl hleader.length_le_right) hcut'
    exact (Share.take_left hkept hleader.length_le_right).trans hleader.symm
  · rw [hlast]
    exact .take_left (Nat.min_le_right _ _) (by omega)

end

variable [DecidableEq σ] {machine : StateMachine σ}

lemma appendEntries_sim (hsim : Sim cluster h w) (hu : u ∈ cluster.members)
    (hsafe : (w.nodes u).rf.AppendSafe req)
    (hstep : (w.nodes u).step machine cluster w.net (.appendEntries req) = some (nd', out)) :
    ∃ h', StepSim cluster h h' u (w.nodes u) nd' out := by
  cases Node.stepped hstep with
  | appendEntries hmsg happend =>
  have hok : AppendOk cluster h req := hsim.net _ hmsg
  have hraft := hsim.nodes u hu
  rw [(hsim.election.nodes u hu).me]
  obtain ⟨rfl, hfail⟩ | ⟨hle, rf₁, rfl, houtcome⟩ := appendEntries_spec happend
  · refine ⟨h, .same hsim hu rfl rfl rfl hraft (hsim.items u hu) fun msg hmsg => ?_⟩
    rw [mem_singleton] at hmsg
    subst hmsg
    intro hsuccess
    rw [hfail] at hsuccess
    cases hsuccess
  obtain ⟨hskip, hcut, hchecked⟩ := hsafe hle
  obtain ⟨rfl, hfail⟩ | ⟨hbelow, rfl⟩ | ⟨prevEntry, hbase, hentry, hmatch, hentries⟩ := houtcome
  · refine ⟨_, .followed hsim hu hle rfl ?_ fun msg hmsg => ?_⟩
    · exact ItemsSim.follow req.leaderId hsim hu hle
    rw [mem_singleton] at hmsg
    subst hmsg
    intro hsuccess
    rw [hfail] at hsuccess
    cases hsuccess
  · exact StepSim.belowBase hsim hu hok hle (hskip hbelow)
  have hmatches : (w.nodes u).rf.Matches req := ⟨hbase, by rw [hentry, Option.map_some, hmatch]⟩
  obtain ⟨hempty, rfl⟩ | ⟨hsome, log, hlog, rfl⟩ := hentries
  · exact StepSim.heartbeat hsim hu hok hle hentry hmatch hempty (hchecked hmatches hempty)
  · exact StepSim.spliced hsim hu hok hle hbase hentry hmatch hlog (hcut hmatches hsome)

end stratum.raft
