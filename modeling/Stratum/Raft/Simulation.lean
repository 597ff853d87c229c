import Stratum.Lib.Consensus.Accept
import Stratum.Kvraft.FullLog
import Stratum.Raft.ElectionSafety

open stratum.lib stratum.kvraft

namespace stratum.raft

open Entry

/-- The history a run of the cluster leaves behind. -/
abbrev RunHistory := History NodeId Entry

variable {σ : Type} (cluster : Cluster) (h : RunHistory)

/-- Some leader of term `t` or earlier has chosen index `k`. -/
def Covered (t k : Nat) : Prop :=
  k = 0 ∨ ∃ c n m, h.Chosen Entry.term cluster.members c n m ∧ c ≤ t ∧ k ≤ n

/-- A committed entry at its own index. -/
def EntryOk (e : Entry) : Prop :=
  0 < e.index ∧ ∃ t l k, h.Committed Entry.term cluster.members t l k ∧ e.index ≤ k ∧
    l[e.index - 1]? = some e

/-- A vote request that describes the log its candidate stood with. -/
def RequestOk (req : RequestVoteRequest) : Prop :=
  req.term ≤ h.term req.candidateId ∧
    req.lastLogIndex = (h.standing req.candidateId req.term).length ∧
    req.lastLogTerm = History.lastTerm Entry.term (h.standing req.candidateId req.term)

/-- A call that carries a stretch of its term's leader's log. -/
def AppendOk (req : AppendEntriesRequest) : Prop :=
  Covered cluster h req.term req.leaderCommit ∧
    ∃ m, h.leaderLog req.term = some m ∧ req.prevLogIndex + req.entries.length ≤ m.length ∧
      req.prevLogTerm = termAt m req.prevLogIndex ∧
      ∀ i, i < req.entries.length → req.entries[i]? = m[req.prevLogIndex + i]?

/-- What a success promises: the peer acknowledged everything up to the end of the call,
or that stretch was chosen already. -/
def AckOk (p : NodeId) (req : AppendEntriesRequest) : Prop :=
  req.prevLogIndex + req.entries.length ≤ h.acked p req.term ∨
    Covered cluster h req.term (req.prevLogIndex + req.entries.length)

/-- A snapshot label that names a committed entry of a leader of term `bound` or earlier,
or the start of the log. -/
def SnapshotOk (bound i t : Nat) : Prop :=
  i = 0 ∨ ∃ s m, s ≤ bound ∧ h.leaderLog s = some m ∧
    h.Committed Entry.term cluster.members s m i ∧ t = termAt m i

def TransferOk (bound : Nat) : Transfer σ → Prop
  | .chosen _ i t => SnapshotOk cluster h bound i t
  | .copied _ i t _ => SnapshotOk cluster h bound i t
  | .loaded _ i t _ => SnapshotOk cluster h bound i t
  | .sent _ req => SnapshotOk cluster h bound req.lastIncludedIndex req.lastIncludedTerm

def ApplyMsgOk (bound lastApplied : Nat) : ApplyMsg σ → Prop
  | .entry _ => True
  | .snapshotRequest i => i ≤ lastApplied
  | .snapshot _ i t => SnapshotOk cluster h bound i t

def ApplyPcOk (lastApplied : Nat) : Raft.ApplyPc → Prop
  | .top => True
  | .inner => True
  | .sending entry => EntryOk cluster h entry
  | .requesting i => i ≤ lastApplied

def JobOk (lastApplied lastIndex : Nat) : SnapshotJob σ → Prop
  | .copied i _ => i ≤ lastApplied
  | .requested i _ => i ≤ lastApplied
  | .checked i _ => i ≤ lastApplied
  | .saved i => i ≤ lastApplied ∧ i ≤ lastIndex
  | .finished => True

def MsgOk : Msg σ → Prop
  | .requestVote _ req => RequestOk h req
  | .voteResponse _ _ _ => True
  | .appendEntries _ req => AppendOk cluster h req
  | .appendResponse p req resp => resp.success = true → AckOk cluster h p req
  | .installSnapshot _ req =>
    SnapshotOk cluster h req.term req.lastIncludedIndex req.lastIncludedTerm
  | .installResponse _ _ _ => True

/-- A consensus state agrees with the history: the trimmed log stands for the node's whole
log, a leader's log is its term's, what its books say of a peer was acknowledged or is
chosen, and whatever the apply loop may hand out is committed. -/
structure RaftSim (u : NodeId) (rf : Raft σ) : Prop where
  term : h.term u = rf.term
  log : rf.log.Represents (h.log u)
  leader : rf.state = .leader → h.leaderLog rf.term = some (h.log u) ∧
    (h.log u).length ≤ h.acked u rf.term
  matched : rf.state = .leader → ∀ p ∈ rf.peers, ∃ n, rf.matchIndex p = some n ∧
    (n ≤ h.acked p rf.term ∨ Covered cluster h rf.term n)
  candidate : rf.state = .candidate → 0 < rf.term ∧ (h.log u = h.standing u rf.term ∨
    ∃ l k, h.Committed Entry.term cluster.members rf.term l k ∧ (h.standing u rf.term).length < k)
  baseApplied : rf.log.base.index ≤ rf.lastApplied
  applied : Covered cluster h rf.term rf.lastApplied
  committed : Covered cluster h rf.term rf.lastCommitIndex
  ready : rf.lastApplied < rf.lastCommitIndex →
    h.Committed Entry.term cluster.members rf.term (h.log u) rf.lastCommitIndex
  baseSaved : rf.log.base.index ≤ rf.persister.lastIndex
  saved : Covered cluster h rf.term rf.persister.lastIndex
  guard : rf.persister.snapshotIndex = rf.persister.lastIndex

/-- The work a process has under way agrees with the history. -/
structure ItemsSim (nd : Node σ) : Prop where
  electing : ∀ req, nd.electing = some req → RequestOk h req
  calls : ∀ c ∈ nd.calls, AppendOk cluster h c.2
  transfers : ∀ t ∈ nd.transfers, TransferOk cluster h nd.rf.term t
  installs : ∀ inst ∈ nd.installs,
    SnapshotOk cluster h nd.rf.term inst.req.lastIncludedIndex inst.req.lastIncludedTerm
  applyCh : ∀ msg ∈ nd.applyCh, ApplyMsgOk cluster h nd.rf.term nd.rf.lastApplied msg
  applyPc : ApplyPcOk cluster h nd.rf.lastApplied nd.applyPc
  installing : ∀ i t, nd.installing = some (i, t) → SnapshotOk cluster h nd.rf.term i t ∧
    i ≤ nd.rf.persister.lastIndex
  jobs : ∀ job ∈ nd.jobs, JobOk nd.rf.lastApplied nd.rf.persister.lastIndex job
  history : ∀ e, ApplyMsg.entry e ∈ nd.history → EntryOk cluster h e

/-- The cluster follows the history. The winner of a term that has a leader's log is past
standing in it. -/
structure Sim (w : World σ) : Prop where
  election : ElectionInv cluster h.votes w
  inv : h.Inv Entry.term cluster.members
  won : ∀ t m, h.leaderLog t = some m → ∃ c ∈ cluster.members,
    h.votes.Won cluster.members c t ∧ t ≤ (w.nodes c).rf.term ∧
      ¬ ((w.nodes c).rf.state = .candidate ∧ (w.nodes c).rf.term = t)
  index : ∀ t m, h.leaderLog t = some m → ∀ k (e : Entry), m[k]? = some e → e.index = k + 1
  nodes : ∀ u ∈ cluster.members, RaftSim cluster h u (w.nodes u).rf
  items : ∀ u ∈ cluster.members, ItemsSim cluster h (w.nodes u)
  net : ∀ msg ∈ w.net, MsgOk cluster h msg

/-- One history continues another, and no log a candidate stood with is rewritten. -/
structure Continues (h h' : RunHistory) : Prop where
  ext : History.Extends Entry.term h h'
  standing : ∀ c t, t ≤ h.term c → h'.standing c t = h.standing c t

/-- What one step of process `u` has to show: a history that continues the old one, agrees
with the process after the step and with what it sent, and differs from the old one in
the process's own term, log and vote, and in a leader's log only where it leads. -/
structure StepSim (h' : RunHistory) (u : NodeId) (nd nd' : Node σ) (out : List (Msg σ)) : Prop where
  cont : Continues h h'
  inv : h'.Inv Entry.term cluster.members
  votes : h'.votes = h.votes.record u nd'.rf.term nd'.rf.voteFor
  others : ∀ v, v ≠ u → h'.term v = h.term v ∧ h'.log v = h.log v
  leaders : ∀ t, h'.leaderLog t = h.leaderLog t ∨ t = nd'.rf.term ∧ nd'.rf.state = .leader
  index : ∀ t m, h'.leaderLog t = some m → ∀ k (e : Entry), m[k]? = some e → e.index = k + 1
  past : nd'.rf.state = .candidate →
    nd.rf.state = .candidate ∧ nd'.rf.term = nd.rf.term ∨ nd.rf.term < nd'.rf.term
  node : RaftSim cluster h' u nd'.rf
  items : ItemsSim cluster h' nd'
  net : ∀ msg ∈ out, MsgOk cluster h' msg

variable {cluster h} {h' : RunHistory}

lemma Continues.refl : Continues h h :=
  ⟨.of_same (fun _ => le_rfl) rfl rfl, fun _ _ _ => rfl⟩

variable {a i t a' bound bound' : Nat} {req : AppendEntriesRequest}

lemma Covered.mono {t' k k' : Nat} (hcov : Covered cluster h t k) (hext : History.Extends term h h')
    (ht : t ≤ t') (hk : k' ≤ k) : Covered cluster h' t' k' := by
  obtain rfl | ⟨c, n, m, hchosen, hct, hkn⟩ := hcov
  · exact .inl (by omega)
  · obtain ⟨x, hx⟩ := hchosen.mono hext
    exact .inr ⟨c, n, m ++ x, hx, by omega, by omega⟩

lemma EntryOk.mono {e : Entry} (hok : EntryOk cluster h e)
    (hext : History.Extends term h h') : EntryOk cluster h' e := by
  obtain ⟨hpos, t, l, k, hcommitted, hk, he⟩ := hok
  exact ⟨hpos, t, l, k, hcommitted.extend hext, hk, he⟩

lemma RequestOk.mono {req : RequestVoteRequest} (hok : RequestOk h req)
    (hcont : Continues h h') : RequestOk h' req := by
  obtain ⟨hterm, hindex, hlast⟩ := hok
  rw [← hcont.standing _ _ hterm] at hindex hlast
  exact ⟨le_trans hterm (hcont.ext.term _), hindex, hlast⟩

lemma AppendOk.mono (hok : AppendOk cluster h req) (hext : History.Extends term h h') :
    AppendOk cluster h' req := by
  obtain ⟨hcov, m, hm, hlen, hprev, hentries⟩ := hok
  obtain ⟨x, hx, -⟩ := hext.leaderLog _ m hm
  have hshare : Share m (m ++ x) m.length := .append_right (.refl le_rfl) x
  refine ⟨hcov.mono hext le_rfl le_rfl, m ++ x, hx, ?_, ?_, fun i hi => ?_⟩
  · rw [List.length_append]
    omega
  · rw [hprev, termAt_of_share hshare (by omega)]
  · rw [hentries i hi, hshare.2 _ (by omega)]

lemma AckOk.mono {p : NodeId} (hok : AckOk cluster h p req)
    (hext : History.Extends term h h') : AckOk cluster h' p req := by
  obtain hacked | hcov := hok
  · exact .inl (le_trans hacked (hext.acked_le _ _))
  · exact .inr (hcov.mono hext le_rfl le_rfl)

section

variable (hok : SnapshotOk cluster h bound i t)

include hok

lemma SnapshotOk.mono (hext : History.Extends term h h') (hbound : bound ≤ bound') :
    SnapshotOk cluster h' bound' i t := by
  obtain rfl | ⟨s, m, hs, hm, hcommitted, hterm⟩ := hok
  · exact .inl rfl
  obtain ⟨x, hx, -⟩ := hext.leaderLog s m hm
  have hshare : Share (m ++ x) m i := .append_left (.refl hcommitted.le_length) x
  refine .inr ⟨s, m ++ x, by omega, hx, (hcommitted.extend hext).of_share hshare, ?_⟩
  rw [hterm, termAt_of_share hshare le_rfl]

lemma SnapshotOk.covered : Covered cluster h bound i := by
  obtain rfl | ⟨s, -, hs, -, ⟨c, n, m, hchosen, hct, hkn, -⟩, -⟩ := hok
  · exact .inl rfl
  · exact .inr ⟨c, n, m, hchosen, by omega, hkn⟩

end

lemma TransferOk.mono {t : Transfer σ} (hok : TransferOk cluster h bound t)
    (hext : History.Extends term h h') (hbound : bound ≤ bound') :
    TransferOk cluster h' bound' t := by
  cases t with
  | chosen | copied | loaded | sent => exact SnapshotOk.mono hok hext hbound

lemma ApplyMsgOk.mono {msg : ApplyMsg σ} (hok : ApplyMsgOk cluster h bound a msg)
    (hext : History.Extends term h h') (hbound : bound ≤ bound') (ha : a ≤ a') :
    ApplyMsgOk cluster h' bound' a' msg := by
  cases msg with
  | entry e => trivial
  | snapshotRequest i => exact le_trans hok ha
  | snapshot data i t => exact SnapshotOk.mono hok hext hbound

lemma ApplyPcOk.mono {pc : Raft.ApplyPc} (hok : ApplyPcOk cluster h a pc)
    (hext : History.Extends term h h') (ha : a ≤ a') : ApplyPcOk cluster h' a' pc := by
  cases pc with
  | top | inner => trivial
  | sending e => exact EntryOk.mono hok hext
  | requesting i => exact le_trans hok ha

lemma JobOk.mono {i' : Nat} {job : SnapshotJob σ} (hok : JobOk a i job) (ha : a ≤ a')
    (hi : i ≤ i') : JobOk a' i' job := by
  cases job with
  | copied | requested | checked => exact le_trans hok ha
  | saved j => exact ⟨le_trans hok.1 ha, le_trans hok.2 hi⟩
  | finished => trivial

lemma MsgOk.mono {msg : Msg σ} (hok : MsgOk cluster h msg) (hcont : Continues h h') :
    MsgOk cluster h' msg := by
  cases msg with
  | requestVote p req => exact RequestOk.mono hok hcont
  | voteResponse | installResponse => trivial
  | appendEntries p req => exact AppendOk.mono hok hcont.ext
  | appendResponse p req resp => exact fun hsuccess => (hok hsuccess).mono hcont.ext
  | installSnapshot p req => exact SnapshotOk.mono hok hcont.ext le_rfl

end stratum.raft
