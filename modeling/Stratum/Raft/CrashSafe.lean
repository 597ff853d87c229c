import Stratum.Raft.StreamSafety

open stratum.lib stratum.kvstorage stratum.kvraft List

namespace stratum.raft

open Node Raft World

variable {σ : Type}

/-- The commands a message brings the consumer: an entry its own, a snapshot all those up
to its index. -/
def Brings : ApplyMsg σ → Nat → Prop
  | .entry e, n => e.index = n
  | .snapshotRequest _, _ => False
  | .snapshot _ i _, n => n ≤ i

/-- No command above `first` and up to `last` is missing from the messages. -/
def Delivered (msgs : List (ApplyMsg σ)) (first last : Nat) : Prop :=
  ∀ n, first < n → n ≤ last → ∃ msg ∈ msgs, Brings msg n

section

variable {msgs more : List (ApplyMsg σ)} {first last i : Nat}

namespace Delivered

lemma none : Delivered msgs first first := by
  intro n hfirst hlast
  omega

lemma mono (hdelivered : Delivered msgs first last) (hmore : msgs ⊆ more) :
    Delivered more first last := by
  intro n hfirst hlast
  obtain ⟨msg, hmsg, hbrings⟩ := hdelivered n hfirst hlast
  exact ⟨msg, hmore hmsg, hbrings⟩

lemma max (hlast : Delivered msgs first last) (hi : Delivered msgs first i) :
    Delivered msgs first (max last i) := by
  intro n hfirst hle
  obtain hle | hle := le_max_iff.mp hle
  · exact hlast n hfirst hle
  · exact hi n hfirst hle

lemma of_snapshot {data : σ} {t : Nat} (hmsg : ApplyMsg.snapshot data i t ∈ msgs) :
    Delivered msgs first i := fun _ _ hle => ⟨_, hmsg, hle⟩

lemma next {e : Entry} (hlast : Delivered msgs first last) (he : e.index = last + 1) :
    Delivered (msgs ++ [ApplyMsg.entry e]) first (last + 1) := by
  intro n hfirst hle
  obtain hle | rfl := Nat.le_succ_iff.mp hle
  · exact hlast.mono (subset_append_left _ _) n hfirst hle
  · exact ⟨_, mem_append_right _ (mem_singleton_self _), he⟩

end Delivered

end

/-- The entry the apply loop has taken from the log and not sent yet. -/
def Node.holding (nd : Node σ) : List (ApplyMsg σ) :=
  match nd.applyPc with
  | .sending e => [.entry e]
  | _ => []

/-- A label the apply loop froze: it is applied, and no command up to it is missing from
what was sent before. -/
structure Labelled (msgs : List (ApplyMsg σ)) (bootIndex lastApplied r : Nat) : Prop where
  pos : 0 < r
  applied : r ≤ lastApplied
  delivered : Delivered msgs bootIndex r

/-- A local snapshot covers what the consumer had processed when it copied the state; once
it is written, the file reaches its label. -/
def JobLabelled (consumed : List (ApplyMsg σ)) (bootIndex lastApplied lastIndex : Nat) :
    SnapshotJob σ → Prop
  | .copied i _ | .requested i _ | .checked i _ => Labelled consumed bootIndex lastApplied i
  | .saved i => i ≤ lastApplied ∧ i ≤ lastIndex
  | .finished => True

def PcLabelled (sent : List (ApplyMsg σ)) (bootIndex lastApplied : Nat) : Raft.ApplyPc → Prop
  | .top => True
  | .inner | .sending _ => 0 < lastApplied
  | .requesting r => Labelled sent bootIndex lastApplied r

/-- The books of one process on what its files and its consumer cover: the log never
starts beyond the snapshot file, and the file never claims a command that the consumer
was not given before the state was copied. -/
structure CompactInv (nd : Node σ) : Prop where
  guard : nd.rf.persister.snapshotIndex = nd.rf.persister.lastIndex
  baseSaved : nd.rf.log.base.index ≤ nd.rf.persister.lastIndex
  baseApplied : nd.rf.log.base.index ≤ nd.rf.lastApplied
  threshold : 0 < nd.rf.maxLogLength
  file : Delivered nd.consumed nd.bootIndex nd.rf.persister.lastIndex
  applied : Delivered (nd.sent ++ nd.holding) nd.bootIndex nd.rf.lastApplied
  requests : ∀ before r after, nd.sent = before ++ .snapshotRequest r :: after →
    Labelled before nd.bootIndex nd.rf.lastApplied r
  pc : PcLabelled nd.sent nd.bootIndex nd.rf.lastApplied nd.applyPc
  jobs : ∀ job ∈ nd.jobs,
    JobLabelled nd.consumed nd.bootIndex nd.rf.lastApplied nd.rf.persister.lastIndex job
  installing : ∀ i t, nd.installing = some (i, t) →
    i ≤ nd.rf.persister.lastIndex ∧ Delivered nd.consumed nd.bootIndex i

variable {job : SnapshotJob σ} {pc : Raft.ApplyPc} {rf' : Raft σ} {machine : StateMachine σ}
  {cluster : Cluster}

section

variable {msgs more : List (ApplyMsg σ)} {bootIndex lastApplied lastApplied' lastIndex lastIndex' r : Nat}

lemma Labelled.mono (hlabel : Labelled msgs bootIndex lastApplied r) (hmore : msgs ⊆ more)
    (hle : lastApplied ≤ lastApplied') : Labelled more bootIndex lastApplied' r :=
  ⟨hlabel.pos, le_trans hlabel.applied hle, hlabel.delivered.mono hmore⟩

lemma JobLabelled.mono (hjob : JobLabelled msgs bootIndex lastApplied lastIndex job)
    (hmore : msgs ⊆ more) (happlied : lastApplied ≤ lastApplied')
    (hsaved : lastIndex ≤ lastIndex') : JobLabelled more bootIndex lastApplied' lastIndex' job := by
  cases job with
  | copied | requested | checked => exact Labelled.mono hjob hmore happlied
  | saved i => exact ⟨le_trans hjob.1 happlied, le_trans hjob.2 hsaved⟩
  | finished => trivial

lemma PcLabelled.mono (hpc : PcLabelled msgs bootIndex lastApplied pc) (hmore : msgs ⊆ more)
    (hle : lastApplied ≤ lastApplied') : PcLabelled more bootIndex lastApplied' pc := by
  cases pc with
  | top => trivial
  | inner | sending => exact lt_of_lt_of_le hpc hle
  | requesting i => exact Labelled.mono hpc hmore hle

end

variable {nd nd' : Node σ} {net out : List (Msg σ)}

lemma CompactInv.frame (hinv : CompactInv nd) (hframe : NodeFrame nd nd') : CompactInv nd' := by
  have hsent : nd'.sent = nd.sent := by rw [sent, hframe.consumed, hframe.applyCh, sent]
  have hholding : nd'.holding = nd.holding := by rw [holding, hframe.applyPc, holding]
  have happlied := hframe.rf.lastApplied
  have hbase := hframe.rf.base
  have hlast := hframe.rf.lastIndex
  have hboot := hframe.bootIndex
  constructor
  · rw [hframe.rf.snapshotIndex, hlast]
    exact hinv.guard
  · rw [hbase, hlast]
    exact hinv.baseSaved
  · rw [hbase, happlied]
    exact hinv.baseApplied
  · rw [hframe.rf.maxLogLength]
    exact hinv.threshold
  · rw [hframe.consumed, hboot, hlast]
    exact hinv.file
  · rw [hsent, hholding, hboot, happlied]
    exact hinv.applied
  · rw [hsent, hboot, happlied]
    exact hinv.requests
  · rw [hsent, hboot, happlied, hframe.applyPc]
    exact hinv.pc
  · rw [hframe.jobs, hframe.consumed, hboot, happlied, hlast]
    exact hinv.jobs
  · rw [hframe.installing, hlast, hframe.consumed, hboot]
    exact hinv.installing

lemma CompactInv.send (msg : ApplyMsg σ) (pc : Raft.ApplyPc) (hinv : CompactInv nd)
    (hrequest : ∀ r, msg = .snapshotRequest r → Labelled nd.sent nd.bootIndex nd.rf.lastApplied r)
    (happlied : Delivered (nd.sent ++ [msg] ++ ({ nd with applyPc := pc } : Node σ).holding)
      nd.bootIndex nd.rf.lastApplied)
    (hpc : PcLabelled (nd.sent ++ [msg]) nd.bootIndex nd.rf.lastApplied pc) :
    CompactInv { nd with
      applyCh := nd.applyCh ++ [msg], history := nd.history ++ [msg], applyPc := pc } := by
  refine { hinv with applied := ?_, requests := fun before r after hsplit => ?_, pc := ?_ }
  · rw [nd.sent_send]
    exact happlied
  · rw [nd.sent_send] at hsplit
    -- the request is the new message, or one that was there before
    obtain rfl | ⟨after', last, rfl⟩ := after.eq_nil_or_concat
    · obtain ⟨rfl, hmsg⟩ := append_inj' hsplit rfl
      exact hrequest r (singleton_inj.mp hmsg)
    · rw [concat_eq_append, ← cons_append, ← append_assoc] at hsplit
      exact hinv.requests before r after' (append_inj' hsplit rfl).1
  · rw [nd.sent_send]
    exact hpc

section

variable (hinv : CompactInv nd)

include hinv

namespace CompactInv

lemma handOff [DecidableEq σ] {inst : PendingInstall σ}
    (hstep : nd.step machine cluster net (.handOff inst) = some (nd', out)) : CompactInv nd' := by
  cases stepped hstep with
  | handOff _ hmsg =>
  subst hmsg
  refine (hinv.send (.snapshot inst.req.data inst.req.lastIncludedIndex inst.req.lastIncludedTerm)
    nd.applyPc (fun r hr => ?_) (hinv.applied.mono ?_)
    (hinv.pc.mono (subset_append_left _ _) le_rfl)).frame (.of_rest (.refl _) rfl)
  · cases hr
  · exact append_subset.mpr ⟨fun m hm => mem_append_left _ (mem_append_left _ hm),
      subset_append_right _ _⟩

lemma pick {entry : Entry} (hlog : nd.rf.log.Indexed) (hholding : nd.holding = [])
    (hentry : nd.rf.log.logEntry (nd.rf.lastApplied + 1) = some entry) :
    CompactInv { nd with
      rf := { nd.rf with lastApplied := nd.rf.lastApplied + 1 }, applyPc := .sending entry } := by
  have happlied := hinv.applied
  rw [hholding, append_nil] at happlied
  exact { hinv with
    baseApplied := Nat.le_succ_of_le hinv.baseApplied
    applied := happlied.next (hlog.logEntry hentry)
    requests := fun before r after hsplit =>
      (hinv.requests before r after hsplit).mono (List.Subset.refl _) (Nat.le_succ _)
    pc := Nat.succ_pos _
    jobs := fun job hjob =>
      (hinv.jobs job hjob).mono (List.Subset.refl _) (Nat.le_succ _) le_rfl }

lemma idle (hholding : nd.holding = []) : CompactInv { nd with applyPc := .top } := by
  have happlied := hinv.applied
  rw [hholding] at happlied
  exact { hinv with applied := happlied, pc := trivial }

lemma request (hholding : nd.holding = []) (hlong : nd.rf.maxLogLength < nd.rf.log.length)
    (hpos : nd.rf.log.lastLogIndex ≤ nd.rf.lastApplied ∨ 0 < nd.rf.lastApplied) :
    CompactInv { nd with
      rf := { nd.rf with snapshotting := true }, applyPc := .requesting nd.rf.lastApplied } := by
  have happlied := hinv.applied
  have hthreshold := hinv.threshold
  have hlast : nd.rf.log.lastLogIndex + 1 = nd.rf.log.base.index + nd.rf.log.length := by
    rw [Log.lastLogIndex_eq, Log.length]
    omega
  rw [hholding] at happlied
  refine { hinv with applied := happlied, pc := ⟨by omega, le_rfl, ?_⟩ }
  rwa [append_nil] at happlied

/-- A locked stretch of the apply loop. The base of the log is applied, so the loop never
jumps to it. -/
lemma loop (hlog : nd.rf.log.Indexed)
    (hloop : nd.applyPc = .top ∧ nd.rf.applyLoopTop = some (rf', pc) ∨ nd.applyPc = .inner ∧
      nd.rf.applyLoopInner = some (rf', pc)) : CompactInv { nd with rf := rf', applyPc := pc } := by
  obtain ⟨htop, hloop⟩ | ⟨hinner, hloop⟩ := hloop
  · have hholding : nd.holding = [] := by rw [holding, htop]
    unfold applyLoopTop at hloop
    split at hloop
    · cases hloop
      exact hinv.idle hholding
    rw [if_neg (not_lt.mpr hinv.baseApplied)] at hloop
    obtain ⟨entry, -, hentry, rfl, rfl⟩ | ⟨hlong, rfl, rfl, hdone⟩ | ⟨rfl, rfl⟩ :=
      applyLoopInner_spec hloop
    · exact hinv.pick hlog hholding hentry
    · exact hinv.request hholding hlong (.inl (by omega))
    · exact hinv.idle hholding
  · have hholding : nd.holding = [] := by rw [holding, hinner]
    have hpos := hinv.pc
    rw [hinner] at hpos
    obtain ⟨entry, -, hentry, rfl, rfl⟩ | ⟨hlong, rfl, rfl, -⟩ | ⟨rfl, rfl⟩ :=
      applyLoopInner_spec hloop
    · exact hinv.pick hlog hholding hentry
    · exact hinv.request hholding hlong (.inr hpos)
    · exact hinv.idle hholding

lemma applyStep [DecidableEq σ] (hlog : nd.rf.log.Indexed)
    (hstep : nd.step machine cluster net .applyStep = some (nd', out)) : CompactInv nd' := by
  have happlied := hinv.applied
  have hpc := hinv.pc
  cases stepped hstep with
  | applyLoop hloop => exact hinv.loop hlog hloop
  | sendEntry hsending =>
    rw [holding, hsending] at happlied
    rw [hsending] at hpc
    refine hinv.send (.entry _) .inner (fun r hr => ?_) ?_ hpc
    · cases hr
    · exact happlied.mono (subset_append_left _ _)
  | requestSnapshot hrequesting =>
    rw [holding, hrequesting, append_nil] at happlied
    rw [hrequesting] at hpc
    refine hinv.send (.snapshotRequest _) .top (fun r' hr => ?_) ?_ trivial
    · cases hr
      exact hpc
    · rw [append_assoc]
      exact happlied.mono (subset_append_left _ _)

end CompactInv

end

namespace CompactInv

lemma saveSnapshot (data : σ) {i : Nat} (hinv : CompactInv nd)
    (hcovered : Delivered nd.consumed nd.bootIndex i) :
    CompactInv { nd with rf := nd.rf.saveSnapshot data i } ∧
      i ≤ (nd.rf.saveSnapshot data i).persister.lastIndex := by
  obtain ⟨hguard, hle, hreach, hindex⟩ := Persister.saveSnapshot_spec data i hinv.guard
  refine ⟨{ hinv with
    guard := hguard
    baseSaved := le_trans hinv.baseSaved hle
    file := ?_
    jobs := fun job hjob => (hinv.jobs job hjob).mono (List.Subset.refl _) le_rfl hle
    installing := fun i' t' hpending => (hinv.installing i' t' hpending).imp_left (le_trans · hle) },
    hreach⟩
  change Delivered nd.consumed nd.bootIndex (nd.rf.persister.saveSnapshot data i).lastIndex
  obtain hsame | hnew := hindex
  · rw [hsame]
    exact hinv.file
  · rw [hnew]
    exact hcovered

lemma taken {msg : ApplyMsg σ} {rest : List (ApplyMsg σ)} (hinv : CompactInv nd)
    (hch : nd.applyCh = msg :: rest) :
    CompactInv { nd with applyCh := rest, consumed := nd.consumed ++ [msg] } := by
  have hsent : ({ nd with applyCh := rest, consumed := nd.consumed ++ [msg] } : Node σ).sent =
      nd.sent := by
    rw [sent, sent, hch, append_assoc]
    rfl
  have hmore : nd.consumed ⊆ nd.consumed ++ [msg] := subset_append_left _ _
  refine { hinv with
    file := hinv.file.mono hmore
    applied := ?_
    requests := ?_
    pc := ?_
    jobs := fun job hjob => (hinv.jobs job hjob).mono hmore le_rfl le_rfl
    installing := fun i t hpending =>
      (hinv.installing i t hpending).imp_right (Delivered.mono · hmore) }
  · rw [hsent]
    exact hinv.applied
  · rw [hsent]
    exact hinv.requests
  · rw [hsent]
    exact hinv.pc

lemma consume [DecidableEq σ] (hinv : CompactInv nd)
    (hstep : nd.step machine cluster net .consume = some (nd', out)) : CompactInv nd' := by
  cases stepped hstep with
  | @consume msg rest _ hch =>
  have htaken := hinv.taken hch
  have hjobs : ∀ job ∈ (handleMsg machine nd msg).jobs,
      JobLabelled (nd.consumed ++ [msg]) nd.bootIndex nd.rf.lastApplied
        nd.rf.persister.lastIndex job := by
    have hkeep : ∀ job ∈ nd.jobs, JobLabelled (nd.consumed ++ [msg]) nd.bootIndex
      nd.rf.lastApplied nd.rf.persister.lastIndex job := htaken.jobs
    refine forall_jobs_handleMsg hkeep (fun _ _ _ hcopied => hcopied)
      (fun _ _ hcopied => hcopied) ?_
    rintro r rfl
    have hlabel := hinv.requests nd.consumed r rest (by rw [sent, hch])
    rw [if_neg (Nat.ne_of_gt hlabel.pos)]
    exact hlabel.mono (subset_append_left _ _) le_rfl
  cases msg with
  | entry e => exact { htaken with jobs := hjobs }
  | snapshotRequest r => exact { htaken with jobs := hjobs }
  | snapshot data i t =>
    have hcovered : Delivered (nd.consumed ++ [ApplyMsg.snapshot data i t]) nd.bootIndex i :=
      .of_snapshot (mem_append_right _ (mem_singleton_self _))
    obtain ⟨-, hle, -, -⟩ := Persister.saveSnapshot_spec data i hinv.guard
    obtain ⟨hsaved, hreach⟩ := htaken.saveSnapshot data hcovered
    refine { hsaved with
      jobs := fun job hjob => (hjobs job hjob).mono (List.Subset.refl _) le_rfl hle
      installing := fun i' t' hpending => ?_ }
    cases hpending
    exact ⟨hreach, hcovered⟩

lemma trimTo {i : Nat} (hinv : CompactInv nd) (htrim : nd.rf.trimTo i = some rf')
    (happlied : i ≤ nd.rf.lastApplied) (hsaved : i ≤ nd.rf.persister.lastIndex) :
    CompactInv { nd with rf := rf' } := by
  obtain ⟨entry, -, rfl⟩ := trimTo_spec htrim
  exact { hinv with baseSaved := hsaved, baseApplied := happlied }

lemma jobStep [DecidableEq σ] (hinv : CompactInv nd)
    (hstep : nd.step machine cluster net (.jobStep job) = some (nd', out)) : CompactInv nd' := by
  have hnext : ∀ {rf' : Raft σ} {next : SnapshotJob σ}, CompactInv { nd with rf := rf' } →
      JobLabelled nd.consumed nd.bootIndex rf'.lastApplied rf'.persister.lastIndex next →
      CompactInv { nd with rf := rf', jobs := next :: nd.jobs.erase job } := by
    intro rf' next hrf' hnext
    refine { hrf' with jobs := fun job' hjob' => ?_ }
    obtain rfl | hjob' := mem_cons.mp hjob'
    · exact hnext
    · exact hrf'.jobs job' (mem_of_mem_erase hjob')
  cases stepped hstep with
  | encodeJob hjob =>
    have hlabelled := hinv.jobs _ hjob
    exact hnext hinv hlabelled
  | checkJob hjob hstage =>
    have hlabelled := hinv.jobs _ hjob
    obtain ⟨-, rfl⟩ | rfl := hstage
    · exact hnext hinv hlabelled
    · exact hnext hinv trivial
  | saveJob hjob =>
    have hlabelled := hinv.jobs _ hjob
    obtain ⟨hsaved, hreach⟩ := hinv.saveSnapshot _ hlabelled.delivered
    exact hnext hsaved ⟨hlabelled.applied, hreach⟩
  | keepJob => exact hnext hinv trivial
  | trimJob hjob _ htrim =>
    have hlabelled := hinv.jobs _ hjob
    exact hnext (hinv.trimTo htrim hlabelled.1 hlabelled.2) trivial
  | finishJob =>
    exact { hinv with jobs := fun job' hjob' => hinv.jobs job' (mem_of_mem_erase hjob') }

lemma installDone [DecidableEq σ] (hinv : CompactInv nd)
    (hstep : nd.step machine cluster net .installDone = some (nd', out)) : CompactInv nd' := by
  cases stepped hstep with
  | @installDone i t rf' hpending hdone =>
  obtain ⟨hsaved, hcovered⟩ := hinv.installing i t hpending
  have hconsumed : nd.consumed ⊆ nd.sent ++ nd.holding :=
    fun msg hmsg => mem_append_left _ (mem_append_left _ hmsg)
  have hle : nd.rf.lastApplied ≤ max nd.rf.lastApplied i := le_max_left _ _
  have hraised : CompactInv { nd with
      rf := { nd.rf with
        lastApplied := max nd.rf.lastApplied i
        lastCommitIndex := max nd.rf.lastCommitIndex i } } :=
    { hinv with
      baseApplied := le_trans hinv.baseApplied hle
      applied := hinv.applied.max (hcovered.mono hconsumed)
      requests := fun before r after hsplit =>
        (hinv.requests before r after hsplit).mono (List.Subset.refl _) hle
      pc := hinv.pc.mono (List.Subset.refl _) hle
      jobs := fun job hjob =>
        (hinv.jobs job hjob).mono (List.Subset.refl _) hle le_rfl }
  obtain ⟨rf₁, rfl, ⟨-, rfl⟩ | ⟨-, rfl⟩ | ⟨rf₂, -, htrim, rfl⟩⟩ := installDone_spec hdone
  · refine { hraised with installing := fun i' t' hnone => ?_ }
    cases hnone
  · refine { hraised with
      baseSaved := hsaved
      baseApplied := le_max_right _ _
      installing := fun i' t' hnone => ?_ }
    cases hnone
  · have htrimmed := hraised.trimTo htrim (le_max_right _ _) hsaved
    refine { htrimmed with installing := fun i' t' hnone => ?_ }
    cases hnone

lemma booted {id : NodeId} {persister : Persister σ} {history : List (ApplyMsg σ)}
    (hbase : persister.loadState.log.base.index ≤ persister.lastIndex) :
    CompactInv (.boot machine cluster id persister history) where
  guard := rfl
  baseSaved := hbase
  baseApplied := hbase
  threshold := cluster.maxLogLength_pos
  file := .none
  applied := .none
  requests := by
    intro before r after hsplit
    cases before with
    | nil | cons => cases hsplit
  pc := trivial
  jobs := by
    intro job hjob
    cases hjob
  installing := by
    intro i t hpending
    cases hpending

lemma restart (hinv : CompactInv nd) (hsaved : rf'.Saved) (hlog : rf'.log = nd.rf.log)
    (hsnapshot : rf'.persister.snapshot = nd.rf.persister.snapshot) :
    CompactInv (({ nd with rf := rf' } : Node σ).restart machine cluster) := by
  have hload : rf'.persister.loadState.log = rf'.log := congrArg PersistState.log hsaved
  refine .booted ?_
  rw [hload, hlog, Persister.lastIndex, hsnapshot]
  exact hinv.baseSaved

end CompactInv

variable [DecidableEq σ] {machine : StateMachine σ} {cluster : Cluster} {w : World σ} {u : NodeId}

lemma CompactInv.step {act : Action σ} (hinv : CompactInv (w.nodes u))
    (hindex : IndexInv cluster w) (hu : u ∈ cluster.members) (hsaved : (w.nodes u).rf.Saved)
    (hstep : (w.nodes u).step machine cluster w.net act = some (nd', out)) : CompactInv nd' := by
  cases hside : act.applySide with
  | false => exact hinv.frame (step_frame hindex.calls hside hstep)
  | true =>
  cases act with
  | handOff inst => exact hinv.handOff hstep
  | applyStep => exact hinv.applyStep (hindex.logs u hu) hstep
  | consume => exact hinv.consume hstep
  | installDone => exact hinv.installDone hstep
  | jobStep job => exact hinv.jobStep hstep
  | restart | crashInHandler =>
    obtain ⟨rf', hkept, hlog, hsnapshot, rfl⟩ := crash_inv rfl hstep
    exact hinv.restart (hkept hsaved) hlog hsnapshot
  | _ => cases hside

lemma CompactInv.reachable
    (hreach : Reachable (World.step machine cluster) (.init machine cluster) w)
    (hu : u ∈ cluster.members) : CompactInv (w.nodes u) := by
  refine hreach.invariant (fun w => CompactInv (w.nodes u)) ?_ ?_
  · exact .booted le_rfl
  rintro w w' ⟨v, act⟩ hreach hinv - hstep
  obtain ⟨nd', out, hv, hnode, rfl⟩ := step_inv hstep
  obtain ⟨votes, helection⟩ := ElectionInv.reachable hreach
  by_cases huv : u = v
  · subst huv
    simp only [Function.update_self]
    exact hinv.step (IndexInv.reachable hreach) hu (helection.nodes u hu).saved hnode
  · simp only [Function.update_of_ne huv]
    exact hinv

/-- Crash-safe compaction: whenever a node dies, between whichever two of its writes, the
snapshot file reaches the base of the log file, and the node comes back with exactly the
snapshot applied. No command is skipped on the way: the file claims none that the
consumer was not given before the state was copied, and the apply loop passes none by
without giving it to the consumer. -/
theorem compaction_crash_safe
    (hreach : Reachable (World.step machine cluster) (.init machine cluster) w)
    (hu : u ∈ cluster.members) :
    (w.nodes u).rf.persister.loadState.log.base.index ≤ (w.nodes u).rf.persister.lastIndex ∧
      ((w.nodes u).restart machine cluster).rf.lastApplied = (w.nodes u).rf.persister.lastIndex ∧
      ((w.nodes u).restart machine cluster).bootIndex = (w.nodes u).rf.persister.lastIndex ∧
      Delivered (w.nodes u).consumed (w.nodes u).bootIndex (w.nodes u).rf.persister.lastIndex ∧
      Delivered ((w.nodes u).sent ++ (w.nodes u).holding) (w.nodes u).bootIndex
        (w.nodes u).rf.lastApplied := by
  have hinv := CompactInv.reachable hreach hu
  obtain ⟨votes, helection⟩ := ElectionInv.reachable hreach
  have hsaved := (helection.nodes u hu).saved
  have hload : (w.nodes u).rf.persister.loadState.log = (w.nodes u).rf.log :=
    congrArg PersistState.log hsaved
  refine ⟨?_, rfl, rfl, hinv.file, hinv.applied⟩
  rw [hload]
  exact hinv.baseSaved

/-- A node that dies after its snapshot is written and before its log is trimmed. -/
theorem compaction_crash_safe_untrimmed :
    ∃ w : World Nat, Reachable (World.step counter shortLogs) (.init counter shortLogs) w ∧
      (w.nodes 1).rf.persister.lastIndex = 2 ∧ (w.nodes 1).rf.log.base.index = 0 ∧
      (w.nodes 1).rf.persister.loadState.log.base.index ≤ (w.nodes 1).rf.persister.lastIndex ∧
      ((w.nodes 1).restart counter shortLogs).rf.lastApplied = (w.nodes 1).rf.persister.lastIndex ∧
      ((w.nodes 1).restart counter shortLogs).bootIndex = (w.nodes 1).rf.persister.lastIndex ∧
      Delivered (w.nodes 1).consumed (w.nodes 1).bootIndex (w.nodes 1).rf.persister.lastIndex ∧
      Delivered ((w.nodes 1).sent ++ (w.nodes 1).holding) (w.nodes 1).bootIndex
        (w.nodes 1).rf.lastApplied := by
  obtain ⟨w, hreach, hlast, hbase⟩ : ∃ w,
      Reachable (World.step counter shortLogs) (.init counter shortLogs) w ∧
        (w.nodes 1).rf.persister.lastIndex = 2 ∧ (w.nodes 1).rf.log.base.index = 0 :=
    Reach.exists_decide (compactRun.take 25) (by decide +kernel)
  exact ⟨w, hreach, hlast, hbase, compaction_crash_safe hreach (by decide)⟩

end stratum.raft
