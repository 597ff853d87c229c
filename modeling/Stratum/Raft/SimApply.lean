import Stratum.Raft.SimSnapshot

open stratum.lib stratum.kvstorage stratum.kvraft List

namespace stratum.raft

open Raft Node Persister

variable {σ : Type} {machine : StateMachine σ} {cluster : Cluster} {h h' : RunHistory} {u : NodeId}
  {w : World σ} {nd' : Node σ} {out : List (Msg σ)} {rf rf' : Raft σ}

lemma RaftSim.applyEntry (hraft : RaftSim cluster h u rf) {entry : Entry}
    (hlt : rf.lastApplied < rf.lastCommitIndex)
    (hentry : rf.log.logEntry (rf.lastApplied + 1) = some entry) : EntryOk cluster h entry ∧
      RaftSim cluster h u { rf with lastApplied := rf.lastApplied + 1 } := by
  have hbase := hraft.baseApplied
  have hindex := hraft.log.logEntry_index hentry
  rw [hraft.log.logEntry (by omega)] at hentry
  refine ⟨⟨by omega, rf.term, h.log u, rf.lastCommitIndex, hraft.ready hlt, by omega, ?_⟩, ?_⟩
  · rw [hindex]
    exact hentry
  exact ⟨hraft.term, hraft.log, hraft.leader, hraft.matched, hraft.candidate,
    Nat.le_succ_of_le hbase, hraft.committed.mono Continues.refl.ext le_rfl hlt,
    hraft.committed, fun _ => hraft.ready hlt, hraft.baseSaved, hraft.saved, hraft.guard⟩

lemma RaftSim.applyLoop {pc : Raft.ApplyPc} (hraft : RaftSim cluster h u rf)
    (hloop : rf.applyLoopTop = some (rf', pc) ∨ rf.applyLoopInner = some (rf', pc)) :
    RaftSim cluster h u rf' ∧ ApplyPcOk cluster h rf'.lastApplied pc ∧
      rf.lastApplied ≤ rf'.lastApplied ∧
      (rf'.term = rf.term ∧ rf'.voteFor = rf.voteFor ∧ rf'.state = rf.state ∧
        rf'.persister = rf.persister) := by
  obtain ⟨rfl, rfl⟩ | hinner := applyLoop_cases hraft.baseApplied hloop
  · exact ⟨hraft, trivial, le_rfl, rfl, rfl, rfl, rfl⟩
  obtain ⟨entry, hlt, hentry, rfl, rfl⟩ | ⟨-, rfl, rfl, -⟩ | ⟨rfl, rfl⟩ :=
    applyLoopInner_spec hinner
  · obtain ⟨hok, hnext⟩ := hraft.applyEntry hlt hentry
    exact ⟨hnext, hok, Nat.le_succ _, rfl, rfl, rfl, rfl⟩
  · exact ⟨hraft.congr rfl rfl rfl rfl rfl rfl rfl rfl rfl, le_refl rf.lastApplied,
      le_rfl, rfl, rfl, rfl, rfl⟩
  · exact ⟨hraft, trivial, le_rfl, rfl, rfl, rfl, rfl⟩

lemma applyStep_sim [DecidableEq σ] (hsim : Sim cluster h w) (hu : u ∈ cluster.members)
    (hstep : (w.nodes u).step machine cluster w.net .applyStep = some (nd', out)) :
    ∃ h', StepSim cluster h h' u (w.nodes u) nd' out := by
  have hraft := hsim.nodes u hu
  have hitems := hsim.items u hu
  cases stepped hstep with
  | applyLoop hloop =>
    obtain ⟨hnode, hpc, happlied, hterm, hvote, hstate, hpersister⟩ :=
      hraft.applyLoop (hloop.imp And.right And.right)
    have hframe := hitems.frame _ .refl (le_of_eq hterm.symm) happlied (by rw [hpersister])
    exact ⟨h, .same hsim hu hterm hvote hstate hnode { hframe with applyPc := hpc }
      fun msg hmsg => nomatch hmsg⟩
  | @sendEntry entry hpc =>
    have hok : EntryOk cluster h entry := by
      have := hitems.applyPc
      rwa [hpc] at this
    have hsend := hitems.send (.entry entry) trivial fun e he => by cases he; exact hok
    exact ⟨h, .same hsim hu rfl rfl rfl hraft { hsend with applyPc := trivial }
      fun msg hmsg => nomatch hmsg⟩
  | @requestSnapshot snapIndex hpc =>
    have hok : snapIndex ≤ (w.nodes u).rf.lastApplied := by
      have := hitems.applyPc
      rwa [hpc] at this
    have hsend := hitems.send (.snapshotRequest snapIndex) hok fun e he => nomatch he
    exact ⟨h, .same hsim hu rfl rfl rfl hraft { hsend with applyPc := trivial }
      fun msg hmsg => nomatch hmsg⟩

lemma RaftSim.saveSnapshot (hraft : RaftSim cluster h u rf) {i : Nat} (data : σ)
    (hcov : Covered cluster h rf.term i) : RaftSim cluster h u (rf.saveSnapshot data i) := by
  obtain ⟨hguard, hle, -, hlast⟩ := saveSnapshot_spec data i hraft.guard
  refine ⟨hraft.term, hraft.log, hraft.leader, hraft.matched, hraft.candidate, hraft.baseApplied,
    hraft.applied, hraft.committed, hraft.ready, le_trans hraft.baseSaved hle, ?_, hguard⟩
  change Covered cluster h rf.term (rf.persister.saveSnapshot data i).lastIndex
  obtain hlast | hlast := hlast
  · rw [hlast]
    exact hraft.saved
  · rw [hlast]
    exact hcov

lemma RaftSim.trimTo (hraft : RaftSim cluster h u rf) {i : Nat} (htrim : rf.trimTo i = some rf')
    (happlied : i ≤ rf.lastApplied) (hsaved : i ≤ rf.persister.lastIndex) :
    RaftSim cluster h u rf' := by
  obtain ⟨entry, hentry, rfl⟩ := trimTo_spec htrim
  obtain ⟨hbase, hlen, hterm⟩ := hraft.log.logEntry_term hentry
  exact ⟨hraft.term, hraft.log.compactAt hbase hlen hterm, hraft.leader, hraft.matched,
    hraft.candidate, happlied, hraft.applied, hraft.committed, hraft.ready, hsaved, hraft.saved,
    hraft.guard⟩

lemma consume_sim [DecidableEq σ] (hsim : Sim cluster h w) (hu : u ∈ cluster.members)
    (hstep : (w.nodes u).step machine cluster w.net .consume = some (nd', out)) :
    ∃ h', StepSim cluster h h' u (w.nodes u) nd' out := by
  cases stepped hstep with
  | @consume msg rest _ hch =>
  have hraft := hsim.nodes u hu
  have hitems := hsim.items u hu
  have hok := hitems.applyCh msg (by rw [hch]; exact mem_cons_self)
  have hrest : ∀ m ∈ rest, ApplyMsgOk cluster h (w.nodes u).rf.term (w.nodes u).rf.lastApplied m :=
    fun m hm => hitems.applyCh m (by rw [hch]; exact mem_cons_of_mem _ hm)
  have htransfers : ∀ t ∈ (handleMsg machine (w.nodes u) msg).transfers,
      TransferOk cluster h (w.nodes u).rf.term t :=
    forall_transfers_handleMsg hitems.transfers (fun _ _ _ _ _ hcopied => hcopied)
      (fun _ _ _ _ hcopied => hcopied) msg
  have hjobs : ∀ job ∈ (handleMsg machine (w.nodes u) msg).jobs,
      JobOk (w.nodes u).rf.lastApplied (w.nodes u).rf.persister.lastIndex job := by
    refine forall_jobs_handleMsg hitems.jobs (fun _ _ _ hcopied => hcopied)
      (fun _ _ hcopied => hcopied) ?_
    rintro i rfl
    dsimp only [JobOk]
    split
    · exact le_rfl
    · exact hok
  cases msg with
  | entry entry =>
    exact ⟨h, .same hsim hu rfl rfl rfl hraft
      { hitems with applyCh := hrest, transfers := htransfers, jobs := hjobs } nofun⟩
  | snapshotRequest snapshotIndex =>
    exact ⟨h, .same hsim hu rfl rfl rfl hraft { hitems with applyCh := hrest, jobs := hjobs }
      nofun⟩
  | snapshot data i t =>
    have hcov : Covered cluster h (w.nodes u).rf.term i := SnapshotOk.covered hok
    obtain ⟨-, hle, hreach, -⟩ := saveSnapshot_spec data i hraft.guard
    have hframe := hitems.frame ((w.nodes u).rf.saveSnapshot data i) .refl le_rfl le_rfl hle
    refine ⟨h, .same hsim hu rfl rfl rfl (hraft.saveSnapshot data hcov)
      { hframe with
        applyCh := hrest
        transfers := htransfers
        jobs := fun job hjob => (hjobs job hjob).mono le_rfl hle
        installing := fun i' t' hi' => ?_ } nofun⟩
    cases hi'
    exact ⟨hok, hreach⟩

variable [DecidableEq σ]

lemma jobStep_sim (hsim : Sim cluster h w) (hu : u ∈ cluster.members) {job : SnapshotJob σ}
    (hstep : (w.nodes u).step machine cluster w.net (.jobStep job) = some (nd', out)) :
    ∃ h', StepSim cluster h h' u (w.nodes u) nd' out := by
  have hraft := hsim.nodes u hu
  have hitems := hsim.items u hu
  -- Whatever the step, the other jobs stay and the new stage of this one replaces it.
  have hnext : ∀ {rf' : Raft σ} {next : SnapshotJob σ},
      ItemsSim cluster h { w.nodes u with rf := rf' } →
      JobOk rf'.lastApplied rf'.persister.lastIndex next →
      ItemsSim cluster h { w.nodes u with rf := rf', jobs := next :: (w.nodes u).jobs.erase job } := by
    intro rf' next hframe hnext
    refine { hframe with jobs := fun job' hjob' => ?_ }
    obtain rfl | hjob' := mem_cons.mp hjob'
    · exact hnext
    · exact hframe.jobs job' (mem_of_mem_erase hjob')
  cases stepped hstep with
  | encodeJob hjob =>
    have hok := hitems.jobs _ hjob
    exact ⟨h, .same hsim hu rfl rfl rfl hraft (hnext hitems hok) nofun⟩
  | checkJob hjob hstage =>
    have hok := hitems.jobs _ hjob
    refine ⟨h, .same hsim hu rfl rfl rfl hraft (hnext hitems ?_) nofun⟩
    obtain ⟨-, rfl⟩ | rfl := hstage
    · exact hok
    · trivial
  | @saveJob i data hjob =>
    have hok : i ≤ (w.nodes u).rf.lastApplied := hitems.jobs _ hjob
    have hcov : Covered cluster h (w.nodes u).rf.term i :=
      hraft.applied.mono Continues.refl.ext le_rfl hok
    obtain ⟨-, hle, hreach, -⟩ := saveSnapshot_spec data i hraft.guard
    have hframe := hitems.frame ((w.nodes u).rf.saveSnapshot data i) .refl le_rfl le_rfl hle
    exact ⟨h, .same hsim hu rfl rfl rfl (hraft.saveSnapshot data hcov) (hnext hframe ⟨hok, hreach⟩)
      nofun⟩
  | keepJob =>
    exact ⟨h, .same hsim hu rfl rfl rfl hraft (hnext hitems trivial) nofun⟩
  | trimJob hjob _ htrim =>
    have hok := hitems.jobs _ hjob
    have hnode := hraft.trimTo htrim hok.1 hok.2
    obtain ⟨entry, -, rfl⟩ := trimTo_spec htrim
    refine ⟨h, .same hsim hu rfl rfl rfl hnode (hnext ?_ trivial) nofun⟩
    exact hitems.frame _ .refl le_rfl le_rfl le_rfl
  | finishJob =>
    have hframe := hitems.frame (w.nodes u).rf.resetSnapshotting .refl le_rfl le_rfl le_rfl
    refine ⟨h, .same hsim hu rfl rfl rfl (hraft.congr rfl rfl rfl rfl rfl rfl rfl rfl rfl)
      { hframe with jobs := fun job hjob => ?_ } nofun⟩
    exact hframe.jobs job (mem_of_mem_erase hjob)

omit [DecidableEq σ] in
lemma Covered.max {t i j : Nat} (hi : Covered cluster h t i) (hj : Covered cluster h t j) :
    Covered cluster h t (max i j) := by
  obtain hle | hle := le_total i j
  · rwa [max_eq_right hle]
  · rwa [max_eq_left hle]

omit [DecidableEq σ] in
lemma RaftSim.raise (hraft : RaftSim cluster h u rf) {i : Nat} (hcov : Covered cluster h rf.term i) :
    RaftSim cluster h u
      { rf with
        lastApplied := max rf.lastApplied i
        lastCommitIndex := max rf.lastCommitIndex i } := by
  refine ⟨hraft.term, hraft.log, hraft.leader, hraft.matched, hraft.candidate,
    le_trans hraft.baseApplied (le_max_left _ _), hraft.applied.max hcov,
    hraft.committed.max hcov, fun hlt => ?_, hraft.baseSaved, hraft.saved, hraft.guard⟩
  change max rf.lastApplied i < max rf.lastCommitIndex i at hlt
  rw [max_eq_left (by omega)]
  exact hraft.ready (by omega)

omit [DecidableEq σ] in
/-- A log that ends before a committed index is replaced by the committed log up to it.
Only a follower or a candidate can be so far behind. -/
lemma RaftSim.restore (hinv : h.Inv Entry.term cluster.members) (hraft : RaftSim cluster h u rf)
    (hindex : ∀ t m, h.leaderLog t = some m → ∀ k (e : Entry), m[k]? = some e → e.index = k + 1)
    {s i t : Nat} {m : List Entry} (hs : s ≤ rf.term) (hm : h.leaderLog s = some m)
    (hcommitted : h.Committed Entry.term cluster.members s m i) (hterm : t = termAt m i)
    (hbeyond : (h.log u).length < i) (hsaved : i ≤ rf.persister.lastIndex) :
    RaftSim cluster (h.setLog u (m.take i) (h.acked u (h.term u))) u
      { rf with
        log := { base := { index := i, term := t, data := [] }, entries := [] }
        lastApplied := max rf.lastApplied i
        lastCommitIndex := max rf.lastCommitIndex i } := by
  have hlen := hcommitted.le_length
  have hcont : Continues h (h.setLog u (m.take i) (h.acked u (h.term u))) := .setLog le_rfl
  have hself : (h.setLog u (m.take i) (h.acked u (h.term u))).log u = m.take i := by
    simp [History.setLog]
  have hcov : Covered cluster h rf.term i := by
    obtain ⟨c, n, mc, hchosen, hct, hkn, -⟩ := hcommitted
    exact .inr ⟨c, n, mc, hchosen, by omega, hkn⟩
  have hleader : rf.state ≠ .leader := by
    intro hstate
    have hshare := hcommitted.share_leader hinv hs (hraft.leader hstate).1
    have := hshare.length_le_right
    omega
  refine ⟨hraft.term, ?_, fun hstate => absurd hstate hleader, fun hstate => absurd hstate hleader,
    fun hstate => ?_, le_max_right _ _, ?_, ?_, fun hlt => ?_, hsaved,
    hraft.saved.extend hcont.ext, hraft.guard⟩
  · rw [hself]
    refine .sentinel (by rw [length_take]; omega) ?_ fun k e he => ?_
    · rw [hterm]
      exact (termAt_of_share (.take_left le_rfl hlen) le_rfl).symm
    rw [getElem?_take] at he
    split at he
    · exact hindex s m hm k e he
    · cases he
  · -- The log it stood with ends before the index that is committed.
    obtain ⟨hpos, hlog⟩ := hraft.candidate hstate
    refine ⟨hpos, .inr ?_⟩
    obtain hstood | ⟨l, k, hcommitted', hk⟩ := hlog
    · refine ⟨m, i, (hcommitted.extend hcont.ext).mono hs le_rfl, ?_⟩
      change (h.standing u rf.term).length < i
      rwa [← hstood]
    · exact ⟨l, k, hcommitted'.extend hcont.ext, hk⟩
  · exact (hraft.applied.max hcov).extend hcont.ext
  · exact (hraft.committed.max hcov).extend hcont.ext
  change max rf.lastApplied i < max rf.lastCommitIndex i at hlt
  have := (hraft.ready (by omega)).le_length
  omega

lemma installDone_sim (hsim : Sim cluster h w) (hu : u ∈ cluster.members)
    (hstep : (w.nodes u).step machine cluster w.net .installDone = some (nd', out)) :
    ∃ h', StepSim cluster h h' u (w.nodes u) nd' out := by
  cases stepped hstep with
  | @installDone i t rf' hpending hdone =>
  have hraft := hsim.nodes u hu
  have hitems := hsim.items u hu
  obtain ⟨hok, hsaved⟩ := hitems.installing i t hpending
  have hraise := hraft.raise hok.covered
  have hframe : ∀ {rf' : Raft σ} {h' : RunHistory}, Continues h h' →
      rf'.term = (w.nodes u).rf.term → rf'.lastApplied = max (w.nodes u).rf.lastApplied i →
      rf'.persister.lastIndex = (w.nodes u).rf.persister.lastIndex →
      ItemsSim cluster h' { w.nodes u with rf := rf', installing := none } := by
    intro rf' h' hcont hterm happlied hlast
    have hframe := hitems.frame rf' hcont (le_of_eq hterm.symm)
      (by rw [happlied]; exact le_max_left _ _) (le_of_eq hlast.symm)
    exact { hframe with installing := nofun }
  obtain ⟨rf₁, rfl, ⟨-, rfl⟩ | ⟨hbeyond, rfl⟩ | ⟨rf₂, -, htrim, rfl⟩⟩ := installDone_spec hdone
  · exact ⟨h, .same hsim hu rfl rfl rfl hraise (hframe .refl rfl rfl rfl) nofun⟩
  · rw [hraft.log.lastLogIndex] at hbeyond
    obtain rfl | ⟨s, m, hs, hm, hcommitted, hterm⟩ := hok
    · exact absurd hbeyond (Nat.not_lt_zero _)
    have hnode := hraft.restore hsim.inv hsim.index hs hm hcommitted hterm hbeyond hsaved
    have hinv := hsim.inv.restore (u := u) (by rw [hraft.term]; exact hs) hm hbeyond hcommitted
    have hcont : Continues h (h.setLog u (m.take i) (h.acked u (h.term u))) :=
      .setLog le_rfl
    refine ⟨_, hcont, hinv, ?_, fun v hv => ?_, fun t => .inl rfl, hsim.index, fun hstate => ?_,
      hnode.congr rfl rfl rfl rfl rfl rfl rfl rfl rfl, hframe hcont rfl rfl rfl,
      nofun⟩
    · exact (Votes.record_eq_self (hsim.election.nodes u hu).current).symm
    · simp [History.setLog, hv]
    · exact .inl ⟨hstate, rfl⟩
  · have hnode := hraise.trimTo htrim (le_max_right _ _) hsaved
    obtain ⟨entry, -, rfl⟩ := trimTo_spec htrim
    exact ⟨h, .same hsim hu rfl rfl rfl (hnode.congr rfl rfl rfl rfl rfl rfl rfl rfl rfl)
      (hframe .refl rfl rfl rfl) nofun⟩

omit [DecidableEq σ] in
/-- A process that starts on the files of one that agreed with the history agrees with
it: the saved snapshot is committed and reaches the base of the saved log. -/
lemma RaftSim.boot (hraft : RaftSim cluster h u rf) (hcont : Continues h h')
    (hlog : h'.log u = h.log u) (hterm : h'.term u = rf'.term) (hle : rf.term ≤ rf'.term)
    (hsaved : rf'.Saved) (hlog' : rf'.log = rf.log)
    (hsnapshot : rf'.persister.snapshot = rf.persister.snapshot) (id : NodeId)
    (peers : List NodeId) (maxLogLength : Nat) :
    RaftSim cluster h' u (.newRaft id peers rf'.persister maxLogLength) := by
  have hload : rf'.persister.loadState = { term := rf'.term, voteFor := rf'.voteFor, log := rf'.log } :=
    hsaved
  have hlast : rf'.persister.lastIndex = rf.persister.lastIndex := by
    simp only [lastIndex, hsnapshot]
  have hcov : Covered cluster h' rf'.term rf'.persister.lastIndex := by
    rw [hlast]
    exact hraft.saved.mono hcont.ext hle le_rfl
  have hbase : rf'.log.base.index ≤ rf'.persister.lastIndex := by
    rw [hlog', hlast]
    exact hraft.baseSaved
  refine ⟨?_, ?_, fun hstate => ?_, fun hstate => ?_, fun hstate => ?_, ?_, ?_, ?_, fun hlt => ?_, ?_, ?_, rfl⟩
  · simp only [newRaft, hload, hterm]
  · simp only [newRaft, hload, hlog, hlog']
    exact hraft.log
  · cases hstate
  · cases hstate
  · cases hstate
  · simpa only [newRaft, hload] using hbase
  · simpa only [newRaft, hload] using hcov
  · simpa only [newRaft, hload] using hcov
  · exact absurd hlt (lt_irrefl _)
  · simpa only [newRaft, hload, reopen_lastIndex] using hbase
  · simpa only [newRaft, hload, reopen_lastIndex] using hcov

end stratum.raft
