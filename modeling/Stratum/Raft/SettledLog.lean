import Stratum.Raft.FollowerLog

open stratum.lib stratum.kvstorage stratum.kvraft List Option

namespace stratum.kvraft

variable {N : Type} {h : History N Entry} {a b : Log} {l m : List Entry} {n : Nat}

namespace Log

variable (ha : a.Represents l) (hb : b.Represents m)

include ha hb

lemma Represents.share (hl : h.Sound Entry.term l) (hm : h.Sound Entry.term m) {e f : Entry}
    (he : a.logEntry n = some e) (hf : b.logEntry n = some f) (hterm : e.term = f.term) :
    Share l m n := by
  obtain ⟨-, hnl, hte⟩ := ha.logEntry_term he
  obtain ⟨-, hnm, htf⟩ := hb.logEntry_term hf
  exact raft.share_of_termAt hl hm hnl hnm (hte.symm.trans (hterm.trans htf))

lemma Represents.agreesBelow (hshare : Share l m n) : a.AgreesBelow b n := by
  intro i hi e f he hf
  obtain ⟨-, -, hte⟩ := ha.logEntry_term he
  obtain ⟨-, -, htf⟩ := hb.logEntry_term hf
  refine ⟨by rw [hte, htf, termAt_of_share hshare hi], fun hlta hltb => ?_⟩
  rw [ha.logEntry hlta] at he
  rw [hb.logEntry hltb] at hf
  rw [hshare.2 (i - 1) (by omega), hf] at he
  exact (some.inj he).symm

end Log

end stratum.kvraft

namespace stratum.raft

variable {σ : Type}

/-- The first `k` entries of the node's whole log are committed by its term. -/
def Settled (cluster : Cluster) (h : RunHistory) (u : NodeId) (rf : Raft σ) (k : Nat) : Prop :=
  k = 0 ∨ h.Committed Entry.term cluster.members rf.term (h.log u) k

def PcSettled (C : Nat → Prop) (lastApplied : Nat) : Raft.ApplyPc → Prop
  | .top => True
  | .inner | .sending _ => C lastApplied
  | .requesting r => C r

def JobSettled (C : Nat → Prop) : SnapshotJob σ → Prop
  | .copied i _ | .requested i _ | .checked i _ | .saved i => C i
  | .finished => True

/-- Wherever a process cuts its log, or is about to, the log is settled up to there. The
applied index itself need not be: a process that died with a received snapshot on disk
starts with that snapshot's index over its old log. -/
structure SettledInv (C : Nat → Prop) (nd : Node σ) : Prop where
  base : C nd.rf.log.base.index
  pc : PcSettled C nd.rf.lastApplied nd.applyPc
  requests : ∀ r, .snapshotRequest r ∈ nd.applyCh → C r
  jobs : ∀ job ∈ nd.jobs, JobSettled C job

variable {machine : StateMachine σ} {cluster : Cluster} {net : List (Msg σ)} {t : Nat}

section

variable {C C' : Nat → Prop} {nd nd' : Node σ} {out : List (Msg σ)}

section

variable (hinv : SettledInv C nd)

include hinv

namespace SettledInv

lemma mono (himp : ∀ k, C k → C' k) : SettledInv C' nd := by
  refine ⟨himp _ hinv.base, ?_, fun r hr => himp r (hinv.requests r hr), fun job hjob => ?_⟩
  · have hpc := hinv.pc
    cases hat : nd.applyPc with
    | top => trivial
    | inner | sending | requesting =>
      rw [hat] at hpc
      exact himp _ hpc
  · have hsettled := hinv.jobs job hjob
    cases job with
    | copied | requested | checked | saved => exact himp _ hsettled
    | finished => trivial

lemma frame (hframe : NodeFrame nd nd') : SettledInv C nd' := by
  constructor
  · rw [hframe.rf.base]
    exact hinv.base
  · rw [hframe.rf.lastApplied, hframe.applyPc]
    exact hinv.pc
  · rw [hframe.applyCh]
    exact hinv.requests
  · rw [hframe.jobs]
    exact hinv.jobs

/-- A locked stretch of the apply loop: it starts only below the commit index, up to which
the log is settled. -/
lemma loop {rf' : Raft σ} {pc : Raft.ApplyPc}
    (hbase : nd.rf.log.base.index ≤ nd.rf.lastApplied)
    (hready : nd.rf.lastApplied < nd.rf.lastCommitIndex → ∀ k, k ≤ nd.rf.lastCommitIndex → C k)
    (hloop : nd.applyPc = .top ∧ nd.rf.applyLoopTop = some (rf', pc) ∨
      nd.applyPc = .inner ∧ nd.rf.applyLoopInner = some (rf', pc)) :
    SettledInv C { nd with rf := rf', applyPc := pc } := by
  have hinner : C nd.rf.lastApplied → nd.rf.applyLoopInner = some (rf', pc) →
      SettledInv C { nd with rf := rf', applyPc := pc } := by
    intro happlied hloop
    obtain ⟨entry, hlt, -, rfl, rfl⟩ | ⟨-, rfl, rfl, -⟩ | ⟨rfl, rfl⟩ :=
      Raft.applyLoopInner_spec hloop
    · exact { hinv with pc := hready hlt _ hlt }
    · exact { hinv with pc := happlied }
    · exact { hinv with pc := trivial }
  obtain ⟨-, hloop⟩ | ⟨hat, hloop⟩ := hloop
  · unfold Raft.applyLoopTop at hloop
    split at hloop
    · cases hloop
      exact { hinv with pc := trivial }
    · rw [if_neg (not_lt.mpr hbase)] at hloop
      exact hinner (hready (by omega) _ (by omega)) hloop
  · have happlied := hinv.pc
    rw [hat] at happlied
    exact hinner happlied hloop

lemma applyStep [DecidableEq σ] (hbase : nd.rf.log.base.index ≤ nd.rf.lastApplied)
    (hready : nd.rf.lastApplied < nd.rf.lastCommitIndex → ∀ k, k ≤ nd.rf.lastCommitIndex → C k)
    (hstep : nd.step machine cluster net .applyStep = some (nd', out)) : SettledInv C nd' := by
  have hpc := hinv.pc
  cases Node.stepped hstep with
  | applyLoop hloop => exact hinv.loop hbase hready hloop
  | sendEntry hsending =>
    rw [hsending] at hpc
    refine { hinv with pc := hpc, requests := fun r hr => ?_ }
    obtain hr | hr := mem_append.mp hr
    · exact hinv.requests r hr
    · cases mem_singleton.mp hr
  | requestSnapshot hrequesting =>
    rw [hrequesting] at hpc
    refine { hinv with pc := trivial, requests := fun r' hr => ?_ }
    obtain hr | hr := mem_append.mp hr
    · exact hinv.requests r' hr
    · cases mem_singleton.mp hr
      exact hpc

lemma consume [DecidableEq σ] (hcompact : CompactInv nd)
    (hstep : nd.step machine cluster net .consume = some (nd', out)) : SettledInv C nd' := by
  cases Node.stepped hstep with
  | @consume msg rest _ hch =>
  have hrest : ∀ r, .snapshotRequest r ∈ rest → C r := by
    intro r hr
    refine hinv.requests r ?_
    rw [hch]
    exact mem_cons_of_mem _ hr
  have hjobs : ∀ job ∈ (Node.handleMsg machine nd msg).jobs, JobSettled C job := by
    refine Node.forall_jobs_handleMsg hinv.jobs (fun _ _ _ hcopied => hcopied)
      (fun _ _ hcopied => hcopied) ?_
    rintro r rfl
    have hlabel := hcompact.requests nd.consumed r rest (by rw [Node.sent, hch])
    rw [if_neg (Nat.ne_of_gt hlabel.pos)]
    refine hinv.requests r ?_
    rw [hch]
    exact mem_cons_self
  cases msg with
  | entry | snapshotRequest | snapshot => exact { hinv with requests := hrest, jobs := hjobs }

lemma jobStep [DecidableEq σ] {job : SnapshotJob σ}
    (hstep : nd.step machine cluster net (.jobStep job) = some (nd', out)) : SettledInv C nd' := by
  have hnext : ∀ {next : SnapshotJob σ}, JobSettled C next →
      ∀ job' ∈ next :: nd.jobs.erase job, JobSettled C job' := by
    intro next hnext job' hjob'
    obtain rfl | hjob' := mem_cons.mp hjob'
    · exact hnext
    · exact hinv.jobs job' (mem_of_mem_erase hjob')
  cases Node.stepped hstep with
  | encodeJob hjob =>
    have hsettled := hinv.jobs _ hjob
    exact { hinv with jobs := hnext hsettled }
  | checkJob hjob hstage =>
    have hsettled := hinv.jobs _ hjob
    obtain ⟨-, rfl⟩ | rfl := hstage
    · exact { hinv with jobs := hnext hsettled }
    · exact { hinv with jobs := hnext trivial }
  | saveJob hjob =>
    have hsettled := hinv.jobs _ hjob
    exact { hinv with jobs := hnext hsettled }
  | keepJob => exact { hinv with jobs := hnext trivial }
  | trimJob hjob _ htrim =>
    have hsettled := hinv.jobs _ hjob
    obtain ⟨entry, -, rfl⟩ := Raft.trimTo_spec htrim
    exact { hinv with base := hsettled, jobs := hnext trivial }
  | finishJob =>
    exact { hinv with jobs := fun job' hjob' => hinv.jobs job' (mem_of_mem_erase hjob') }

end SettledInv

end

lemma SettledInv.booted {cluster : Cluster} {id : NodeId} {persister : Persister σ}
    {history : List (ApplyMsg σ)} (hbase : C persister.loadState.log.base.index) :
    SettledInv C (.boot machine cluster id persister history) where
  base := hbase
  pc := trivial
  requests := by
    intro r hr
    cases hr
  jobs := by
    intro job hjob
    cases hjob

end

variable {cluster : Cluster} {h h' : RunHistory} {u : NodeId} {w : World σ} {rf rf' : Raft σ}
  {nd' : Node σ} {out : List (Msg σ)} {act : Action σ} {j k : Nat}

lemma Settled.le (hk : Settled cluster h u rf k) (hj : j ≤ k) : Settled cluster h u rf j := by
  obtain rfl | hk := hk
  · exact .inl (by omega)
  · exact .inr (hk.mono le_rfl hj)

lemma Settled.share_leader (hk : Settled cluster h u rf k) (hinv : h.Inv Entry.term cluster.members)
    {m : List Entry} (hterm : rf.term ≤ t) (hm : h.leaderLog t = some m) : Share (h.log u) m k := by
  obtain rfl | hk := hk
  · exact .zero _ _
  · exact hk.share_leader hinv hterm hm

/-- A log whose slot at `i` has a committed label's term is settled up to it. -/
lemma Settled.of_label (hinv : h.Inv Entry.term cluster.members)
    (hlog : rf.log.Represents (h.log u)) {i bound : Nat} {e : Entry}
    (hok : SnapshotOk cluster h bound i t) (hbound : bound ≤ rf.term)
    (he : rf.log.logEntry i = some e) (hterm : e.term = t) : Settled cluster h u rf i := by
  obtain rfl | ⟨s, m, hs, hm, hcommitted, rfl⟩ := hok
  · exact .inl rfl
  obtain ⟨-, hlen, hte⟩ := hlog.logEntry_term he
  have hshare := share_of_termAt (hinv.sound u) (hinv.soundLeader s m hm) hlen
    hcommitted.le_length (hte.symm.trans hterm)
  exact .inr ((hcommitted.of_share hshare).mono (le_trans hs hbound) le_rfl)

lemma exists_slot (hlog : rf.log.Represents (h.log u)) (hk : k ≤ (h.log u).length) :
    ∃ e, rf.log.logEntry (max k rf.log.base.index) = some e := by
  refine isSome_iff_exists.mp ((rf.log.logEntry_isSome_iff _).mpr ⟨le_max_right _ _, ?_⟩)
  rw [hlog.lastLogIndex]
  exact Nat.max_le.mpr ⟨hk, hlog.base_le⟩

/-- A safe call leaves what is committed in place: a slot at or above it has the same term
after the splice. -/
lemma spliced_slot (hsim : Sim cluster h w) (hu : u ∈ cluster.members)
    {req : AppendEntriesRequest} (hok : AppendOk cluster h req)
    (hterm : (w.nodes u).rf.term ≤ req.term) (hmatch : (w.nodes u).rf.Matches req)
    (hcut : (w.nodes u).rf.log.lastLogIndex ≤ req.prevLogIndex + req.entries.length ∨
      (w.nodes u).rf.Conflicts req)
    (hk : h.Committed Entry.term cluster.members (w.nodes u).rf.term (h.log u) k) :
    ∃ n e, k ≤ n ∧ (w.nodes u).rf.log.logEntry n = some e ∧
      ((w.nodes u).rf.log.spliceAfter ((w.nodes u).rf.log.logIndex req.prevLogIndex)
        req.entries).logEntry n = some e := by
  have hlog := (hsim.nodes u hu).log
  obtain ⟨hbase, hentry⟩ := hmatch
  obtain ⟨prevEntry, hprev, -⟩ := map_eq_some_iff.mp hentry
  have hlast := ((Log.logEntry_isSome_iff _ _).mp (by rw [hprev]; rfl)).2
  obtain ⟨e, he⟩ := exists_slot hlog hk.le_length
  by_cases hle : max k (w.nodes u).rf.log.base.index ≤ req.prevLogIndex
  · refine ⟨_, e, le_max_left _ _, he, ?_⟩
    rw [Log.logEntry_spliceAfter_le _ hbase hlast hle]
    exact he
  -- the leader holds what is committed, so the call carries it
  obtain ⟨-, m, hm, -, -, hentries⟩ := hok
  have hleader := hk.share_leader hsim.inv hterm hm
  rw [hlog.lastLogIndex] at hcut
  have hkept := Share.le_of_cut hleader (.refl hleader.length_le_right)
    (hcut.imp_right (hsim.conflict hu hm hentries hbase))
  have hmax : max k (w.nodes u).rf.log.base.index = k := by omega
  rw [hmax] at he hle
  obtain ⟨i, rfl⟩ : ∃ i, k = req.prevLogIndex + i + 1 := ⟨k - req.prevLogIndex - 1, by omega⟩
  refine ⟨_, e, le_rfl, he, ?_⟩
  rw [hlog.logEntry (by omega), Nat.add_sub_cancel, hleader.2 _ (Nat.lt_succ_self _)] at he
  rw [Log.logEntry_spliceAfter_add _ hbase hlast, hentries i (by omega), he]

/-- A step that meets its condition keeps the settled part of the process's log. -/
lemma Settled.share_step [DecidableEq σ] (hsim : Sim cluster h w) (hu : u ∈ cluster.members)
    (hsafe : SafeStep w (u, act))
    (hstep : (w.nodes u).step machine cluster w.net act = some (nd', out))
    (hmatch : StepSim cluster h h' u (w.nodes u) nd' out)
    (hk : h.Committed Entry.term cluster.members (w.nodes u).rf.term (h.log u) k) :
    Share (h'.log u) (h.log u) k := by
  have hlog := (hsim.nodes u hu).log
  have hlog' := hmatch.node.log
  have hlen := hk.le_length
  have hsound := (hsim.inv.sound u).mono hmatch.cont.ext
  have hslot : ∀ n e f, k ≤ n → (w.nodes u).rf.log.logEntry n = some e →
      nd'.rf.log.logEntry n = some f → f.term = e.term → Share (h'.log u) (h.log u) k := by
    intro n e f hn he hf hterm
    exact (hlog'.share hlog (hmatch.inv.sound u) hsound hf he hterm).mono hn
  obtain ⟨e, he⟩ := exists_slot hlog hlen
  cases (Node.step_log (hsim.election.nodes u hu).saved hstep).1 with
  | same hsame =>
    refine hslot _ e e (le_max_left _ _) he ?_ rfl
    rw [hsame]
    exact he
  | appended data hstate hpush =>
    refine hslot _ e e (le_max_left _ _) he ?_ rfl
    rw [hpush, Log.logEntry_push _ ((Log.logEntry_isSome_iff _ _).mp (by rw [he]; rfl)).2]
    exact he
  | spliced req hact hmsg hterm hmatches hsome hstate hsplice =>
    subst hact
    obtain ⟨n, e, hn, he, hf⟩ := spliced_slot hsim hu (hsim.net _ hmsg) hterm hmatches
      ((hsafe hterm).2.1 hmatches hsome) hk
    refine hslot n e e hn he ?_ rfl
    rw [hsplice]
    exact hf
  | trimmed i entry hcause hbase hentry htrim =>
    obtain hle | hlt := lt_or_ge i k |>.symm
    · refine hslot i entry nd'.rf.log.base hle hentry ?_ (by rw [htrim]; rfl)
      have hheld := Log.logEntry_base nd'.rf.log
      rwa [show nd'.rf.log.base.index = i by rw [htrim]; rfl] at hheld
    have hmax : max k (w.nodes u).rf.log.base.index = k := by omega
    rw [hmax] at he
    refine hslot k e e le_rfl he ?_ rfl
    rw [htrim, Log.logEntry_compactAt _ (le_of_lt hbase) hlt]
    exact he
  | installed i t hact hpending hbeyond hinstall =>
    -- the snapshot is committed beyond the end of the log, so it agrees with what is settled
    rw [hlog.lastLogIndex] at hbeyond
    obtain hzero | ⟨s, m, -, hm, hcommitted, hterm⟩ := ((hsim.items u hu).installing i t hpending).1
    · omega
    have hbase := hlog'.base_term
    have hbaseLe := hlog'.base_le
    have hmlen := hcommitted.le_length
    rw [hinstall] at hbase hbaseLe
    have hnew : Share (h'.log u) m i := by
      refine share_of_termAt (hmatch.inv.sound u) ((hsim.inv.soundLeader s m hm).mono
        hmatch.cont.ext) hbaseLe hmlen ?_
      rw [← hterm]
      exact hbase.symm
    have hold : Share m (h.log u) k :=
      ⟨by omega, fun n hn => hcommitted.agree hsim.inv hk (by omega) hn⟩
    exact (hnew.mono (by omega)).trans hold

lemma Settled.step [DecidableEq σ] (hsim : Sim cluster h w) (hu : u ∈ cluster.members)
    (hsafe : SafeStep w (u, act))
    (hstep : (w.nodes u).step machine cluster w.net act = some (nd', out))
    (hmatch : StepSim cluster h h' u (w.nodes u) nd' out)
    (hk : Settled cluster h u (w.nodes u).rf k) : Settled cluster h' u nd'.rf k := by
  obtain rfl | hk := hk
  · exact .inl rfl
  have hterm := (Node.step_change (hsim.election.nodes u hu).saved hstep).2.term
  have hshare := Settled.share_step hsim hu hsafe hstep hmatch hk
  exact .inr (((hk.extend hmatch.cont.ext).of_share hshare).mono hterm le_rfl)

lemma Settled.other (hmatch : StepSim cluster h h' u (w.nodes u) nd' out) {v : NodeId}
    (hv : v ≠ u) (hk : Settled cluster h v rf k) : Settled cluster h' v rf k := by
  refine hk.imp_right fun hk => ?_
  rw [(hmatch.others v hv).2]
  exact hk.extend hmatch.cont.ext

/-- A reported snapshot that fits the log leaves it settled up to the snapshot's index. -/
lemma Settled.installed [DecidableEq σ] (hsim : Sim cluster h w) (hu : u ∈ cluster.members)
    (hstep : (w.nodes u).step machine cluster w.net .installDone = some (nd', out))
    (hmatch : StepSim cluster h h' u (w.nodes u) nd' out) {i : Nat}
    (hpending : (w.nodes u).installing = some (i, t)) (hbase : (w.nodes u).rf.log.base.index < i)
    (hfits : (w.nodes u).rf.SnapshotFits i t) : Settled cluster h' u nd'.rf i := by
  have hterm := (Node.step_change (hsim.election.nodes u hu).saved hstep).2.term
  cases Node.stepped hstep with
  | @installDone _ _ rf' hpending' hdone =>
  rw [hpending] at hpending'
  cases hpending'
  obtain ⟨rf₁, hdone', -, -, -, hlog⟩ := Raft.installDone_above (t := t) hbase
  rw [hdone] at hdone'
  cases hdone'
  have hnew : rf'.log.base = { index := i, term := t, data := [] } := by
    obtain ⟨-, hlog⟩ | ⟨entry, hentry, hlog⟩ := hlog
    · rw [hlog]
    have hlast := ((Log.logEntry_isSome_iff _ i).mp (by rw [hentry]; rfl)).2
    have hheld := hfits.resolve_left (not_lt.mpr hlast)
    rw [hentry] at hheld
    obtain rfl : entry.term = t := some.inj hheld
    rw [hlog]
    rfl
  have hok := ((hsim.items u hu).installing i t hpending).1.mono hmatch.cont.ext le_rfl
  have hheld := Log.logEntry_base rf'.log
  rw [hnew] at hheld
  exact Settled.of_label hmatch.inv hmatch.node.log hok hterm hheld rfl

/-- A step that meets its condition, with a reported snapshot that fits, keeps the process's
cuts inside the settled part of its log. -/
lemma SettledInv.step [DecidableEq σ] (hsim : Sim cluster h w) (hu : u ∈ cluster.members)
    (hcalls : CallsIndexed w.net) (hcompact : CompactInv (w.nodes u)) (hsafe : SafeStep w (u, act))
    (hfits : act = .installDone → ∀ i t, (w.nodes u).installing = some (i, t) → (w.nodes
      u).rf.log.base.index < i → (w.nodes u).rf.SnapshotFits i t)
    (hstep : (w.nodes u).step machine cluster w.net act = some (nd', out))
    (hmatch : StepSim cluster h h' u (w.nodes u) nd' out)
    (hinv : SettledInv (Settled cluster h u (w.nodes u).rf) (w.nodes u)) :
    SettledInv (Settled cluster h' u nd'.rf) nd' := by
  have hraft := hsim.nodes u hu
  have hsaved := (hsim.election.nodes u hu).saved
  have hkept := hinv.mono fun k hk => Settled.step hsim hu hsafe hstep hmatch hk
  cases hside : act.applySide with
  | false => exact hkept.frame (Node.step_frame hcalls hside hstep)
  | true =>
  cases act with
  | handOff inst =>
    cases Node.stepped hstep with
    | handOff _ hmsg =>
    subst hmsg
    refine { hkept with requests := fun r hr => ?_ }
    obtain hr | hr := mem_append.mp hr
    · exact hkept.requests r hr
    · cases mem_singleton.mp hr
  | applyStep =>
    refine hkept.applyStep hraft.baseApplied (fun hlt k hk => ?_) hstep
    refine Settled.step hsim hu hsafe hstep hmatch ?_
    exact Settled.le (.inr (hraft.ready hlt)) hk
  | consume => exact hkept.consume hcompact hstep
  | jobStep job => exact hkept.jobStep hstep
  | installDone =>
    cases Node.stepped hstep with
    | @installDone i t rf' hpending hdone =>
    have hsettled : Settled cluster h' u rf' (max (w.nodes u).rf.log.base.index i) := by
      obtain hle | hlt := lt_or_ge (w.nodes u).rf.log.base.index i |>.symm
      · rw [max_eq_left hle]
        exact hkept.base
      · rw [max_eq_right (le_of_lt hlt)]
        exact Settled.installed hsim hu hstep hmatch hpending hlt (hfits rfl i t hpending hlt)
    have hnew : rf'.log.base.index ≤ max (w.nodes u).rf.log.base.index i ∧
        rf'.lastApplied = max (w.nodes u).rf.lastApplied i := by
      obtain ⟨rf₁, rfl, ⟨-, rfl⟩ | ⟨-, rfl⟩ | ⟨rf₂, -, htrim, rfl⟩⟩ := Raft.installDone_spec hdone
      · exact ⟨le_max_left _ _, rfl⟩
      · exact ⟨le_max_right _ _, rfl⟩
      · obtain ⟨entry, -, rfl⟩ := Raft.trimTo_spec htrim
        exact ⟨le_max_right _ _, rfl⟩
    have hraised : ∀ {n : Nat}, Settled cluster h' u rf' n →
        Settled cluster h' u rf' (max n i) := by
      intro n hn
      obtain hle | hlt := lt_or_ge n i |>.symm
      · rwa [max_eq_left hle]
      · rw [max_eq_right (le_of_lt hlt)]
        exact hsettled.le (le_max_right _ _)
    refine { hkept with base := hsettled.le hnew.1, pc := ?_ }
    have hpc := hkept.pc
    rw [hnew.2]
    cases hat : (w.nodes u).applyPc with
    | top => trivial
    | inner | sending =>
      rw [hat] at hpc
      exact hraised hpc
    | requesting r =>
      rw [hat] at hpc
      exact hpc
  | restart | crashInHandler =>
    obtain ⟨rf', hsaved', hlog, -, rfl⟩ := Node.crash_inv rfl hstep
    refine .booted ?_
    rw [hsaved' hsaved, hlog]
    exact hkept.base
  | _ => cases hside

end stratum.raft
