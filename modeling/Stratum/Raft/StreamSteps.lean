import Stratum.Raft.StreamFrame

open stratum.lib stratum.kvstorage stratum.kvraft List

namespace stratum.raft

open Node Raft Persister

variable {σ : Type} {machine : StateMachine σ} {committed : Nat → Bytes} {nd nd' : Node σ}
  {out : List (Msg σ)} {job : SnapshotJob σ} {rf' : Raft σ} {i : Nat} {cluster : Cluster}
  {net : List (Msg σ)}

lemma JobRight.mono {rf : Raft σ} (hjob : JobRight machine committed rf job)
    (happlied : rf.lastApplied ≤ rf'.lastApplied) (hbase : rf.log.base.index ≤ rf'.log.base.index)
    (hsaved : rf.persister.lastIndex ≤ rf'.persister.lastIndex) :
    JobRight machine committed rf' job := by
  cases job with
  | copied | requested =>
    exact ⟨le_trans hjob.1 happlied, hjob.2.imp_right fun hle => le_trans hle hbase⟩
  | checked i data => exact ⟨le_trans hjob.1 happlied, hjob.2⟩
  | saved i => exact ⟨le_trans hjob.1 happlied, le_trans hjob.2 hsaved⟩
  | finished => trivial

lemma PcInOrder.raise {position : Position} {lastApplied : Nat} {pc : Raft.ApplyPc}
    (hpc : PcInOrder position lastApplied pc) (hi : i ≤ position.index) :
    PcInOrder position (max lastApplied i) pc := by
  cases pc with
  | top => exact Nat.max_le.mpr ⟨hpc, hi⟩
  | inner =>
    obtain ⟨hpos, hle⟩ := hpc
    exact ⟨by omega, by omega⟩
  | sending e =>
    obtain ⟨hnext, happlied, hle, hahead⟩ := hpc
    exact ⟨hnext, by omega, by omega, hahead⟩
  | requesting r =>
    obtain ⟨hpos, happlied, hle, hlabel⟩ := hpc
    exact ⟨hpos, by omega, hle, hlabel⟩

lemma StreamInv.frame (hinv : StreamInv machine committed nd) (hframe : NodeFrame nd nd') :
    StreamInv machine committed nd' := by
  have hstart : nd'.start = nd.start := by rw [start, hframe.bootIndex, start]
  have hsent : nd'.sent = nd.sent := by rw [sent, hframe.consumed, hframe.applyCh, sent]
  have hposition : nd'.sentPosition = nd.sentPosition := by
    rw [sentPosition, hsent, hstart, sentPosition]
  have hconsumed : nd'.consumedPosition = nd.consumedPosition := by
    rw [consumedPosition, hframe.consumed, hstart, consumedPosition]
  have happlied := hframe.rf.lastApplied
  have hbase := hframe.rf.base
  have hlast := hframe.rf.lastIndex
  constructor
  · rw [hframe.rf.snapshot]
    exact hinv.file
  · rw [hframe.rf.snapshotIndex, hlast]
    exact hinv.guard
  · rw [hbase, hlast]
    exact hinv.baseSaved
  · rw [hbase, happlied]
    exact hinv.baseApplied
  · rw [hframe.rf.maxLogLength]
    exact hinv.threshold
  · rw [hframe.bootState, hframe.bootIndex]
    exact hinv.boot
  · rw [hframe.sm, hframe.consumed, hframe.bootState]
    exact hinv.state
  · rw [hstart, hsent]
    exact hinv.order
  · rw [hposition, happlied]
    exact hinv.ahead
  · rw [hposition, happlied, hframe.applyPc]
    exact hinv.pc
  · rw [hframe.applyCh, happlied]
    exact hinv.entries
  · rw [hframe.installing, hconsumed, hbase, happlied]
    exact hinv.idle
  · rw [hframe.installing, hconsumed, hlast]
    exact hinv.installing
  rw [hframe.jobs]
  intro job hjob
  exact (hinv.jobs job hjob).mono (le_of_eq happlied.symm)
    (le_of_eq (by rw [hbase])) (le_of_eq hlast.symm)

lemma Node.sent_send (nd : Node σ) (msg : ApplyMsg σ) (pc : Raft.ApplyPc) : ({ nd with
    applyCh := nd.applyCh ++ [msg], history := nd.history ++ [msg], applyPc := pc } : Node σ).sent =
      nd.sent ++ [msg] := (append_assoc _ _ _).symm

lemma StreamInv.send (msg : ApplyMsg σ) (pc : Raft.ApplyPc) (hinv : StreamInv machine committed nd)
    (hnext : nd.sentPosition.Next machine committed msg)
    (hahead : (nd.sentPosition.advance msg).index ≤ nd.rf.lastApplied ∨
      (nd.sentPosition.advance msg).index = (nd.sentPosition.advance msg).snapshot)
    (hpc : PcInOrder (nd.sentPosition.advance msg) nd.rf.lastApplied pc)
    (hentry : ∀ e, msg = .entry e → e.index ≤ nd.rf.lastApplied) : StreamInv machine committed
      { nd with
        applyCh := nd.applyCh ++ [msg], history := nd.history ++ [msg], applyPc := pc } := by
  have hposition : ({ nd with
      applyCh := nd.applyCh ++ [msg], history := nd.history ++ [msg],
      applyPc := pc } : Node σ).sentPosition = nd.sentPosition.advance msg := by
    rw [sentPosition, nd.sent_send, foldl_append]
    rfl
  refine { hinv with order := ?_, ahead := ?_, pc := ?_, entries := fun e he => ?_ }
  · rw [nd.sent_send]
    exact hinv.order.snoc hnext
  · rw [hposition]
    exact hahead
  · rw [hposition]
    exact hpc
  obtain he | he := mem_append.mp he
  · exact hinv.entries e he
  · exact hentry e (mem_singleton.mp he).symm

section

variable (hinv : StreamInv machine committed nd)

include hinv

namespace StreamInv

/-- A snapshot that is not behind the channel is handed over. An entry the apply loop
still holds may be overtaken by it. -/
lemma handOff [DecidableEq σ] {inst : PendingInstall σ}
    (hordered : nd.sentPosition.index ≤ inst.req.lastIncludedIndex)
    (hright : inst.req.data = stateAt machine committed inst.req.lastIncludedIndex)
    (hstep : nd.step machine cluster net (.handOff inst) = some (nd', out)) :
    StreamInv machine committed nd' := by
  cases stepped hstep with
  | handOff _ hmsg =>
  subst hmsg
  have hpc := hinv.pc
  refine (hinv.send (.snapshot inst.req.data inst.req.lastIncludedIndex inst.req.lastIncludedTerm)
    nd.applyPc ⟨hordered, hright⟩ (.inr rfl) ?_ fun e he => ?_).frame (.of_rest (.refl _) rfl)
  · cases happlyPc : nd.applyPc with
    | top =>
      rw [happlyPc] at hpc
      exact le_trans hpc hordered
    | inner =>
      rw [happlyPc] at hpc
      exact ⟨hpc.1, le_trans hpc.2 hordered⟩
    | sending e =>
      rw [happlyPc] at hpc
      obtain ⟨hnext, happlied, hle, -⟩ := hpc
      refine ⟨?_, happlied, ?_, .inr rfl⟩
      · change e.index ≤ inst.req.lastIncludedIndex + 1
        omega
      · change nd.rf.lastApplied ≤ max inst.req.lastIncludedIndex e.index
        omega
    | requesting r =>
      rw [happlyPc] at hpc
      obtain ⟨hpos, happlied, hle, -⟩ := hpc
      refine ⟨hpos, le_trans happlied hordered, le_trans hle hordered, ?_⟩
      change r = inst.req.lastIncludedIndex ∨ r < inst.req.lastIncludedIndex
      omega
  · cases he

/-- The apply loop picks the next entry, which the channel is ready for unless a snapshot
has overtaken it. -/
lemma pick {entry : Entry} (hlog : nd.rf.log.Indexed)
    (hle : nd.rf.lastApplied ≤ nd.sentPosition.index)
    (hentry : nd.rf.log.logEntry (nd.rf.lastApplied + 1) = some entry) : StreamInv machine committed
      { nd with
        rf := { nd.rf with lastApplied := nd.rf.lastApplied + 1 }, applyPc := .sending entry } := by
  have hindex := hlog.logEntry hentry
  have hahead := hinv.ahead
  refine { hinv with
    baseApplied := Nat.le_succ_of_le hinv.baseApplied
    ahead := hahead.imp_left Nat.le_succ_of_le
    pc := ?_
    entries := fun e he => Nat.le_succ_of_le (hinv.entries e he)
    idle := fun hnone => (hinv.idle hnone).imp_right Nat.le_succ_of_le
    jobs := fun job hjob => (hinv.jobs job hjob).mono (Nat.le_succ _) le_rfl le_rfl }
  refine ⟨?_, ?_, ?_, ?_⟩
  · change entry.index ≤ nd.sentPosition.index + 1
    omega
  · exact le_of_eq hindex
  · change nd.rf.lastApplied + 1 ≤ max nd.sentPosition.index entry.index
    omega
  · change nd.sentPosition.index < entry.index ∨ nd.sentPosition.index = nd.sentPosition.snapshot
    omega

lemma rest {rf' : Raft σ} {pc : Raft.ApplyPc}
    (hle : nd.rf.lastApplied ≤ nd.sentPosition.index)
    (hpos : nd.rf.maxLogLength < nd.rf.log.length → nd.rf.log.lastLogIndex ≤ nd.rf.lastApplied ∨
      0 < nd.rf.lastApplied)
    (hrest : (nd.rf.maxLogLength < nd.rf.log.length ∧ rf' = { nd.rf with snapshotting := true } ∧
        pc = .requesting nd.rf.lastApplied) ∨ rf' = nd.rf ∧ pc = .top) :
    StreamInv machine committed { nd with rf := rf', applyPc := pc } := by
  obtain ⟨hlong, rfl, rfl⟩ | ⟨rfl, rfl⟩ := hrest
  · refine { hinv with pc := ?_ }
    have hthreshold := hinv.threshold
    have hahead := hinv.ahead
    have hlast : nd.rf.log.lastLogIndex + 1 = nd.rf.log.base.index + nd.rf.log.length := by
      rw [Log.lastLogIndex_eq, Log.length]
      omega
    refine ⟨?_, hle, hle, ?_⟩
    · omega
    change nd.rf.lastApplied = nd.sentPosition.index ∨
      nd.rf.lastApplied < nd.sentPosition.snapshot
    omega
  · exact { hinv with pc := hle }

lemma loop {rf' : Raft σ} {pc : Raft.ApplyPc} (hlog : nd.rf.log.Indexed)
    (hloop : nd.applyPc = .top ∧ nd.rf.applyLoopTop = some (rf', pc) ∨
      nd.applyPc = .inner ∧ nd.rf.applyLoopInner = some (rf', pc)) :
    StreamInv machine committed { nd with rf := rf', applyPc := pc } := by
  have hpc := hinv.pc
  have hbase := hinv.baseApplied
  obtain ⟨htop, hloop⟩ | ⟨hinner, hloop⟩ := hloop
  · rw [htop] at hpc
    unfold applyLoopTop at hloop
    split at hloop
    · cases hloop
      exact { hinv with pc := hpc }
    rw [if_neg (not_lt.mpr hbase)] at hloop
    obtain ⟨entry, -, hentry, rfl, rfl⟩ | ⟨hlong, rfl, rfl, hdone⟩ | hsame :=
      applyLoopInner_spec hloop
    · exact hinv.pick hlog hpc hentry
    · exact hinv.rest hpc (fun _ => .inl (by omega)) (.inl ⟨hlong, rfl, rfl⟩)
    · obtain ⟨rfl, rfl⟩ := hsame
      exact { hinv with pc := hpc }
  · rw [hinner] at hpc
    obtain ⟨hpos, hle⟩ := hpc
    obtain ⟨entry, -, hentry, rfl, rfl⟩ | ⟨hlong, rfl, rfl, -⟩ | hsame :=
      applyLoopInner_spec hloop
    · exact hinv.pick hlog hle hentry
    · exact hinv.rest hle (fun _ => .inr hpos) (.inl ⟨hlong, rfl, rfl⟩)
    · exact hinv.rest hle (fun _ => .inr hpos) (.inr hsame)

lemma applyStep [DecidableEq σ] (hlog : nd.rf.log.Indexed) (hordered : nd.EntryInOrder)
    (hstep : nd.step machine cluster net .applyStep = some (nd', out))
    (hright : ∀ msg ∈ nd'.history, MsgRight machine committed msg) :
    StreamInv machine committed nd' := by
  have hpc := hinv.pc
  cases stepped hstep with
  | applyLoop hloop => exact hinv.loop hlog hloop
  | @sendEntry entry hsending =>
    rw [hsending] at hpc
    unfold Node.EntryInOrder at hordered
    rw [hsending] at hordered
    obtain ⟨hnext, happlied, hle, hahead⟩ := hpc
    have hdata : entry.data = committed entry.index :=
      hright (.entry entry) (mem_append_right _ (mem_singleton_self _))
    refine hinv.send (.entry entry) .inner ⟨by omega, hdata⟩ (.inl happlied) ⟨by omega, ?_⟩
      fun e he => ?_
    · change nd.rf.lastApplied ≤ entry.index
      omega
    · cases he
      exact happlied
  | requestSnapshot hrequesting =>
    rw [hrequesting] at hpc
    obtain ⟨hpos, happlied, -, hlabel⟩ := hpc
    exact hinv.send (.snapshotRequest _) .top ⟨hpos, hlabel⟩ hinv.ahead happlied nofun

end StreamInv

end

variable (hinv : StreamInv machine committed nd)

include hinv

namespace StreamInv

lemma sm_eq : nd.sm = stateAt machine committed nd.consumedPosition.index := by
  rw [hinv.state, hinv.boot]
  exact InOrder.foldl_eq (fun p : Position => stateAt machine committed p.index)
    (fun _ _ hnext => hnext.consume) (InOrder.append_iff.mp hinv.order).1

lemma consumed_le : nd.consumedPosition.index ≤ nd.sentPosition.index := by
  have hrest := (InOrder.append_iff.mp hinv.order).2
  rw [sentPosition, sent, foldl_append]
  exact InOrder.le Position.index (fun _ _ hnext => hnext.index_le) hrest

lemma saveSnapshot {data : σ} (hdata : data = stateAt machine committed i) :
    StreamInv machine committed { nd with rf := nd.rf.saveSnapshot data i } ∧
      i ≤ (nd.rf.saveSnapshot data i).persister.lastIndex := by
  obtain ⟨hguard, hle, hreach, -⟩ := saveSnapshot_spec data i hinv.guard
  refine ⟨{ hinv with
    file := fun data' i' hfile => ?_
    guard := hguard
    baseSaved := le_trans hinv.baseSaved hle
    installing := fun i' t' hpending => (hinv.installing i' t' hpending).imp_right (le_trans · hle)
    jobs := fun job hjob => (hinv.jobs job hjob).mono le_rfl le_rfl hle }, hreach⟩
  change (nd.rf.persister.saveSnapshot data i).snapshot = some (data', i') at hfile
  unfold Persister.saveSnapshot at hfile
  split at hfile
  · exact hinv.file data' i' hfile
  · cases hfile
    exact hdata

lemma take {msg : ApplyMsg σ} {rest : List (ApplyMsg σ)} (hch : nd.applyCh = msg :: rest) :
    nd.consumedPosition.Next machine committed msg ∧ nd.consumed ++ [msg] ++ rest = nd.sent ∧
      (nd.consumed ++ [msg]).foldl Position.advance nd.start = nd.consumedPosition.advance msg := by
  have hrest := (InOrder.append_iff.mp hinv.order).2
  rw [hch] at hrest
  refine ⟨hrest.1, ?_, foldl_append⟩
  rw [sent, hch, append_assoc]
  rfl

lemma taken {rf' : Raft σ} {installing : Option (Nat × Nat)} {jobs : List (SnapshotJob σ)}
    {msg : ApplyMsg σ} {rest : List (ApplyMsg σ)} (hch : nd.applyCh = msg :: rest)
    (hrf' : StreamInv machine committed { nd with rf := rf' })
    (happlied : rf'.lastApplied = nd.rf.lastApplied)
    (hidle : installing = none → (nd.consumedPosition.advance msg).snapshot ≤ rf'.log.base.index ∧
      (nd.consumedPosition.advance msg).index ≤ rf'.lastApplied)
    (hinstalling : ∀ i t, installing = some (i, t) →
      nd.consumedPosition.advance msg = { index := i, snapshot := i } ∧ i ≤ rf'.persister.lastIndex)
    (hjobs : ∀ job ∈ jobs, JobRight machine committed rf' job) : StreamInv machine committed
      { nd with
        rf := rf'
        applyCh := rest
        consumed := nd.consumed ++ [msg]
        sm := consumeMsg machine nd.sm msg
        installing
        jobs } := by
  obtain ⟨-, hsent, hconsumed⟩ := hinv.take hch
  have hposition : (nd.consumed ++ [msg] ++ rest).foldl Position.advance nd.start =
      nd.sentPosition := by
    rw [hsent, sentPosition]
  refine { hrf' with
    state := ?_
    order := ?_
    ahead := ?_
    pc := ?_
    entries := fun e he => ?_
    idle := fun hnone => ?_
    installing := fun i t hpending => ?_
    jobs := hjobs }
  · rw [foldl_append, ← hinv.state]
    rfl
  · change InOrder _ _ nd.start (nd.consumed ++ [msg] ++ rest)
    rw [hsent]
    exact hinv.order
  · change ((nd.consumed ++ [msg] ++ rest).foldl Position.advance nd.start).index ≤ _ ∨
      ((nd.consumed ++ [msg] ++ rest).foldl Position.advance nd.start).index =
        ((nd.consumed ++ [msg] ++ rest).foldl Position.advance nd.start).snapshot
    rw [hposition]
    exact hrf'.ahead
  · change PcInOrder ((nd.consumed ++ [msg] ++ rest).foldl Position.advance nd.start) _ _
    rw [hposition]
    exact hrf'.pc
  · rw [happlied]
    exact hinv.entries e (hch ▸ mem_cons_of_mem _ he)
  · change ((nd.consumed ++ [msg]).foldl Position.advance nd.start).snapshot ≤ _ ∧
      ((nd.consumed ++ [msg]).foldl Position.advance nd.start).index ≤ _
    rw [hconsumed]
    exact hidle hnone
  · change (nd.consumed ++ [msg]).foldl Position.advance nd.start = _ ∧ _
    rw [hconsumed]
    exact hinstalling i t hpending

lemma consume [DecidableEq σ] (hkept : nd.JobsKept machine)
    (hstep : nd.step machine cluster net .consume = some (nd', out)) :
    StreamInv machine committed nd' := by
  cases stepped hstep with
  | @consume msg rest hidle hch =>
  obtain ⟨hinstalled, hreached⟩ := hinv.idle hidle
  obtain ⟨hnext, -, -⟩ := hinv.take hch
  have hnone : ∀ i t, nd.installing = some (i, t) → False := by
    intro i t hpending
    rw [hidle] at hpending
    cases hpending
  cases msg with
  | entry e =>
    have hle := hinv.entries e (hch ▸ mem_cons_self)
    unfold JobsKept at hkept
    rw [hch] at hkept
    have hjobs : ∀ job ∈ (handleMsg machine nd (.entry e)).jobs,
        JobRight machine committed nd.rf job := by
      rw [hkept]
      exact hinv.jobs
    exact (hinv.taken hch hinv rfl (fun _ => ⟨hinstalled, hle⟩)
      (fun i t hpending => (hnone i t hpending).elim) hjobs).frame (.of_rest (.refl _) rfl)
  | snapshotRequest r =>
    obtain ⟨hpos, hlabel⟩ := hnext
    have hbase := hinv.baseApplied
    have hle : r ≤ nd.rf.lastApplied := by omega
    refine hinv.taken hch hinv rfl (fun _ => ⟨hinstalled, hreached⟩)
      (fun i t hpending => (hnone i t hpending).elim) fun job hjob => ?_
    obtain rfl | hjob := mem_cons.mp hjob
    · rw [if_neg (Nat.ne_of_gt hpos)]
      refine ⟨hle, ?_⟩
      obtain rfl | hovertaken := hlabel
      · exact .inl hinv.sm_eq
      · exact .inr (le_trans (le_of_lt hovertaken) hinstalled)
    · exact hinv.jobs job hjob
  | snapshot data i t =>
    obtain ⟨hsaved, hreach⟩ := hinv.saveSnapshot hnext.2
    have hjobs : ∀ job ∈ nd.jobs.map (SnapshotJob.onCopy .requested),
        JobRight machine committed (nd.rf.saveSnapshot data i) job :=
      SnapshotJob.forall_onCopy hsaved.jobs fun j copy hjob => hsaved.jobs (.copied j copy) hjob
    have hinstalling : ∀ i' t', some (i, t) = some (i', t') →
        nd.consumedPosition.advance (.snapshot data i t) = { index := i', snapshot := i' } ∧
          i' ≤ (nd.rf.saveSnapshot data i).persister.lastIndex := by
      intro i' t' hpending
      cases hpending
      exact ⟨rfl, hreach⟩
    exact (hinv.taken hch hsaved rfl (by intro hnone; cases hnone) hinstalling hjobs).frame
      (.of_rest (.refl _) rfl)

lemma trimTo (htrim : nd.rf.trimTo i = some rf') (happlied : i ≤ nd.rf.lastApplied)
    (hsaved : i ≤ nd.rf.persister.lastIndex) :
    StreamInv machine committed { nd with rf := rf' } ∧ rf'.log.base.index = i := by
  obtain ⟨entry, hentry, rfl⟩ := trimTo_spec htrim
  have hrange := (nd.rf.log.logEntry_isSome_iff i).mp (by rw [hentry]; rfl)
  refine ⟨{ hinv with
    baseSaved := hsaved
    baseApplied := happlied
    idle := fun hnone => ?_
    jobs := fun job hjob => (hinv.jobs job hjob).mono le_rfl hrange.1 le_rfl }, rfl⟩
  exact (hinv.idle hnone).imp_left fun hle => le_trans hle hrange.1

lemma jobStep [DecidableEq σ]
    (hstep : nd.step machine cluster net (.jobStep job) = some (nd', out)) :
    StreamInv machine committed nd' := by
  have hrest : ∀ {rf' : Raft σ} {jobs : List (SnapshotJob σ)},
      StreamInv machine committed { nd with rf := rf' } →
      (∀ job' ∈ jobs, job' ∈ nd.jobs ∨ JobRight machine committed rf' job') →
      StreamInv machine committed { nd with rf := rf', jobs } := by
    intro rf' jobs hrf' hjobs
    exact { hrf' with jobs := fun job' hjob' => (hjobs job' hjob').elim (hrf'.jobs job') id }
  have hnext : ∀ {rf' : Raft σ} {next : SnapshotJob σ}, JobRight machine committed rf' next →
      ∀ job' ∈ next :: nd.jobs.erase job, job' ∈ nd.jobs ∨ JobRight machine committed rf' job' := by
    intro rf' next hnext job' hjob'
    obtain rfl | hjob' := mem_cons.mp hjob'
    · exact .inr hnext
    · exact .inl (mem_of_mem_erase hjob')
  cases stepped hstep with
  | encodeJob hjob =>
    have hright := hinv.jobs _ hjob
    exact hrest hinv (hnext hright)
  | checkJob hjob hstage =>
    have hright := hinv.jobs _ hjob
    refine hrest hinv (hnext ?_)
    obtain ⟨hcan, rfl⟩ | rfl := hstage
    · exact ⟨hright.1, hright.2.resolve_right hcan.1⟩
    · trivial
  | saveJob hjob =>
    have hright := hinv.jobs _ hjob
    obtain ⟨hsaved, hreach⟩ := hinv.saveSnapshot hright.2
    exact hrest hsaved (hnext ⟨hright.1, hreach⟩)
  | keepJob => exact hrest hinv (hnext trivial)
  | trimJob hjob _ htrim =>
    have hright := hinv.jobs _ hjob
    exact hrest (hinv.trimTo htrim hright.1 hright.2).1 (hnext trivial)
  | finishJob =>
    refine hrest ?_ fun job' hjob' => .inl (mem_of_mem_erase hjob')
    exact hinv.frame (.of_rest (.of_log rfl rfl rfl rfl rfl) rfl)

lemma raise {t : Nat} (hpending : nd.installing = some (i, t)) : StreamInv machine committed
      { nd with rf := { nd.rf with
        lastApplied := max nd.rf.lastApplied i
        lastCommitIndex := max nd.rf.lastCommitIndex i } } := by
  have hreached := hinv.consumed_le
  rw [(hinv.installing i t hpending).1] at hreached
  refine { hinv with
    baseApplied := le_trans hinv.baseApplied (le_max_left _ _)
    ahead := hinv.ahead.imp_left fun hle => le_trans hle (le_max_left _ _)
    pc := hinv.pc.raise hreached
    entries := fun e he => le_trans (hinv.entries e he) (le_max_left _ _)
    idle := fun hnone => ?_
    jobs := fun job hjob =>
      (hinv.jobs job hjob).mono (le_max_left _ _) le_rfl le_rfl }
  rw [hpending] at hnone
  cases hnone

/-- The consumer reports a restored snapshot. The channel has reached it already, so the
apply loop goes on behind what it has sent or overtaken. -/
lemma installDone [DecidableEq σ]
    (hstep : nd.step machine cluster net .installDone = some (nd', out)) :
    StreamInv machine committed nd' := by
  cases stepped hstep with
  | @installDone i t rf' hpending hdone =>
  obtain ⟨hposition, hsaved⟩ := hinv.installing i t hpending
  have hraised := hinv.raise hpending
  have hinstalled : ∀ rf' : Raft σ, StreamInv machine committed { nd with rf := rf' } →
      i ≤ rf'.log.base.index → i ≤ rf'.lastApplied →
      StreamInv machine committed { nd with rf := rf', installing := none } := by
    intro rf' hrf' hbase happlied
    refine { hrf' with idle := fun _ => ?_, installing := nofun }
    change nd.consumedPosition.snapshot ≤ _ ∧ nd.consumedPosition.index ≤ _
    rw [hposition]
    exact ⟨hbase, happlied⟩
  obtain ⟨rf₁, rfl, ⟨hbelow, rfl⟩ | ⟨hbeyond, rfl⟩ | ⟨rf₂, habove, htrim, rfl⟩⟩ :=
    installDone_spec hdone
  · exact hinstalled _ hraised hbelow (le_max_right _ _)
  · refine hinstalled _ ?_ le_rfl (le_max_right _ _)
    have hbase : nd.rf.log.base.index ≤ i := by
      rw [Log.lastLogIndex_eq] at hbeyond
      omega
    refine { hraised with
      baseSaved := hsaved
      baseApplied := le_max_right _ _
      idle := fun hnone => ?_
      jobs := fun job hjob =>
        (hraised.jobs job hjob).mono le_rfl hbase le_rfl }
    rw [hpending] at hnone
    cases hnone
  · obtain ⟨htrimmed, hbase⟩ := hraised.trimTo htrim (le_max_right _ _) hsaved
    obtain ⟨entry, -, rfl⟩ := trimTo_spec htrim
    refine hinstalled _ ?_ (le_of_eq hbase.symm) (le_max_right _ _)
    exact htrimmed.frame (.of_rest (.of_log rfl rfl rfl rfl rfl) rfl)

omit hinv in
lemma booted {id : NodeId} {persister : Persister σ} {history : List (ApplyMsg σ)}
    (hfile : ∀ data i, persister.snapshot = some (data, i) → data = stateAt machine committed i)
    (hbase : persister.loadState.log.base.index ≤ persister.lastIndex) :
    StreamInv machine committed (.boot machine cluster id persister history) := by
  have hboot : (persister.snapshot.map Prod.fst).getD machine.init =
      stateAt machine committed persister.lastIndex := by
    rw [lastIndex]
    cases hsnapshot : persister.snapshot with
    | none => rfl
    | some file => exact hfile file.1 file.2 hsnapshot
  exact
    { file := hfile
      guard := rfl
      baseSaved := hbase
      baseApplied := hbase
      threshold := cluster.maxLogLength_pos
      boot := hboot
      state := rfl
      order := trivial
      ahead := .inl le_rfl
      pc := le_rfl
      entries := by intro _ he; cases he
      idle := fun _ => ⟨Nat.zero_le _, Nat.le_refl _⟩
      installing := by intro _ _ hnone; cases hnone
      jobs := by intro _ hjob; cases hjob }

lemma restart (hsaved : rf'.Saved) (hlog : rf'.log = nd.rf.log)
    (hsnapshot : rf'.persister.snapshot = nd.rf.persister.snapshot) :
    StreamInv machine committed (({ nd with rf := rf' } : Node σ).restart machine cluster) := by
  refine .booted ?_ ?_
  · rw [hsnapshot]
    exact hinv.file
  have hload : rf'.persister.loadState.log = rf'.log := congrArg PersistState.log hsaved
  rw [hload, hlog, lastIndex, hsnapshot]
  exact hinv.baseSaved

end StreamInv

end stratum.raft
