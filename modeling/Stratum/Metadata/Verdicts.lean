import Stratum.Metadata.Revised

namespace stratum.metadata

open stratum.lib StateMachine Option

/-! What becomes of a version once a side of it is settled: its data status, the terminal verdict
on its index, and the digest of its document set. -/

variable {cmd : Command} {m m' : VersionMeta} {sm : StateMachine} {v : Nat} {now : Int}

lemma Revised.dataStatus (hrevised : Revised sm cmd v m m') (hsettled : m.dataStatus ≠ .pending) :
    m'.dataStatus = m.dataStatus := by
  cases hrevised with
  | same | marked => rfl
  | reported m' hrevision =>
  cases hrevision with
  | status | indexFailed | retried => rfl
  | durable hdata => exact absurd hdata hsettled
  | summary docIDSetHash hdata hindex =>
    -- Neither pending nor failed: a repeated report finds the version durable already.
    cases hm : m.dataStatus with
    | pending => exact absurd hm hsettled
    | durable => rfl
    | failedPermanent => exact absurd hm hdata
  | dataFailed reason count hdata =>
    cases hm : m.dataStatus with
    | pending => exact absurd hm hsettled
    | durable => exact absurd hm hdata
    | failedPermanent => rfl

/-- The data status is final: once it has left pending it has that value in every later state
the version is in. -/
theorem data_status_final (limit : Nat) (epoch : String) {sm later : StateMachine}
    (hreach : Reachable step (newStateMachine limit epoch) sm)
    (hlater : Reachable step sm later) {v : Nat} {m m' : VersionMeta}
    (hm : sm.versions v = some m) (hsettled : m.dataStatus ≠ .pending)
    (hm' : later.versions v = some m') : m'.dataStatus = m.dataStatus := by
  have hwf := WellFormed.of_reachable hreach
  refine Revised.of_reach hlater hwf (hwf.lt_next hm) (fun n => n.dataStatus = m.dataStatus)
    ?_ ?_ m' hm'
  · intro n hn
    rw [hm, some.injEq] at hn
    rw [hn]
  · intro t now cmd n n' _ hrevised hn
    rw [hrevised.dataStatus (hn ▸ hsettled), hn]

def reportedRun : List (Int × Command) :=
  [(0, .createKB { kbID := "kb" }), (0, .createVersion "kb" 0 ""),
    (0, .updateVersionSummary 1 "digest")]

/-- A failure verdict, a reconcile promotion and a second report that come late. -/
def lateReports : List (Int × Command) :=
  [(0, .markVersionFailedPermanent "kb" 1 .data "timeout" 3), (0, .markDataDurable 1),
    (0, .updateVersionSummary 1 "digest"), (0, .retryVersion "kb" 1 .data)]

theorem data_status_final_late : ∃ sm later m m',
    Reachable step (newStateMachine 8 "epoch") sm ∧
      Reachable step sm later ∧ sm.versions 1 = some m ∧ m.dataStatus = .durable ∧
      later.versions 1 = some m' ∧ m'.dataStatus = .durable := by
  obtain ⟨sm, hreach, hrest, m, hm, hdata⟩ : ∃ sm,
      Reachable step (newStateMachine 8 "epoch") sm ∧
        (run step (fun _ _ => True) sm lateReports).any (fun later => (later.versions 1).isSome) ∧
        ∃ m, sm.versions 1 = some m ∧ m.dataStatus = .durable :=
    Reach.exists_decide reportedRun (by decide +kernel)
  obtain ⟨later, hlater, hsome⟩ := Reach.exists_of_run hrest
  obtain ⟨m', hm'⟩ := isSome_iff_exists.mp hsome
  refine ⟨sm, later, m, m', hreach, hlater, hm, hdata, hm', ?_⟩
  rw [← hdata]
  exact data_status_final 8 "epoch" hreach hlater hm (by rw [hdata]; decide) hm'

/-- Along every run an id never comes back: a version that is there was there whenever its id was
taken, in the same knowledge base, under the same parent or an older one, and is still marked as
deleting if it was. -/
theorem version_kept (limit : Nat) (epoch : String) {sm later : StateMachine}
    (hreach : Reachable step (newStateMachine limit epoch) sm) (hlater : Reachable step sm later)
    {v : Nat} (hlt : v < sm.nextVersionID) {m' : VersionMeta} (hm' : later.versions v = some m') :
    ∃ m, sm.versions v = some m ∧ Kept m m' := by
  refine (hlater.invariant (fun t => WellFormed t ∧ v < t.nextVersionID ∧
    ∀ m', t.versions v = some m' → ∃ m, sm.versions v = some m ∧ Kept m m')
    ⟨.of_reachable hreach, hlt, fun m hm => ⟨m, hm, .refl m⟩⟩ ?_).2.2 m' hm'
  rintro t t' ⟨now, cmd⟩ - ⟨hwf, hlt, hkept⟩ - hstep
  cases hstep
  refine ⟨hwf.apply now cmd, Nat.lt_of_lt_of_le hlt (next_le_apply hwf now cmd), fun m' hm' => ?_⟩
  obtain rfl | ⟨n, hn, hlast⟩ := present_before hwf hm'
  · exact absurd hlt (Nat.lt_irrefl _)
  obtain ⟨m, hm, hfirst⟩ := hkept n hn
  exact ⟨m, hm, hlast.versionID.trans hfirst.versionID, hlast.kbID.trans hfirst.kbID,
    Nat.le_trans hlast.parent hfirst.parent, hlast.deleting ∘ hfirst.deleting⟩

/-- The reports that come late leave version 1 in its place. -/
theorem version_kept_late : ∃ (sm later : StateMachine) (m m' : VersionMeta),
    Reachable step (newStateMachine 8 "epoch") sm ∧ Reachable step sm later ∧
      sm.versions 1 = some m ∧ later.versions 1 = some m' ∧ Kept m m' := by
  obtain ⟨sm, hreach, hlt, hrest⟩ : ∃ sm, Reachable step (newStateMachine 8 "epoch") sm ∧
      1 < sm.nextVersionID ∧
        (run step (fun _ _ => True) sm lateReports).any fun later => (later.versions 1).isSome :=
    Reach.exists_decide reportedRun (by decide +kernel)
  obtain ⟨later, hlater, hsome⟩ := Reach.exists_of_run hrest
  obtain ⟨m', hm'⟩ := isSome_iff_exists.mp hsome
  obtain ⟨m, hm, hkept⟩ := version_kept 8 "epoch" hreach hlater hlt hm'
  exact ⟨sm, later, m, m', hreach, hlater, hm, hm', hkept⟩

def Command.status? (v : Nat) : Command → Option IndexStatus
  | .updateVersionStatus u status _ => if u = v then some status else none
  | _ => none

lemma Command.eq_of_mem_status? {status : IndexStatus} (hstatus : status ∈ cmd.status? v) :
    ∃ nodeID, cmd = .updateVersionStatus v status nodeID := by
  unfold status? at hstatus
  split at hstatus
  · next u reported nodeID =>
    obtain ⟨rfl, ⟨⟩⟩ := ite_none_right_eq_some.mp hstatus
    exact ⟨nodeID, rfl⟩
  · cases hstatus

/-- No status report with another status reaches the version under its verdict. -/
abbrev KeepsVerdict (v : Nat) (sm : StateMachine) (a : Int × Command) : Prop :=
  ∀ m ∈ sm.versions v, m.indexStatus = .failedPermanent →
    ∀ status ∈ a.2.status? v, status = .failedPermanent

/-- A version under a terminal index verdict, or gone. -/
def IndexVerdict (v : Nat) (sm : StateMachine) : Prop :=
  ∀ m ∈ sm.versions v, m.indexStatus = .failedPermanent

lemma Revised.indexVerdict (hm : sm.versions v = some m) (hrevised : Revised sm cmd v m m')
    (hretry : ∀ kbID, cmd ≠ .retryVersion kbID v .index) (hkeeps : KeepsVerdict v sm (now, cmd))
    (hverdict : m.indexStatus = .failedPermanent) : m'.indexStatus = .failedPermanent := by
  cases hrevised with
  | same | marked => exact hverdict
  | reported m' hrevision =>
  cases hrevision with
  | status status nodeID nodes hnodes => exact hkeeps m hm hverdict status (if_pos rfl)
  | summary docIDSetHash hdata hindex => exact absurd hverdict hindex
  | indexFailed => rfl
  | durable | dataFailed => exact hverdict
  | retried reason count side hdel hindex => exact absurd rfl (hretry m.kbID)

/-- A command other than a retry leaves a verdict in place exactly when it is no status report
with another status. -/
lemma IndexVerdict.apply_iff (hlt : v < sm.nextVersionID) (hverdict : IndexVerdict v sm)
    (hretry : ∀ kbID, cmd ≠ .retryVersion kbID v .index) :
    IndexVerdict v (sm.apply now cmd).1 ↔ KeepsVerdict v sm (now, cmd) := by
  constructor
  · intro hafter m hm _ status hstatus
    obtain ⟨nodeID, rfl⟩ := Command.eq_of_mem_status? hstatus
    refine hafter { m with
      indexStatus := status
      indexReadyNodes := if nodeID ≠ 0 ∧ status = .ready then
        withIndexReadyNode m.indexReadyNodes nodeID else m.indexReadyNodes } ?_
    rw [mem_def] at hm ⊢
    simp [apply, applyUpdateVersionStatus, hm, accept, setVersion]
  · intro hkeeps m' hm'
    cases Source.of_apply hm' with
    | revised m hm hrevised => exact hrevised.indexVerdict hm hretry hkeeps (hverdict m hm)
    | allocated _ _ _ _ _ _ _ hv _ => exact absurd hv (Nat.ne_of_lt hlt)

/-- A terminal index verdict is left in place by a run of commands that do not retry the index of
the version, in every state and until the version is removed, exactly if none of them is a status
report with another status for the version under its verdict. -/
theorem index_verdict_kept_iff (limit : Nat) (epoch : String) {sm : StateMachine}
    (hreach : Reachable step (newStateMachine limit epoch) sm) {v : Nat}
    {m : VersionMeta} (hm : sm.versions v = some m) (hverdict : m.indexStatus = .failedPermanent)
    (as : List (Int × Command)) (hretry : ∀ a ∈ as, ∀ kbID, a.2 ≠ .retryVersion kbID v .index) :
    Always step (IndexVerdict v) sm as ↔
      EachStep step (KeepsVerdict v) sm as := by
  have hwf := WellFormed.of_reachable hreach
  have hstart : IndexVerdict v sm := by
    intro n hn
    cases some.inj (hm.symm.trans hn)
    exact hverdict
  refine always_iff_eachStep (fun s => WellFormed s ∧ v < s.nextVersionID) (IndexVerdict v)
    (fun a => ∀ kbID, a.2 ≠ .retryVersion kbID v .index) ?_ ⟨hwf, hwf.lt_next hm⟩ hstart hretry
  rintro s ⟨now, cmd⟩ ⟨hwf, hlt⟩ hverdict hno
  exact ⟨_, rfl, ⟨hwf.apply now cmd, Nat.lt_of_lt_of_le hlt (next_le_apply hwf now cmd)⟩,
    hverdict.apply_iff hlt hno⟩

def verdictRun : List (Int × Command) :=
  [(0, .createKB { kbID := "kb" }), (0, .createVersion "kb" 0 ""), (0, .markDataDurable 1),
    (0, .markVersionFailedPermanent "kb" 1 .index "build" 3)]

/-- Reports that leave the verdict alone: the digest comes late, the data is reported again, and
the verdict is recorded a second time. -/
def harmlessReports : List (Int × Command) :=
  [(0, .updateVersionSummary 1 "digest"), (0, .markDataDurable 1),
    (0, .markVersionFailedPermanent "kb" 1 .index "build" 4), (0, .rollback "kb" 1)]

theorem index_verdict_kept_harmless : ∃ sm m,
    Reachable step (newStateMachine 8 "epoch") sm ∧ sm.versions 1 = some m ∧
      m.indexStatus = .failedPermanent ∧
      Always step (IndexVerdict 1) sm harmlessReports := by
  obtain ⟨sm, hreach, hsteps, m, hm, hverdict⟩ : ∃ sm,
      Reachable step (newStateMachine 8 "epoch") sm ∧
        EachStep step (KeepsVerdict 1) sm harmlessReports ∧
        ∃ m, sm.versions 1 = some m ∧ m.indexStatus = .failedPermanent :=
    Reach.exists_decide verdictRun (by decide +kernel)
  have hno : ∀ a ∈ harmlessReports, ∀ kbID, a.2 ≠ .retryVersion kbID 1 .index := by
    simp [harmlessReports]
  exact ⟨sm, m, hreach, hm, hverdict,
    (index_verdict_kept_iff 8 "epoch" hreach hm hverdict harmlessReports hno).mpr hsteps⟩

/-- A builder's report that arrives after the verdict makes the version ready again. -/
theorem index_verdict_overwritten : ∃ sm,
    Reachable step (newStateMachine 8 "epoch") sm ∧
      (sm.versions 1).map (·.indexStatus) = some .failedPermanent ∧
      ((sm.apply 0 (.updateVersionStatus 1 .ready 2)).1.versions 1).map (·.indexStatus) =
        some .ready :=
  Reach.exists_decide verdictRun (by decide +kernel)

def Command.digest? (v : Nat) : Command → Option String
  | .updateVersionSummary u docIDSetHash => if u = v then some docIDSetHash else none
  | _ => none

variable {digest : String}

lemma Command.eq_of_mem_digest? (hdigest : digest ∈ cmd.digest? v) :
    cmd = .updateVersionSummary v digest := by
  unfold digest? at hdigest
  split at hdigest
  · obtain ⟨rfl, ⟨⟩⟩ := ite_none_right_eq_some.mp hdigest
    rfl
  · cases hdigest

/-- A digest reported for the version while it is not retired is the one it has. -/
abbrev KeepsDigest (v : Nat) (sm : StateMachine) (a : Int × Command) : Prop :=
  ∀ m ∈ sm.versions v, m.indexStatus ≠ .failedPermanent →
    ∀ digest ∈ a.2.digest? v, digest = m.docIDSetHash

def HasDigest (v : Nat) (digest : String) (sm : StateMachine) : Prop :=
  ∀ m ∈ sm.versions v, m.docIDSetHash = digest

def DurableData (v : Nat) (sm : StateMachine) : Prop :=
  ∀ m ∈ sm.versions v, m.dataStatus = .durable

lemma DurableData.apply (hlt : v < sm.nextVersionID) (hdurable : DurableData v sm) (now : Int)
    (cmd : Command) : DurableData v (sm.apply now cmd).1 := by
  intro m' hm'
  cases Source.of_apply hm' with
  | revised m hm hrevised =>
    have hdata := hdurable m hm
    rw [hrevised.dataStatus (by rw [hdata]; decide), hdata]
  | allocated _ _ _ _ _ _ _ hv _ => exact absurd hv (Nat.ne_of_lt hlt)

lemma Revised.docIDSetHash (hm : sm.versions v = some m) (hrevised : Revised sm cmd v m m')
    (hkeeps : KeepsDigest v sm (now, cmd)) : m'.docIDSetHash = m.docIDSetHash := by
  cases hrevised with
  | same | marked => rfl
  | reported m' hrevision =>
    cases hrevision with
    | summary docIDSetHash hdata hindex => exact hkeeps m hm hindex docIDSetHash (if_pos rfl)
    | status | durable | indexFailed | dataFailed | retried => rfl

/-- A command leaves the digest of a durable version as it is exactly when it reports no other
digest for it. -/
lemma HasDigest.apply_iff (hlt : v < sm.nextVersionID) (hdurable : DurableData v sm)
    (hdigest : HasDigest v digest sm) :
    HasDigest v digest (sm.apply now cmd).1 ↔ KeepsDigest v sm (now, cmd) := by
  constructor
  · intro hafter m hm hindex docIDSetHash hreported
    cases Command.eq_of_mem_digest? hreported
    rw [hdigest m hm]
    refine hafter { m with docIDSetHash, dataStatus := .durable } ?_
    have hdata := hdurable m hm
    rw [mem_def] at hm ⊢
    simp [apply, applyUpdateVersionSummary, hm, hdata, hindex, accept, setVersion]
  · intro hkeeps m' hm'
    cases Source.of_apply hm' with
    | revised m hm hrevised => rw [hrevised.docIDSetHash hm hkeeps, hdigest m hm]
    | allocated _ _ _ _ _ _ _ hv _ => exact absurd hv (Nat.ne_of_lt hlt)

/-- The digest of a durable version is the same in every state of a run, until the version is
removed, exactly if no command of the run reports another digest for it while its index is not
retired. -/
theorem digest_write_once_iff (limit : Nat) (epoch : String) {sm : StateMachine}
    (hreach : Reachable step (newStateMachine limit epoch) sm) {v : Nat}
    {m : VersionMeta} (hm : sm.versions v = some m) (hdurable : m.dataStatus = .durable)
    (as : List (Int × Command)) :
    Always step (HasDigest v m.docIDSetHash) sm as ↔
      EachStep step (KeepsDigest v) sm as := by
  have hwf := WellFormed.of_reachable hreach
  have hfirst : ∀ n ∈ sm.versions v, n = m := fun n hn => some.inj (hn.symm.trans hm)
  refine always_iff_eachStep (fun s => WellFormed s ∧ v < s.nextVersionID ∧ DurableData v s)
    (HasDigest v m.docIDSetHash) (fun _ => True) ?_
    ⟨hwf, hwf.lt_next hm, fun n hn => hfirst n hn ▸ hdurable⟩ (fun n hn => by rw [hfirst n hn])
    fun _ _ => trivial
  rintro s ⟨now, cmd⟩ ⟨hwf, hlt, hdurable⟩ hdigest -
  exact ⟨_, rfl, ⟨hwf.apply now cmd, Nat.lt_of_lt_of_le hlt (next_le_apply hwf now cmd),
    hdurable.apply hlt now cmd⟩, hdigest.apply_iff hlt hdurable⟩

theorem digest_write_once_late : ∃ sm m,
    Reachable step (newStateMachine 8 "epoch") sm ∧ sm.versions 1 = some m ∧
      m.dataStatus = .durable ∧ m.docIDSetHash = "digest" ∧
      Always step (HasDigest 1 m.docIDSetHash) sm lateReports := by
  obtain ⟨sm, hreach, hsteps, m, hm, hdurable, hdigest⟩ : ∃ sm,
      Reachable step (newStateMachine 8 "epoch") sm ∧
        EachStep step (KeepsDigest 1) sm lateReports ∧
        ∃ m, sm.versions 1 = some m ∧ m.dataStatus = .durable ∧ m.docIDSetHash = "digest" :=
    Reach.exists_decide reportedRun (by decide +kernel)
  exact ⟨sm, m, hreach, hm, hdurable, hdigest,
    (digest_write_once_iff 8 "epoch" hreach hm hdurable lateReports).mpr hsteps⟩

/-- A second report with another view of the data replaces the digest of a durable version. -/
theorem digest_overwritten : ∃ sm,
    Reachable step (newStateMachine 8 "epoch") sm ∧
      (sm.versions 1).map (fun m => (m.dataStatus, m.docIDSetHash)) = some (.durable, "digest") ∧
      ((sm.apply 0 (.updateVersionSummary 1 "partial")).1.versions 1).map (·.docIDSetHash) =
        some "partial" :=
  Reach.exists_decide reportedRun (by decide +kernel)

end stratum.metadata
