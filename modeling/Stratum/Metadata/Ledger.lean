import Stratum.Metadata.DeletionLog
import Stratum.Metadata.Linear

namespace stratum.metadata

open stratum.lib StateMachine List

/-- The metadata with every record ever appended to the deletion log, each with the state it was
appended in. -/
structure Ledger where
  sm : StateMachine
  records : List (StateMachine × DeletedVersion) := []

/-- A record covers a version that its knowledge base had when it was appended: it names the
version, or all of the knowledge base. -/
def covers (v : Nat) (record : StateMachine × DeletedVersion) : Bool :=
  v ∈ record.1.versionsByKB record.2.kbID ∧ (record.2.versionID = 0 ∨ record.2.versionID = v)

/-- The ledger after a command that leads to the state `sm`. -/
def Ledger.enter (l : Ledger) (sm : StateMachine) : Ledger where
  sm := sm
  records := l.records ++ (sm.deletedLog.filter (l.sm.deletedSeq < ·.seq)).map (l.sm, ·)

def Ledger.step (l : Ledger) (a : Int × Command) : Option Ledger :=
  some (l.enter (l.sm.apply a.1 a.2).1)

def Command.discard? : Command → Option Nat
  | .discardVersion _ versionID => some versionID
  | _ => none

/-- The version is not discarded: a command that asks for it is refused. -/
abbrev NotDiscarded (v : Nat) (l : Ledger) (a : Int × Command) : Prop :=
  v ∈ a.2.discard? → (l.sm.apply a.1 a.2).2.err.isSome

/-- The retained records are numbered without gaps up to the counter, and not too many. -/
structure Retained (limit : Nat) (sm : StateMachine) : Prop where
  limit : sm.deletedLogLimit = limit
  length : sm.deletedLog.length ≤ sm.deletedSeq
  seqs : sm.deletedLog.map (·.seq) =
    range' (sm.deletedSeq + 1 - sm.deletedLog.length) sm.deletedLog.length
  bounded : sm.deletedLog.length ≤ sm.deletedLogLimitOrDefault

namespace Retained

variable {limit : Nat} {sm : StateMachine}

lemma le (h : Retained limit sm) {e : DeletedVersion} (he : e ∈ sm.deletedLog) :
    e.seq ≤ sm.deletedSeq := by
  have hseq := mem_map_of_mem (f := (·.seq)) he
  rw [h.seqs, mem_range'_1] at hseq
  have hlength := h.length
  omega

lemma filter_eq_nil (h : Retained limit sm) :
    sm.deletedLog.filter (sm.deletedSeq < ·.seq) = [] := by
  rw [filter_eq_nil_iff]
  intro e he
  have hle := h.le he
  simpa using hle

variable (kbID : String) (v : Nat)

lemma filter_recordDeletion (h : Retained limit sm) :
    (sm.recordDeletion kbID v).deletedLog.filter (sm.deletedSeq < ·.seq) =
      [⟨sm.deletedSeq + 1, kbID, v⟩] := by
  have hold : (sm.deletedLog.drop (sm.deletedLog.length + 1 - sm.deletedLogLimitOrDefault)).filter
      (sm.deletedSeq < ·.seq) = [] := by
    rw [filter_eq_nil_iff]
    intro e he
    have hle := h.le (mem_of_mem_drop he)
    simpa using hle
  rw [recordDeletion_eq, filter_append, hold]
  simp

lemma recordDeletion (h : Retained limit sm) : Retained limit (sm.recordDeletion kbID v) := by
  have hlog := recordDeletion_eq sm kbID v
  have hlength := h.length
  have hpos := deletedLogLimitOrDefault_pos sm
  refine ⟨h.limit, ?_, ?_, ?_⟩
  · change _ ≤ sm.deletedSeq + 1
    rw [hlog, length_append, length_drop, length_singleton]
    omega
  · change _ = range' (sm.deletedSeq + 1 + 1 - _) _
    rw [hlog, map_append, map_drop, h.seqs, drop_range', length_append,
      length_drop, length_singleton, map_singleton, range'_1_concat]
    congr 2
    · omega
    · dsimp only
      omega
  · change _ ≤ sm.deletedLogLimitOrDefault
    rw [hlog, length_append, length_drop, length_singleton]
    omega

end Retained

/-- The version was there and is gone. -/
abbrev Gone (v : Nat) (sm : StateMachine) : Prop :=
  0 < v ∧ v < sm.nextVersionID ∧ sm.versions v = none

/-- A version that is gone has one record, any other has none. -/
structure Accounted (limit v : Nat) (l : Ledger) : Prop where
  wf : WellFormed l.sm
  retained : Retained limit l.sm
  count : l.records.countP (covers v) = if Gone v l.sm then 1 else 0

namespace Accounted

variable {limit v : Nat} {l : Ledger} {sm : StateMachine}

section

variable (h : Accounted limit v l) (hwf : WellFormed sm) (hretained : Retained limit sm)

include h hwf hretained

lemma quiet (hnone : sm.deletedLog.filter (l.sm.deletedSeq < ·.seq) = [])
    (hgone : Gone v l.sm ↔ Gone v sm) : Accounted limit v (l.enter sm) := by
  refine ⟨hwf, hretained, ?_⟩
  have hrecords : (l.enter sm).records = l.records := by simp [Ledger.enter, hnone]
  rw [hrecords, h.count]
  exact if_congr hgone rfl rfl

lemma recorded {e : DeletedVersion} (hnew : sm.deletedLog.filter (l.sm.deletedSeq < ·.seq) = [e])
    (hnext : sm.nextVersionID = l.sm.nextVersionID)
    (hversions : sm.versions v = if covers v (l.sm, e) then none else l.sm.versions v) :
    Accounted limit v (l.enter sm) := by
  refine ⟨hwf, hretained, ?_⟩
  have hcount : (l.enter sm).records.countP (covers v) =
      l.records.countP (covers v) + if covers v (l.sm, e) then 1 else 0 := by
    simp [Ledger.enter, hnew]
  rw [hcount, h.count]
  by_cases hcovers : covers v (l.sm, e) = true
  · obtain ⟨m, hm, -⟩ := h.wf.present (of_decide_eq_true hcovers).1
    rw [if_pos hcovers] at hversions
    rw [if_pos hcovers, if_neg fun hgone => ?_, if_pos]
    · exact ⟨h.wf.pos hm, hnext.symm ▸ h.wf.lt_next hm, hversions⟩
    · cases hm.symm.trans hgone.2.2
  · rw [if_neg hcovers] at hversions ⊢
    change _ = if 0 < v ∧ v < sm.nextVersionID ∧ sm.versions v = none then 1 else 0
    rw [hnext, hversions, Nat.add_zero]

lemma keptAll (hnone : sm.deletedLog.filter (l.sm.deletedSeq < ·.seq) = [])
    (hkept : KeptAll l.sm sm) : Accounted limit v (l.enter sm) := by
  refine h.quiet hwf hretained hnone ?_
  have hsome : l.sm.versions v = none ↔ sm.versions v = none := by
    have hrel := hkept.versions v
    generalize l.sm.versions v = before, sm.versions v = after at hrel
    cases hrel with
    | none => exact Iff.rfl
    | some hone => exact iff_of_false (Option.some_ne_none _) (Option.some_ne_none _)
  rw [Gone, Gone, hsome, hkept.next]

end

lemma step (h : Accounted limit v l) {now : Int} {cmd : Command}
    (hok : NotDiscarded v l (now, cmd)) : Accounted limit v (l.enter (l.sm.apply now cmd).1) := by
  have hwf := h.wf.apply now cmd
  have happlied := Applied.apply l.sm now cmd
  have hnone := h.retained.filter_eq_nil
  obtain ⟨hlimit, hlength, hseqs, hbounded⟩ := h.retained
  simp only [NotDiscarded] at hok
  generalize l.sm.apply now cmd = result at happlied hwf hok ⊢
  cases happlied with
  | refused | unchanged | createKB | setKBStatus | rollback =>
    exact h.keptAll hwf ⟨hlimit, hlength, hseqs, hbounded⟩ hnone (.of_same rfl rfl rfl)
  | revised cmd u m m' hm hrevision =>
    exact h.keptAll hwf ⟨hlimit, hlength, hseqs, hbounded⟩ hnone
      (SteadyAll.setVersion hm hrevision.steady).kept
  | marked u root mode kb targets hkb hroot htargets =>
    have hkept := KeptAll.marked h.wf hroot htargets
    obtain ⟨versions, heq⟩ := l.sm.marked_eq root.kbID u root mode targets
    rw [heq] at hkept
    simp only [heq] at hwf ⊢
    exact h.keptAll hwf ⟨hlimit, hlength, hseqs, hbounded⟩ hnone hkept
  | createVersion kbID parent clientRequestID =>
    refine h.quiet hwf ⟨hlimit, hlength, hseqs, hbounded⟩ hnone ?_
    change _ ↔ 0 < v ∧ v < l.sm.nextVersionID + 1 ∧ _
    rw [allocateVersion_versions]
    by_cases hv : v = l.sm.nextVersionID
    · simp [hv]
    · have hlt : v < l.sm.nextVersionID + 1 ↔ v < l.sm.nextVersionID := by omega
      rw [if_neg hv, hlt]
  | removeKBMeta kbID =>
    obtain ⟨hlimit', hlength', hseqs', hbounded'⟩ := h.retained.recordDeletion kbID 0
    refine h.recorded hwf ⟨hlimit', hlength', hseqs', hbounded'⟩
      (h.retained.filter_recordDeletion kbID 0) rfl ?_
    simp [covers, applyRemoveKBMeta, accept, recordDeletion, dropRequestMappings]
  | removeVersionMeta u m hm =>
    obtain ⟨hlimit', hlength', hseqs', hbounded'⟩ := h.retained.recordDeletion m.kbID u
    refine h.recorded hwf ⟨hlimit', hlength', hseqs', hbounded'⟩
      (h.retained.filter_recordDeletion m.kbID u) rfl ?_
    change Function.update l.sm.versions u none v = _
    by_cases hv : v = u
    · subst hv
      simp [covers, h.wf.listed hm]
    · simp [covers, hv, Ne.symm hv, Nat.ne_of_gt (h.wf.pos hm)]
  | discardVersion u m kb hkb hm =>
    refine h.quiet hwf ⟨hlimit, hlength, hseqs, hbounded⟩ hnone ?_
    have hne : v ≠ u := by
      rintro rfl
      cases hok rfl
    change _ ↔ 0 < v ∧ v < l.sm.nextVersionID ∧ Function.update l.sm.versions u none v = none
    rw [Function.update_of_ne hne]

end Accounted

/-- Every disappearance is logged: a version that was in the metadata and is gone, and that was
not discarded, is covered by exactly one of the deletion records ever appended; the records
retained are numbered consecutively up to the counter, and no more than the limit. -/
theorem disappearance_recorded_once (limit : Nat) (epoch : String) {v : Nat}
    {earlier later : Ledger}
    (hearlier : Reach Ledger.step (NotDiscarded v) { sm := newStateMachine limit epoch } earlier)
    (hlater : Reach Ledger.step (NotDiscarded v) earlier later) {m : VersionMeta}
    (hexisted : earlier.sm.versions v = some m) :
    (later.sm.versions v = none → later.records.countP (covers v) = 1) ∧
    later.sm.deletedLog.map (·.seq) =
      range' (later.sm.deletedSeq + 1 - later.sm.deletedLog.length) later.sm.deletedLog.length ∧
    later.sm.deletedLog.length ≤ (newStateMachine limit epoch).deletedLogLimitOrDefault := by
  have hinit : Accounted limit v { sm := newStateMachine limit epoch } := by
    refine ⟨wellFormed_newStateMachine limit epoch, ⟨rfl, Nat.le_refl _, rfl, Nat.zero_le _⟩,
      (if_neg ?_).symm⟩
    rintro ⟨hpos, hlt, -⟩
    exact absurd hlt (Nat.not_lt.mpr hpos)
  have hstep : ∀ l l' a, Accounted limit v l → NotDiscarded v l a → Ledger.step l a = some l' →
      Accounted limit v l' := by
    rintro l l' ⟨now, cmd⟩ h hok hstep
    cases hstep
    exact h.step hok
  have hbefore := hearlier.invariant _ hinit fun l l' a _ => hstep l l' a
  obtain ⟨hafter, hnext⟩ := hlater.invariant (fun l => Accounted limit v l ∧
      earlier.sm.nextVersionID ≤ l.sm.nextVersionID) ⟨hbefore, Nat.le_refl _⟩ (by
    rintro l l' a - ⟨h, hle⟩ hok hstep'
    refine ⟨hstep l l' a h hok hstep', ?_⟩
    cases hstep'
    exact Nat.le_trans hle (next_le_apply h.wf a.1 a.2))
  refine ⟨fun hgone => ?_, hafter.retained.seqs, ?_⟩
  · rw [hafter.count, if_pos]
    exact ⟨hbefore.wf.pos hexisted, Nat.lt_of_lt_of_le (hbefore.wf.lt_next hexisted) hnext, hgone⟩
  · have hbounded := hafter.retained.bounded
    rwa [deletedLogLimitOrDefault, hafter.retained.limit] at hbounded

/-- A version is removed, and after it its knowledge base: of the two records one covers it. -/
theorem disappearance_recorded_once_removed : ∃ earlier later : Ledger,
    Reach Ledger.step (NotDiscarded 1) { sm := newStateMachine 8 "epoch" } earlier ∧
      Reach Ledger.step (NotDiscarded 1) earlier later ∧ later.records.length = 2 ∧
      later.records.countP (covers 1) = 1 := by
  obtain ⟨earlier, hearlier, hsome, hrun⟩ : ∃ earlier,
      Reach Ledger.step (NotDiscarded 1) { sm := newStateMachine 8 "epoch" } earlier ∧
        (earlier.sm.versions 1).isSome ∧ (run Ledger.step (NotDiscarded 1) earlier
          [(0, .removeVersionMeta "kb" 1), (0, .removeKBMeta "kb")]).any (fun later =>
            decide (later.sm.versions 1 = none ∧ later.records.length = 2)) :=
    Reach.exists_decide [(0, .createKB { kbID := "kb" }), (0, .createVersion "kb" 0 "")]
      (by decide +kernel)
  obtain ⟨m, hm⟩ := Option.isSome_iff_exists.mp hsome
  obtain ⟨later, hlater, hend⟩ := Reach.exists_of_run hrun
  obtain ⟨hgone, htwo⟩ := of_decide_eq_true hend
  exact ⟨earlier, later, hearlier, hlater, htwo,
    (disappearance_recorded_once 8 "epoch" hearlier hlater hm).1 hgone⟩

/-- A discarded version disappears without a record. -/
theorem disappearance_unrecorded : ∃ l : Ledger,
    Reachable Ledger.step { sm := newStateMachine 8 "epoch" } l ∧
      (l.sm.versions 1).isSome ∧ ∃ later ∈ l.step (0, .discardVersion "kb" 1),
        later.sm.versions 1 = none ∧ later.records.countP (covers 1) = 0 :=
  Reach.exists_decide [(0, .createKB { kbID := "kb" }), (0, .createVersion "kb" 0 "")]
    (by decide +kernel)

end stratum.metadata
