import Stratum.Metadata.Revised
import Stratum.Version.Base

namespace stratum.version

open stratum.metadata StateMachine

variable {w : World} {sm' : StateMachine} {v : Nat} {m m' : VersionMeta}

/-- The parent of an unwritten version stays live if its entry keeps its knowledge base and
is not marked. -/
lemma Waiting.of_sm (hwait : Waiting w v m) (hindex : m'.indexStatus = .pending)
    (hdata : m'.dataStatus = .pending) (hdel : m'.deleting = false) (hkb : m'.kbID = m.kbID)
    (hparent : m'.parentVersionID = m.parentVersionID)
    (hlive : m.parentVersionID ≠ 0 → World.Live { w with sm := sm' } m.kbID m.parentVersionID) :
    Waiting { w with sm := sm' } v m' where
  index := hindex
  data := hdata
  deleting := hdel
  parent hne := by
    rw [hparent] at hne ⊢
    rw [hkb]
    exact hlive hne
  created := by
    obtain ⟨c, hc, hcp⟩ := hwait.created
    exact ⟨c, hc, hcp.trans hparent.symm⟩

/-- The commands the steps of a history come to, other than the creation of a version: reports are
about written versions, and only marked versions are removed. -/
def World.Issues (w : World) : Command → Prop
  | .updateVersionStatus v status _ => status = .pending ∨ (status = .ready ∧ w.landed v = true)
  | .updateVersionSummary v _ => w.landed v = true
  | .removeVersionMeta kbID v => w.Deleting kbID v
  | .createKB _ | .rollback .. | .markVersionDeleting .. | .discardVersion .. => True
  | _ => False

lemma Waiting.reported {cmd : Command} (hwait : Waiting w v m) (hok : w.Issues cmd)
    (hlanded : w.landed v = false) (hrevision : Revision v m cmd m') :
    m'.indexStatus = .pending ∧ m'.dataStatus = .pending := by
  cases hrevision with
  | status status nodeID nodes hnodes =>
    obtain hpending | ⟨-, hland⟩ := hok
    · exact ⟨hpending, hwait.data⟩
    · rw [hlanded] at hland
      cases hland
  | summary docIDSetHash hdata hindex =>
    rw [World.Issues, hlanded] at hok
    cases hok
  | durable | indexFailed | dataFailed | retried => exact hok.elim

namespace Base

/-- Commands that report on versions or knowledge bases, and leave an unwritten version pending. -/
lemma of_steady (hbase : Base w) (hsteady : SteadyAll w.sm sm')
    (hpending : ∀ v m', sm'.versions v = some m' → w.landed v = false → m'.indexStatus = .pending ∧
      m'.dataStatus = .pending) : Base { w with sm := sm' } := by
  refine hbase.of_sm (hbase.wf.kept hsteady.kept) hsteady.next ?_ ?_
  · intro v m' hm'
    obtain ⟨m, hm, hone⟩ := hsteady.before hm'
    exact ⟨m, hm, hone.kbID, hone.deleting.trans⟩
  intro v m' hm' hlanded
  obtain ⟨m, hm, hone⟩ := hsteady.before hm'
  obtain ⟨hindex, hdata⟩ := hpending v m' hm' hlanded
  have hwait := hbase.waiting hm hlanded
  refine hwait.of_sm hindex hdata (hone.deleting.trans hwait.deleting) hone.kbID
    hone.parentVersionID ?_
  intro hne
  obtain ⟨p, hp, hpkb, hpdel, hplanded⟩ := hwait.parent hne
  obtain ⟨p', hp', htwo⟩ := hsteady.after hp
  exact ⟨p', hp', htwo.kbID.trans hpkb, htwo.deleting.trans hpdel, hplanded⟩

/-- Commands that remove one version which no unwritten version has as its parent. -/
lemma of_removed (hbase : Base w) {u : Nat} {n : VersionMeta} (hn : w.sm.versions u = some n)
    (hversions : sm'.versions = Function.update w.sm.versions u none)
    (hlists : sm'.versionsByKB = Function.update w.sm.versionsByKB n.kbID ((w.sm.versionsByKB
      n.kbID).erase u)) (hnext : sm'.nextVersionID = w.sm.nextVersionID)
    (horphan : ∀ v m, w.sm.versions v = some m → w.landed v = false → m.parentVersionID ≠ u) :
    Base { w with sm := sm' } := by
  refine hbase.of_sm (hbase.wf.removed hn hversions hlists hnext) hnext ?_ ?_
  · intro v m' hm'
    exact ⟨m', (eq_some_of_removed hversions hm').2, rfl, id⟩
  intro v m' hm' hlanded
  obtain ⟨-, hm⟩ := eq_some_of_removed hversions hm'
  have hwait := hbase.waiting hm hlanded
  refine hwait.of_sm hwait.index hwait.data hwait.deleting rfl rfl ?_
  intro hne
  obtain ⟨p, hp, hrest⟩ := hwait.parent hne
  refine ⟨p, ?_, hrest⟩
  rw [hversions, Function.update_of_ne (horphan v m' hm hlanded), hp]

/-- An unwritten version is left as it is by a deletion, and so is its parent's mark: the
admission check refuses to remove either. -/
lemma marked (hbase : Base w) {kbID : String} {u : Nat} {kb : KnowledgeBaseMeta}
    {root : VersionMeta} {mode : VersionDeleteMode} {targets : List Nat}
    (hroot : w.sm.versions u = some root) (hown : root.kbID = kbID)
    (htargets : w.sm.versionDeleteTargets kbID u mode = .ok targets)
    (hrefused : targets.findSome? (w.sm.targetRefused kb kbID) = none)
    (hsurvivors : w.sm.validateSurvivorsNotPending kbID targets = none) :
    Base { w with sm := (w.sm.rewire kbID u root mode).markDeleting targets } := by
  have hkept := KeptAll.marked hbase.wf hroot htargets
  refine hbase.of_sm (hbase.wf.kept hkept) hkept.next ?_ ?_
  · intro v m' hm'
    obtain ⟨m, hm, hone⟩ := hkept.exists_before hm'
    exact ⟨m, hm, hone.kbID, hone.deleting⟩
  intro v m' hm' hlanded
  rw [marked_versions hroot htargets, Option.map_eq_some_iff] at hm'
  obtain ⟨m, hm, rfl⟩ := hm'
  have hwait := hbase.waiting hm hlanded
  have hblocked : deleteBlockedByPending m = true := by
    simp [deleteBlockedByPending, hwait.index, hwait.data]
  have hout : v ∉ targets := by
    intro hin
    have hnone := List.findSome?_eq_none_iff.mp hrefused v hin
    simp only [targetRefused, version, hm, Option.getD_some, hblocked, if_true] at hnone
    split at hnone <;> cases hnone
  obtain ⟨hstays, hparent⟩ := hbase.wf.survivor_kept hroot hown htargets hsurvivors hm hout
    (fun _ => hblocked) fun hne => by
      obtain ⟨p, hp, hpkb, -, -⟩ := hwait.parent hne
      exact ⟨p, hp, hpkb⟩
  refine hwait.of_sm hwait.index hwait.data (by simp [hwait.deleting, hout]) rfl hparent ?_
  intro hne
  obtain ⟨p, hp, hpkb, hpdel, hplanded⟩ := hwait.parent hne
  refine ⟨_, (marked_versions hroot htargets _).trans (congrArg _ hp), hpkb, ?_, hplanded⟩
  simp [hpdel, hstays]

lemma command (hbase : Base w) {cmd : Command} (hok : w.Issues cmd) :
    Base { w with sm := (w.sm.apply 0 cmd).1 } := by
  cases Change.apply w.sm 0 cmd with
  | steady hsteady =>
    refine hbase.of_steady hsteady fun v m' hm' hlanded => ?_
    cases Source.of_apply hm' with
    | allocated kbID parent key hcmd =>
      subst hcmd
      exact hok.elim
    | revised m hm hrevised =>
    have hwait := hbase.waiting hm hlanded
    cases hrevised with
    | same | marked => exact ⟨hwait.index, hwait.data⟩
    | reported m' hrevision => exact hwait.reported hok hlanded hrevision
  | allocated _ kbID parent key hcmd =>
    subst hcmd
    exact hok.elim
  | marked kbID u mode kb root targets _ _ hroot hown htargets hrefused hsurvivors heq =>
    rw [heq]
    exact hbase.marked hroot hown htargets hrefused hsurvivors
  | removed u n hn hcmd hversions hlists hnext =>
    refine hbase.of_removed hn hversions hlists hnext ?_
    rintro v m hm hlanded rfl
    -- The parent of an unwritten version is live, hence neither marked nor childless.
    obtain ⟨p, hp, hpkb, hpdel, -⟩ :=
      (hbase.waiting hm hlanded).parent (Nat.pos_iff_ne_zero.mp (hbase.wf.pos hn))
    rw [hn, Option.some.injEq] at hp
    subst hp
    obtain rfl | ⟨-, hchildless⟩ := hcmd
    · simp [World.Issues, World.Deleting, hn, hpdel] at hok
    · exact hchildless v (hpkb ▸ hbase.wf.listed hm) m hm rfl
  | removedKB kbID hcmd =>
    subst hcmd
    exact hok.elim

end Base

end stratum.version
