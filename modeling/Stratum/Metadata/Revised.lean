import Stratum.Metadata.Linear

namespace stratum.metadata

open stratum.lib StateMachine

/-- What one command makes of the metadata `m` of version `v`, where it leaves the version in
place: nothing, what it reports about the version, or what a deletion changes. -/
inductive Revised (sm : StateMachine) (cmd : Command) (v : Nat) (m : VersionMeta) :
    VersionMeta → Prop
  | same : Revised sm cmd v m m
  | reported (m' : VersionMeta) (hrevision : Revision v m cmd m') : Revised sm cmd v m m'
  | marked (kbID : String) (u : Nat) (mode : VersionDeleteMode) (kb : KnowledgeBaseMeta)
      (root : VersionMeta) (targets : List Nat) (hcmd : cmd = .markVersionDeleting kbID u mode)
      (hkb : sm.kbs kbID = some kb) (hroot : sm.versions u = some root) (hown : root.kbID = kbID)
      (htargets : sm.versionDeleteTargets kbID u mode = .ok targets)
      (hrefused : targets.findSome? (sm.targetRefused kb kbID) = none)
      (hsurvivors : sm.validateSurvivorsNotPending kbID targets = none) :
      Revised sm cmd v m { m with
        parentVersionID := sm.newParent kbID u root mode v m
        deleting := m.deleting || decide (v ∈ targets) }

/-- Where the metadata `m'` of a version comes from that a command leaves behind: from what it
was before, or the command allocated the version. -/
inductive Source (sm : StateMachine) (now : Int) (cmd : Command) (v : Nat) (m' : VersionMeta) :
    Prop
  | revised (m : VersionMeta) (hm : sm.versions v = some m) (hrevised : Revised sm cmd v m m')
  | allocated (kbID : String) (parent : Nat) (clientRequestID : String)
      (hcmd : cmd = .createVersion kbID parent clientRequestID) (hkb : (sm.kbs kbID).isSome)
      (hnew : sm.requestedVersion kbID clientRequestID = none)
      (hparent : sm.parentRefused kbID parent = none) (hv : v = sm.nextVersionID)
      (hm' : m' = newVersion now v kbID parent)

lemma Source.of_apply {sm : StateMachine} {now : Int} {cmd : Command} {v : Nat} {m' : VersionMeta}
    (hm' : (sm.apply now cmd).1.versions v = some m') : Source sm now cmd v m' := by
  have happlied := Applied.apply sm now cmd
  generalize sm.apply now cmd = result at happlied hm'
  cases happlied with
  | refused | unchanged | createKB | setKBStatus | rollback => exact .revised m' hm' .same
  | removeKBMeta kbID => exact .revised m' (eq_some_of_removedKB rfl hm').2 .same
  | createVersion kbID parent clientRequestID hkb hnew hparent =>
    obtain ⟨rfl, rfl⟩ | hm := eq_some_of_allocateVersion hm'
    · exact .allocated kbID parent clientRequestID rfl hkb hnew hparent rfl rfl
    · exact .revised m' hm .same
  | revised cmd u n n' hn hrevision =>
    by_cases hv : v = u
    · subst hv
      have heq : n' = m' := by simpa [accept, setVersion] using hm'
      exact .revised n hn (heq ▸ .reported n' hrevision)
    · refine .revised m' ?_ .same
      simpa [accept, setVersion, hv] using hm'
  | marked u root mode kb targets hkb hroot htargets hrefused hsurvivors =>
    rw [marked_versions hroot htargets, Option.map_eq_some_iff] at hm'
    obtain ⟨m, hm, rfl⟩ := hm'
    exact .revised m hm
      (.marked root.kbID u mode kb root targets rfl hkb hroot rfl htargets hrefused hsurvivors)
  | removeVersionMeta | discardVersion => exact .revised m' (eq_some_of_removed rfl hm').2 .same

/-- What every admitted command keeps of the metadata of a version stays as long as the version
is there: its id is not given out again. -/
lemma Revised.of_reach {Ok : StateMachine → Int × Command → Prop} {sm later : StateMachine}
    (hlater : Reach step Ok sm later) (hwf : WellFormed sm) {v : Nat}
    (hlt : v < sm.nextVersionID) (P : VersionMeta → Prop) (hP : ∀ m, sm.versions v = some m → P m)
    (hkeep : ∀ t now cmd m m', Ok t (now, cmd) → Revised t cmd v m m' → P m → P m') :
    ∀ m, later.versions v = some m → P m := by
  refine (hlater.invariant (fun t => WellFormed t ∧ v < t.nextVersionID ∧
    ∀ m, t.versions v = some m → P m) ⟨hwf, hlt, hP⟩ ?_).2.2
  rintro t t' ⟨now, cmd⟩ - ⟨hwf, hlt, hP⟩ hok hstep
  cases hstep
  refine ⟨hwf.apply now cmd, Nat.lt_of_lt_of_le hlt (next_le_apply hwf now cmd), ?_⟩
  intro m' hm'
  cases Source.of_apply hm' with
  | revised m hm hrevised => exact hkeep t now cmd m m' hok hrevised (hP m hm)
  | allocated _ _ _ _ _ _ _ hv _ => exact absurd hv (Nat.ne_of_lt hlt)

end stratum.metadata
