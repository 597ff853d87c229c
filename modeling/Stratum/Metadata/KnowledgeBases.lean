import Stratum.Metadata.Linear
import Stratum.Metadata.Replay

namespace stratum.metadata

open stratum.lib StateMachine Option Function

/-- The active version of a knowledge base is none, or one of its versions that is not being
deleted. -/
def Usable (sm : StateMachine) (kbID : String) (active : Nat) : Prop :=
  active = 0 ∨ ∃ m, sm.versions active = some m ∧ m.kbID = kbID ∧ m.deleting = false

def AllUsable (sm : StateMachine) : Prop :=
  ∀ kbID kb, sm.kbs kbID = some kb → Usable sm kbID kb.activeVersionID

def Command.createdKB? : Command → Option KnowledgeBaseMeta
  | .createKB kb => some kb
  | _ => none

/-- The version whose metadata a command removes at the end of its deletion, with the knowledge
base it names. -/
def Command.removal? : Command → Option (String × Nat)
  | .removeVersionMeta kbID versionID => some (kbID, versionID)
  | _ => none

/-- A knowledge base is created without an active version, and the removal of a version's metadata
is not asked for while it is the active one. -/
abbrev KeepsActive (sm : StateMachine) (a : Int × Command) : Prop :=
  (∀ kb ∈ a.2.createdKB?, kb.activeVersionID = 0) ∧
    ∀ r ∈ a.2.removal?, ∀ kb ∈ sm.kbs r.1, kb.activeVersionID ≠ r.2

variable {kbID : String} {sm : StateMachine} {kb : KnowledgeBaseMeta} {cmd : Command} {now : Int}

lemma Usable.imp {sm' : StateMachine} {active : Nat} (h : Usable sm kbID active)
    (hkeep : ∀ m, sm.versions active = some m → m.kbID = kbID → m.deleting = false → ∃ m',
      sm'.versions active = some m' ∧ m'.kbID = kbID ∧ m'.deleting = false) :
    Usable sm' kbID active := by
  obtain hzero | ⟨m, hm, hkb, hdel⟩ := h
  · exact .inl hzero
  · exact .inr (hkeep m hm hkb hdel)

lemma StateMachine.eq_some_of_setKB {kbID' : String} {kb' : KnowledgeBaseMeta}
    (hkb' : (sm.setKB kbID kb).kbs kbID' = some kb') :
    kbID' = kbID ∧ kb = kb' ∨ sm.kbs kbID' = some kb' := by
  by_cases hkb : kbID' = kbID
  · exact .inl ⟨hkb, by simpa [setKB, hkb] using hkb'⟩
  · exact .inr (by simpa [setKB, hkb] using hkb')

namespace AllUsable

variable {sm sm' : StateMachine} (h : AllUsable sm)

include h

/-- The removal of one version leaves the active versions usable, unless it is one of them. -/
lemma removed {v : Nat} {m : VersionMeta} (hm : sm.versions v = some m)
    (hactive : ∀ kb, sm.kbs m.kbID = some kb → kb.activeVersionID ≠ v)
    (hversions : sm'.versions = update sm.versions v none) (hkbs : sm'.kbs = sm.kbs) :
    AllUsable sm' := by
  intro kbID kb hkb
  rw [hkbs] at hkb
  refine (h kbID kb hkb).imp fun n hn hown hdel => ⟨n, ?_, hown, hdel⟩
  have hne : kb.activeVersionID ≠ v := by
    intro heq
    rw [heq, hm, some.injEq] at hn
    subst hn hown
    exact hactive kb hkb heq
  rw [hversions, update_of_ne hne, hn]

/-- A deletion refuses to take the active version. -/
lemma marked (hwf : WellFormed sm) {v : Nat} {root : VersionMeta} {mode : VersionDeleteMode}
    {targets : List Nat} (hkb : sm.kbs root.kbID = some kb) (hroot : sm.versions v = some root)
    (htargets : sm.versionDeleteTargets root.kbID v mode = .ok targets)
    (hrefused : targets.findSome? (sm.targetRefused kb root.kbID) = none) :
    AllUsable ((sm.rewire root.kbID v root mode).markDeleting targets) := by
  intro kbID kb' hkb'
  obtain ⟨versions, heq⟩ := sm.marked_eq root.kbID v root mode targets
  rw [heq] at hkb'
  refine (h kbID kb' hkb').imp fun m hm hown hdel => ?_
  have hout : kb'.activeVersionID ∉ targets := by
    intro hin
    have hnone := List.findSome?_eq_none_iff.mp hrefused _ hin
    have hkbID := hwf.target_kbID hroot rfl htargets hin hm
    rw [← hown, hkbID, hkb, some.injEq] at hkb'
    rw [targetRefused, if_pos (congrArg _ hkb')] at hnone
    cases hnone
  rw [marked_versions hroot htargets, hm]
  exact ⟨_, rfl, hown, by simp [hdel, hout]⟩

lemma apply (hwf : WellFormed sm) (hkeeps : KeepsActive sm (now, cmd)) :
    AllUsable (sm.apply now cmd).1 := by
  obtain ⟨hcreated, hremoval⟩ := hkeeps
  have happlied := Applied.apply sm now cmd
  generalize sm.apply now cmd = result at happlied ⊢
  cases happlied with
  | refused | unchanged => exact h
  | createKB kb =>
    intro kbID kb' hkb'
    obtain ⟨-, rfl⟩ | hkb' := eq_some_of_setKB hkb'
    · exact .inl (hcreated kb rfl)
    · exact h kbID kb' hkb'
  | setKBStatus cmd kbID kb status hcmd hkb =>
    intro kbID' kb' hkb'
    obtain ⟨rfl, rfl⟩ | hkb' := eq_some_of_setKB hkb'
    · exact h kbID' kb hkb
    · exact h kbID' kb' hkb'
  | rollback v m kb hkb hm hdel =>
    intro kbID kb' hkb'
    obtain ⟨rfl, rfl⟩ | hkb' := eq_some_of_setKB hkb'
    · exact .inr ⟨m, hm, rfl, hdel⟩
    · exact h kbID kb' hkb'
  | removeKBMeta kbID =>
    intro kbID' kb' hkb'
    have hkbs : (sm.applyRemoveKBMeta kbID).1.kbs = update sm.kbs kbID none := rfl
    rw [hkbs] at hkb'
    by_cases hkb : kbID' = kbID
    · rw [hkb, update_self] at hkb'
      cases hkb'
    rw [update_of_ne hkb] at hkb'
    refine (h kbID' kb' hkb').imp fun m hm hown hdel => ⟨m, ?_, hown, hdel⟩
    refine (if_neg fun hin => hkb ?_).trans hm
    obtain ⟨n, hn, hnkb⟩ := hwf.present hin
    rw [hm, some.injEq] at hn
    rw [← hown, hn, hnkb]
  | createVersion kbID parent clientRequestID =>
    intro kbID' kb' hkb'
    refine (h kbID' kb' hkb').imp fun m hm hown hdel => ⟨m, ?_, hown, hdel⟩
    rw [allocateVersion_versions, if_neg (Nat.ne_of_lt (hwf.lt_next hm)), hm]
  | revised cmd v m m' hm hrevision =>
    intro kbID kb' hkb'
    refine (h kbID kb' hkb').imp fun n hn hown hdel => ?_
    obtain ⟨n', hn', hsteady⟩ := (SteadyAll.setVersion hm hrevision.steady).after hn
    exact ⟨n', hn', hsteady.kbID.trans hown, hsteady.deleting.trans hdel⟩
  | marked v root mode kb targets hkb hroot htargets hrefused hsurvivors =>
    exact h.marked hwf hkb hroot htargets hrefused
  | removeVersionMeta v m hm => exact h.removed hm (hremoval _ rfl) rfl rfl
  | discardVersion v m kb hkb hm hactive =>
    refine h.removed hm (fun kb' hkb' => ?_) rfl rfl
    rw [← some.inj (hkb.symm.trans hkb')]
    exact hactive

end AllUsable

/-- The active version of a knowledge base is always usable: in every run of commands that create
knowledge bases without an active version and do not remove the metadata of an active version, it
is none or an existing version of the knowledge base that is not being deleted. -/
theorem active_version_usable (limit : Nat) (epoch : String) {sm : StateMachine}
    (hreach : Reach step KeepsActive (newStateMachine limit epoch) sm) :
    ∀ kbID kb, sm.kbs kbID = some kb →
      kb.activeVersionID = 0 ∨ ∃ m, sm.versions kb.activeVersionID = some m ∧ m.kbID = kbID ∧
        m.deleting = false := by
  refine (hreach.invariant (fun sm => WellFormed sm ∧ AllUsable sm)
    ⟨wellFormed_newStateMachine limit epoch, nofun⟩ ?_).2
  rintro sm sm' ⟨now, cmd⟩ - ⟨hwf, husable⟩ hkeeps hstep
  cases hstep
  exact ⟨hwf.apply now cmd, husable.apply hwf hkeeps⟩

def activeRun : List (Int × Command) :=
  [(0, .createKB { kbID := "kb" }), (0, .createVersion "kb" 0 ""), (0, .markDataDurable 1),
    (0, .rollback "kb" 1)]

/-- A second version becomes active, and the first one is deleted. -/
theorem active_version_usable_moved : ∃ sm,
    Reach step KeepsActive (newStateMachine 8 "epoch") sm ∧
      (sm.kbs "kb").map (·.activeVersionID) = some 2 ∧ sm.versions 1 = none ∧
      ∃ m, sm.versions 2 = some m ∧ m.kbID = "kb" ∧ m.deleting = false := by
  obtain ⟨sm, hreach, hactive, hgone⟩ : ∃ sm,
      Reach step KeepsActive (newStateMachine 8 "epoch") sm ∧
        (sm.kbs "kb").map (·.activeVersionID) = some 2 ∧ sm.versions 1 = none :=
    Reach.exists_decide (activeRun ++ [(0, Command.updateVersionStatus 1 .ready 0),
      (0, .createVersion "kb" 1 ""), (0, .updateVersionSummary 2 "digest"),
      (0, .updateVersionStatus 2 .ready 0), (0, .rollback "kb" 2),
      (0, .markVersionDeleting "kb" 1 .single), (0, .removeVersionMeta "kb" 1)]) (by decide +kernel)
  obtain ⟨kb, hkb, htwo⟩ := map_eq_some_iff.mp hactive
  obtain hzero | hm := active_version_usable 8 "epoch" hreach "kb" kb hkb
  · rw [htwo] at hzero
    cases hzero
  · rw [htwo] at hm
    exact ⟨sm, hreach, hactive, hgone, hm⟩

/-- The metadata of an active version is removed without a deletion before it, and the knowledge
base still names it. -/
theorem active_version_removed : ∃ sm,
    Reachable step (newStateMachine 8 "epoch") sm ∧
      (sm.kbs "kb").map (·.activeVersionID) = some 1 ∧ sm.versions 1 = none :=
  Reach.exists_decide (activeRun ++ [(0, Command.removeVersionMeta "kb" 1)]) (by decide +kernel)

/-- The parent and the request a command would create a version of the knowledge base with. -/
def Command.created? (kbID : String) : Command → Option (Nat × String)
  | .createVersion kb parent clientRequestID =>
    if kb = kbID then some (parent, clientRequestID) else none
  | _ => none

lemma Command.eq_of_mem_created? {clientRequestID : String} {parent : Nat}
    (hcreated : (parent, clientRequestID) ∈ cmd.created? kbID) :
    cmd = .createVersion kbID parent clientRequestID := by
  unfold created? at hcreated
  split at hcreated
  · obtain ⟨rfl, ⟨⟩⟩ := ite_none_right_eq_some.mp hcreated
    rfl
  · cases hcreated

/-- A version of the knowledge base is asked for only by the repetition of a known request, or
with a parent that is refused. -/
abbrev NoNewVersion (kbID : String) (sm : StateMachine) (a : Int × Command) : Prop :=
  ∀ c ∈ a.2.created? kbID,
    (sm.requestedVersion kbID c.2).isSome ∨ (sm.parentRefused kbID c.1).isSome

/-- Every version of the knowledge base is one of the list. -/
def Within (kbID : String) (list : List Nat) (sm : StateMachine) : Prop :=
  ∀ v ∈ sm.versionsByKB kbID, v ∈ list

lemma kb_kept (hcmd : cmd ≠ .removeKBMeta kbID) (hkb : (sm.kbs kbID).isSome) :
    ((sm.apply now cmd).1.kbs kbID).isSome := by
  cases Change.apply sm now cmd with
  | steady hsteady => exact hsteady.kbs hkb
  | allocated now' kb parent key _ _ _ _ heq =>
    rw [heq]
    exact hkb
  | marked kb u mode kbMeta root targets _ _ _ _ _ _ _ heq =>
    obtain ⟨versions, hsame⟩ := sm.marked_eq kb u root mode targets
    rw [heq, hsame]
    exact hkb
  | removed u m hm _ _ _ _ _ hkbs =>
    rw [hkbs]
    exact hkb
  | removedKB kb hremove _ _ _ _ hkbs =>
    rw [hkbs, update_of_ne fun heq : kbID = kb => hcmd (heq ▸ hremove)]
    exact hkb

/-- A command adds no version to a knowledge base exactly when it asks for none that would be
allocated. -/
lemma Within.apply_iff {list : List Nat} (hkb : (sm.kbs kbID).isSome)
    (hlist : ∀ v ∈ list, v < sm.nextVersionID) (hwithin : Within kbID list sm) :
    Within kbID list (sm.apply now cmd).1 ↔ NoNewVersion kbID sm (now, cmd) := by
  constructor
  · rintro hafter ⟨parent, clientRequestID⟩ hcreated
    cases Command.eq_of_mem_created? hcreated
    by_contra hallocated
    obtain ⟨hnew, hparent⟩ := not_or.mp hallocated
    rw [not_isSome_iff_eq_none] at hnew hparent
    obtain ⟨kb, hkb⟩ := isSome_iff_exists.mp hkb
    refine Nat.lt_irrefl _ (hlist _ (hafter sm.nextVersionID ?_))
    simp [apply, applyCreateVersion, hkb, hnew, hparent, mem_allocateVersion_list]
  · intro hnone v hv
    obtain hbefore | ⟨-, parent, clientRequestID, rfl, hnew, hparent⟩ := listed_before hv
    · exact hwithin v hbefore
    · have hrefused := hnone (parent, clientRequestID) (if_pos rfl)
      simp [hnew, hparent] at hrefused

/-- From the moment a knowledge base is marked deleting to the removal of its metadata it has no
versions but those it had then, in every state of the run, exactly if no command of the run asks
for a version of it that is neither the repetition of a known request nor refused for its parent. -/
theorem deleting_kb_shrinks_iff (limit : Nat) (epoch : String) {sm marked : StateMachine}
    (hreach : Reachable step (newStateMachine limit epoch) sm) (now : Int)
    {kbID : String} (hmark : sm.apply now (.markKBDeleting kbID) = marked.accept)
    (as : List (Int × Command)) (hkept : ∀ a ∈ as, a.2 ≠ .removeKBMeta kbID) :
    Always step (Within kbID (marked.versionsByKB kbID)) marked as ↔
      EachStep step (NoNewVersion kbID) marked as := by
  have heq : (sm.apply now (.markKBDeleting kbID)).1 = marked := by rw [hmark]; rfl
  have hwf : WellFormed marked := heq ▸ (WellFormed.of_reachable hreach).apply now _
  have hkb : (marked.kbs kbID).isSome := by
    cases hsome : sm.kbs kbID with
    | none =>
      simp [apply, applySetKBStatus, hsome, reject, accept] at hmark
    | some kb => exact heq ▸ kb_kept (by simp) (by rw [hsome]; rfl)
  refine always_iff_eachStep (fun s => WellFormed s ∧ (s.kbs kbID).isSome ∧
    marked.nextVersionID ≤ s.nextVersionID) _ (fun a => a.2 ≠ .removeKBMeta kbID) ?_
    ⟨hwf, hkb, Nat.le_refl _⟩ (fun _ hv => hv) hkept
  rintro s ⟨now, cmd⟩ ⟨hwf', hkb', hnext⟩ hwithin hno
  refine ⟨_, rfl, ⟨hwf'.apply now cmd, kb_kept hno hkb',
    Nat.le_trans hnext (next_le_apply hwf' now cmd)⟩, hwithin.apply_iff hkb' fun v hv => ?_⟩
  obtain ⟨m, hm, -⟩ := hwf.present hv
  exact Nat.lt_of_lt_of_le (hwf.lt_next hm) hnext

def deletingRun : List (Int × Command) :=
  [(0, .createKB { kbID := "kb" }), (0, .createVersion "kb" 0 "request"), (0, .markDataDurable 1)]

/-- The request of the first version comes again, another asks for a missing parent, and the
version goes. -/
def shrinkingSteps : List (Int × Command) :=
  [(0, .createVersion "kb" 0 "request"), (0, .createVersion "kb" 7 ""),
    (0, .updateVersionStatus 1 .ready 0), (0, .removeVersionMeta "kb" 1)]

theorem deleting_kb_shrinks_to_nothing : ∃ sm marked,
    Reachable step (newStateMachine 8 "epoch") sm ∧
      sm.apply 0 (.markKBDeleting "kb") = marked.accept ∧
      Always step (Within "kb" (marked.versionsByKB "kb")) marked shrinkingSteps := by
  obtain ⟨sm, hreach, hresult, hsteps⟩ : ∃ sm,
      Reachable step (newStateMachine 8 "epoch") sm ∧
        (sm.apply 0 (.markKBDeleting "kb")).2 = {} ∧
          EachStep step (NoNewVersion "kb") (sm.apply 0 (.markKBDeleting "kb")).1
            shrinkingSteps :=
    Reach.exists_decide deletingRun (by decide +kernel)
  have hmark : sm.apply 0 (.markKBDeleting "kb") =
      (sm.apply 0 (.markKBDeleting "kb")).1.accept := Prod.ext rfl hresult
  have hno : ∀ a ∈ shrinkingSteps, a.2 ≠ .removeKBMeta "kb" := by simp [shrinkingSteps]
  exact ⟨sm, _, hreach, hmark,
    (deleting_kb_shrinks_iff 8 "epoch" hreach 0 hmark shrinkingSteps hno).mpr hsteps⟩

/-- A version is created after the mark, as if the knowledge base were in use. -/
theorem deleting_kb_grows : ∃ sm,
    Reachable step (newStateMachine 8 "epoch") sm ∧
      (sm.kbs "kb").map (·.status) = some .deleting ∧ sm.versionsByKB "kb" = [1] ∧
      (sm.apply 0 (.createVersion "kb" 1 "")).1.versionsByKB "kb" = [1, 2] :=
  Reach.exists_decide (deletingRun ++ [(0, Command.markKBDeleting "kb")]) (by decide +kernel)

end stratum.metadata
