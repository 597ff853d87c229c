import Stratum.Lib.Reach
import Stratum.Metadata.Chained

namespace stratum.metadata

open stratum.lib StateMachine

/-- One applied command, with the clock reading of the node. -/
def StateMachine.step (sm : StateMachine) (a : Int × Command) : Option StateMachine :=
  some (sm.apply a.1 a.2).1

variable {kbID epoch : String} {limit : Nat} {sm : StateMachine}

section

variable (hreach : Reachable step (newStateMachine limit epoch) sm)

include hreach

lemma wellFormed_ascending : WellFormed sm ∧ Ascending sm := by
  refine hreach.invariant (fun sm => WellFormed sm ∧ Ascending sm) ?_ ?_
  · exact ⟨wellFormed_newStateMachine limit epoch, ascending_newStateMachine limit epoch⟩
  rintro sm sm' ⟨now, cmd⟩ - ⟨hwf, hasc⟩ - hstep
  cases hstep
  exact ⟨hwf.apply now cmd, hasc.apply hwf now cmd⟩

lemma WellFormed.of_reachable : WellFormed sm :=
  (wellFormed_ascending hreach).1

lemma Chained.of_reachable : Chained sm := by
  refine (hreach.invariant (fun sm => WellFormed sm ∧ Chained sm)
    ⟨wellFormed_newStateMachine limit epoch, .new limit epoch⟩ ?_).2
  rintro sm sm' ⟨now, cmd⟩ - ⟨hwf, hchain⟩ - hstep
  cases hstep
  exact ⟨hwf.apply now cmd, hchain.apply hwf now cmd⟩

end

/-- Metadata is removed only for versions already marked as being deleted. -/
def MarkedRemoval (sm : StateMachine) : Int × Command → Prop
  | (_, .removeVersionMeta _ versionID) => ∀ m ∈ sm.versions versionID, m.deleting = true
  | _ => True

instance (sm : StateMachine) : (a : Int × Command) → Decidable (MarkedRemoval sm a)
  | (now, cmd) => by
    induction cmd using Command.casesOn <;> dsimp only [MarkedRemoval] <;> infer_instance

/-- A live version's parent is there, with durable data. -/
def Anchored (sm : StateMachine) : Prop :=
  ∀ v m, sm.versions v = some m → m.deleting = false → m.parentVersionID ≠ 0 →
    ∃ p, sm.versions m.parentVersionID = some p ∧ p.dataStatus = .durable

namespace Anchored

variable {sm sm' : StateMachine}

lemma steady (hanchored : Anchored sm) (h : SteadyAll sm sm') : Anchored sm' := by
  intro v m' hm' hdel hne
  obtain ⟨m, hm, hv⟩ := h.before hm'
  rw [hv.parentVersionID] at hne ⊢
  obtain ⟨p, hp, hdurable⟩ := hanchored v m hm (hv.deleting ▸ hdel) hne
  obtain ⟨p', hp', hsteady⟩ := h.after hp
  exact ⟨p', hp', hsteady.durable hdurable⟩

lemma allocated (hanchored : Anchored sm) (hwf : WellFormed sm) {now : Int} {parent : Nat}
    (clientRequestID : String) (hparent : sm.parentRefused kbID parent = none) :
    Anchored (sm.allocateVersion now kbID parent clientRequestID) := by
  have hold : ∀ {v m}, sm.versions v = some m →
      (sm.allocateVersion now kbID parent clientRequestID).versions v = some m := by
    intro v m hm
    rw [allocateVersion_versions, if_neg (Nat.ne_of_lt (hwf.lt_next hm)), hm]
  intro v m hm hdel hne
  obtain ⟨-, rfl⟩ | hm := eq_some_of_allocateVersion hm
  · obtain ⟨p, hp, -, hdurable, -⟩ := parentRefused_none hparent hne
    exact ⟨p, hold hp, hdurable⟩
  · obtain ⟨p, hp, hdurable⟩ := hanchored v m hm hdel hne
    exact ⟨p, hold hp, hdurable⟩

variable (hanchored : Anchored sm) (hchain : Chained sm) (hwf : WellFormed sm)

include hanchored hchain hwf

lemma marked {versionID : Nat} {root : VersionMeta} {mode : VersionDeleteMode}
    {targets : List Nat} (hroot : sm.versions versionID = some root) (hown : root.kbID = kbID)
    (htargets : sm.versionDeleteTargets kbID versionID mode = .ok targets) :
    Anchored ((sm.rewire kbID versionID root mode).markDeleting targets) := by
  intro v m' hm' hdel hne
  obtain ⟨m, hm, -, -, hparent, hlive⟩ := marked_eq_some hroot htargets hm'
  obtain ⟨hmdel, -⟩ := hlive.mp hdel
  rw [hparent] at hne ⊢
  -- Whatever the new parent is, it was the parent of a live version before.
  have hbefore : ∃ p, sm.versions (sm.newParent kbID versionID root mode v m) = some p ∧
      p.dataStatus = .durable := by
    cases mode with
    | subtree => exact hanchored v m hm hmdel hne
    | other code => cases htargets
    | ancestors =>
      simp only [newParent] at hne ⊢
      have hv : v ≠ versionID := fun h => hne (if_pos h)
      rw [if_neg hv] at hne ⊢
      exact hanchored v m hm hmdel hne
    | single =>
      simp only [newParent] at hne ⊢
      by_cases hchild : v ∈ sm.childrenOf kbID versionID
      · rw [if_pos hchild] at hne ⊢
        obtain ⟨-, c, hc, hcparent⟩ := (hchain.mem_childrenOf_iff hwf hroot hown).mp hchild
        rw [hm, Option.some.injEq] at hc
        subst hc
        have hrootdel := hchain.parent_live hm hmdel (hcparent ▸ hroot)
        obtain ⟨heq, -⟩ := Chained.spliceParent_present hne
        rw [heq] at hne ⊢
        exact hanchored versionID root hroot hrootdel hne
      · rw [if_neg hchild] at hne ⊢
        exact hanchored v m hm hmdel hne
  obtain ⟨p, hp, hdurable⟩ := hbefore
  rw [marked_versions hroot htargets, hp]
  exact ⟨_, rfl, hdurable⟩

lemma removed {u : Nat} {d : VersionMeta} (hd : sm.versions u = some d)
    (hunused : d.deleting = true ∨
      ∀ id ∈ sm.versionsByKB d.kbID, ∀ c, sm.versions id = some c → c.parentVersionID ≠ u)
    (hversions : sm'.versions = Function.update sm.versions u none) : Anchored sm' := by
  intro v m hm hdel hne
  obtain ⟨-, hm⟩ := eq_some_of_removed hversions hm
  obtain ⟨p, hp, hdurable⟩ := hanchored v m hm hdel hne
  have hother : m.parentVersionID ≠ u := by
    intro heq
    obtain hgone | hchildless := hunused
    · have hstays := hchain.parent_live hm hdel (heq ▸ hd)
      rw [hgone] at hstays
      cases hstays
    · exact hchildless v (hchain.sameKB hm (heq ▸ hd) ▸ hwf.listed hm) m hm heq
  exact ⟨p, by rw [hversions, Function.update_of_ne hother, hp], hdurable⟩

lemma removedKB
    (hversions : sm'.versions = fun v => if v ∈ sm.versionsByKB kbID then none else sm.versions v) :
    Anchored sm' := by
  intro v m hm hdel hne
  obtain ⟨hout, hm⟩ := eq_some_of_removedKB hversions hm
  obtain ⟨p, hp, hdurable⟩ := hanchored v m hm hdel hne
  refine ⟨p, ?_, hdurable⟩
  rw [hversions]
  dsimp only
  rw [if_neg, hp]
  intro hin
  obtain ⟨p', hp', hkb⟩ := hwf.present hin
  rw [hp, Option.some.injEq] at hp'
  subst hp'
  exact hout (hkb ▸ hchain.sameKB hm hp ▸ hwf.listed hm)

lemma apply (now : Int) {cmd : Command} (hok : MarkedRemoval sm (now, cmd)) :
    Anchored (sm.apply now cmd).1 := by
  cases Change.apply sm now cmd with
  | steady hsteady => exact hanchored.steady hsteady
  | allocated now' kbID parent clientRequestID _ _ _ hparent heq =>
    rw [heq]
    exact hanchored.allocated hwf clientRequestID hparent
  | marked kbID versionID mode kb root targets _ _ hroot hown htargets _ _ heq =>
    rw [heq]
    exact hanchored.marked hchain hwf hroot hown htargets
  | removed u d hd hcmd hversions =>
    refine hanchored.removed hchain hwf hd ?_ hversions
    obtain rfl | ⟨-, hchildless⟩ := hcmd
    · exact .inl (hok d hd)
    · exact .inr hchildless
  | removedKB kbID _ hversions => exact hanchored.removedKB hchain hwf hversions

end Anchored

/-- The invariants of the chains hold together along every run that removes marked versions
only. -/
lemma linear_of_reach (hreach : Reach step MarkedRemoval (newStateMachine limit epoch) sm) :
    WellFormed sm ∧ Chained sm ∧ Anchored sm := by
  refine hreach.invariant (fun sm => WellFormed sm ∧ Chained sm ∧ Anchored sm) ?_ ?_
  · exact ⟨wellFormed_newStateMachine limit epoch, .new limit epoch, nofun⟩
  rintro sm sm' ⟨now, cmd⟩ - ⟨hwf, hchain, hanchored⟩ hok hstep
  cases hstep
  exact ⟨hwf.apply now cmd, hchain.apply hwf now cmd, hanchored.apply hchain hwf now hok⟩

/-- The version chains are linear: in every state reached by commands that remove the
metadata of marked versions only, a version that is not being deleted is a root or follows a
durable, older version of its knowledge base that is not being deleted either, and is the only
such version to follow it. -/
theorem linear_chain (limit : Nat) (epoch : String) {sm : StateMachine}
    (hreach : Reach step MarkedRemoval (newStateMachine limit epoch) sm) :
    (∀ v m, sm.versions v = some m → m.deleting = false → m.parentVersionID = 0 ∨
      ∃ p, sm.versions m.parentVersionID = some p ∧ p.deleting = false ∧ p.kbID = m.kbID ∧
        p.dataStatus = .durable ∧ m.parentVersionID < v) ∧
    ∀ parent v w m n, parent ≠ 0 → sm.versions v = some m → sm.versions w = some n →
      m.deleting = false → n.deleting = false → m.parentVersionID = parent →
      n.parentVersionID = parent → v = w := by
  obtain ⟨hwf, hchain, hanchored⟩ := linear_of_reach hreach
  refine ⟨?_, ?_⟩
  · intro v m hm hdel
    by_cases hzero : m.parentVersionID = 0
    · exact .inl hzero
    obtain ⟨p, hp, hdurable⟩ := hanchored v m hm hdel hzero
    exact .inr ⟨p, hp, hchain.parent_live hm hdel hp, hchain.sameKB hm hp, hdurable,
      hwf.parent_lt hm⟩
  · rintro parent v w m n hne hm hn hv hw rfl hparent
    exact hchain.unique hm hn hv hw hparent.symm hne

/-- A chain of three versions whose middle one is deleted alone and removed. -/
def spliceRun : List (Int × Command) :=
  [(0, .createKB { kbID := "kb" }), (0, .createVersion "kb" 0 ""), (0, .markDataDurable 1),
    (0, .createVersion "kb" 1 ""), (0, .markDataDurable 2), (0, .updateVersionStatus 2 .ready 0),
    (0, .createVersion "kb" 2 ""), (0, .updateVersionStatus 3 .ready 0),
    (0, .markVersionDeleting "kb" 2 .single), (0, .removeVersionMeta "kb" 2)]

/-- In a state so reached the third version follows the first. -/
theorem linear_chain_spliced : ∃ sm,
    Reach step MarkedRemoval (newStateMachine 8 "epoch") sm ∧
      (sm.versions 3).map (·.parentVersionID) = some 1 ∧
      ∀ v m, sm.versions v = some m → m.deleting = false → m.parentVersionID = 0 ∨
        ∃ p, sm.versions m.parentVersionID = some p ∧ p.deleting = false ∧ p.kbID = m.kbID ∧
          p.dataStatus = .durable ∧ m.parentVersionID < v := by
  obtain ⟨sm, hreach, hparent⟩ : ∃ sm, Reach step MarkedRemoval (newStateMachine 8 "epoch") sm ∧
      (sm.versions 3).map (·.parentVersionID) = some 1 :=
    Reach.exists_decide spliceRun (by decide +kernel)
  exact ⟨sm, hreach, hparent, (linear_chain 8 "epoch" hreach).1⟩

end stratum.metadata
