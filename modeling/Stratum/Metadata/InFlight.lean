import Mathlib.Data.Finset.Card
import Stratum.Metadata.KnowledgeBases
import Stratum.Metadata.Revised

namespace stratum.metadata

open stratum.lib StateMachine Option

/-- A version whose data is still being written, on top of its parent's. -/
abbrev InFlight (m : VersionMeta) : Prop := m.deleting = false ∧ m.dataStatus = .pending

def Command.deletion? : Command → Option (String × Nat × VersionDeleteMode)
  | .markVersionDeleting kbID versionID mode => some (kbID, versionID, mode)
  | _ => none

/-- A deletion that would take the parent of version `v` and leave `v`, which is in flight, finds
its index pending too. -/
abbrev SparesBase (v : Nat) (sm : StateMachine) (a : Int × Command) : Prop :=
  ∀ m ∈ sm.versions v, InFlight m → ∀ d ∈ a.2.deletion?,
    ∀ targets ∈ (sm.versionDeleteTargets d.1 d.2.1 d.2.2).toOption,
      v ∉ targets → m.parentVersionID ∈ targets → m.indexStatus = .pending

/-- While version `v` is in flight, the metadata of its parent is not removed. -/
abbrev LeavesBase (v : Nat) (sm : StateMachine) (a : Int × Command) : Prop :=
  ∀ m ∈ sm.versions v, InFlight m → ∀ r ∈ a.2.removal?, r ≠ (m.kbID, m.parentVersionID)

def KeepsBase (v : Nat) (sm : StateMachine) (a : Int × Command) : Prop :=
  SparesBase v sm a ∧ LeavesBase v sm a

instance (v : Nat) (sm : StateMachine) (a : Int × Command) : Decidable (KeepsBase v sm a) :=
  instDecidableAnd

/-- While version `v` is in flight it has the parent, and the parent is there. -/
def HasBase (v parent : Nat) (sm : StateMachine) : Prop :=
  ∀ m, sm.versions v = some m → InFlight m → m.parentVersionID = parent ∧
    (parent ≠ 0 → ∃ p, sm.versions parent = some p ∧ p.deleting = false)

variable {sm : StateMachine} {now : Int} {cmd : Command}

/-- A version in flight was in flight before: its data side does not go back to pending. -/
lemma inFlight_before {v : Nat} {m' : VersionMeta} (hlt : v < sm.nextVersionID)
    (hm' : (sm.apply now cmd).1.versions v = some m') (hflight : InFlight m') :
    ∃ m, sm.versions v = some m ∧ InFlight m := by
  obtain ⟨hdel, hdata⟩ := hflight
  cases Source.of_apply hm' with
  | allocated _ _ _ _ _ _ _ hv _ => exact absurd hv (ne_of_lt hlt)
  | revised m hm hrevised =>
  refine ⟨m, hm, ?_⟩
  cases hrevised with
  | same => exact ⟨hdel, hdata⟩
  | marked => exact ⟨(Bool.or_eq_false_iff.mp hdel).1, hdata⟩
  | reported m' hrevision =>
    cases hrevision with
    | status | indexFailed | retried => exact ⟨hdel, hdata⟩
    | summary | durable | dataFailed => cases hdata

lemma HasBase.apply {v parent : Nat} (h : HasBase v parent sm) (hwf : WellFormed sm)
    (hchain : Chained sm) (hlt : v < sm.nextVersionID) (hkeeps : KeepsBase v sm (now, cmd)) :
    HasBase v parent (sm.apply now cmd).1 := by
  intro m' hm' hflight'
  obtain ⟨m, hm, hflight⟩ := inFlight_before hlt hm' hflight'
  have hdeletion := hkeeps.1 m hm hflight
  have hremoval := hkeeps.2 m hm hflight
  obtain ⟨rfl, hbase⟩ := h m hm hflight
  have hsame : ∀ {p}, sm.versions m.parentVersionID = some p → p.kbID = m.kbID := hchain.sameKB hm
  cases Change.apply sm now cmd with
  | steady hsteady =>
    obtain ⟨n, hn, hv⟩ := hsteady.before hm'
    cases some.inj (hm.symm.trans hn)
    refine ⟨hv.parentVersionID, fun hne => ?_⟩
    obtain ⟨p, hp, hdel⟩ := hbase hne
    obtain ⟨p', hp', hparent⟩ := hsteady.after hp
    exact ⟨p', hp', hparent.deleting.trans hdel⟩
  | allocated now' kbID parent key _ _ _ _ heq =>
    rw [heq] at hm' ⊢
    rw [allocateVersion_versions, if_neg (ne_of_lt hlt), hm] at hm'
    cases hm'
    refine ⟨rfl, fun hne => ?_⟩
    obtain ⟨p, hp, hdel⟩ := hbase hne
    exact ⟨p, by rw [allocateVersion_versions, if_neg (ne_of_lt (hwf.lt_next hp)), hp], hdel⟩
  | marked kbID u mode kb root targets hcmd _ hroot hown htargets _ hsurvivors heq =>
    rw [heq] at hm' ⊢
    obtain ⟨n, hn, -, -, hparent, hlive⟩ := marked_eq_some hroot htargets hm'
    cases some.inj (hm.symm.trans hn)
    obtain ⟨-, hout⟩ := hlive.mp hflight'.1
    have hblocked (hin : m.parentVersionID ∈ targets) :
        deleteBlockedByPending m = true := by
      have hindex := hdeletion (kbID, u, mode) (by rw [hcmd]; rfl) targets
        (by rw [htargets]; rfl) hout hin
      simp [deleteBlockedByPending, hindex, hflight.2]
    obtain ⟨hstays, hnew⟩ := hwf.survivor_kept hroot hown htargets hsurvivors hm hout hblocked
      fun hne => by
        obtain ⟨p, hp, -⟩ := hbase hne
        exact ⟨p, hp, hsame hp⟩
    refine ⟨hparent.trans hnew, fun hne => ?_⟩
    obtain ⟨p, hp, hdel⟩ := hbase hne
    rw [marked_versions hroot htargets, hp]
    exact ⟨_, rfl, by simp [hdel, hstays]⟩
  | removed u n hn hcmd hversions =>
    obtain ⟨-, hn'⟩ := eq_some_of_removed hversions hm'
    cases some.inj (hm.symm.trans hn')
    refine ⟨rfl, fun hne => ?_⟩
    obtain ⟨p, hp, hdel⟩ := hbase hne
    refine ⟨p, ?_, hdel⟩
    rw [hversions, Function.update_of_ne, hp]
    rintro rfl
    have hkb := hsame hn
    obtain rfl | ⟨-, hchildless⟩ := hcmd
    · exact hremoval _ rfl (by rw [hkb])
    · exact hchildless v (hkb ▸ hwf.listed hm) _ hm rfl
  | removedKB kbID _ hversions =>
    obtain ⟨hout, hn'⟩ := eq_some_of_removedKB hversions hm'
    cases some.inj (hm.symm.trans hn')
    refine ⟨rfl, fun hne => ?_⟩
    obtain ⟨p, hp, hdel⟩ := hbase hne
    refine ⟨p, ?_, hdel⟩
    rw [hversions]
    dsimp only
    rw [if_neg, hp]
    intro hin
    obtain ⟨p', hp', hkb⟩ := hwf.present hin
    cases some.inj (hp.symm.trans hp')
    exact hout (hkb ▸ hsame hp ▸ hwf.listed hm)

/-- A version in flight keeps its base: in every run after the command that created it in which no
deletion takes its parent from under it with its index no longer pending, and its parent's metadata
is not removed, it has the parent it was created with, which is there and not being deleted. -/
theorem in_flight_base_kept (limit : Nat) (epoch : String) {sm later : StateMachine}
    (hreach : Reachable step (newStateMachine limit epoch) sm) (now : Int)
    (kbID : String) (parent : Nat) (clientRequestID : String) {v : Nat} {born : VersionMeta}
    (hnew : sm.versions v = none)
    (hborn : (sm.apply now (.createVersion kbID parent clientRequestID)).1.versions v = some born)
    (hlater : Reach step (KeepsBase v)
      (sm.apply now (.createVersion kbID parent clientRequestID)).1 later)
    {m : VersionMeta} (hm : later.versions v = some m) (hdel : m.deleting = false)
    (hdata : m.dataStatus = .pending) :
    m.parentVersionID = parent ∧
      (parent ≠ 0 → ∃ p, later.versions parent = some p ∧ p.deleting = false) := by
  have hwf := WellFormed.of_reachable hreach
  have hchain := Chained.of_reachable hreach
  have hwf' := hwf.apply now (.createVersion kbID parent clientRequestID)
  have hstart : HasBase v parent
      (sm.apply now (.createVersion kbID parent clientRequestID)).1 := by
    cases Source.of_apply hborn with
    | revised m hm hrevised =>
      rw [hnew] at hm
      cases hm
    | allocated kbID' parent' key hcmd hkb hfresh hparent hv hborn' =>
    cases hcmd
    intro m hm _
    cases some.inj (hborn.symm.trans hm)
    refine ⟨by rw [hborn']; rfl, fun hne => ?_⟩
    obtain ⟨p, hp, -, -, hdel, -⟩ := parentRefused_none hparent hne
    obtain ⟨kb, hkb⟩ := isSome_iff_exists.mp hkb
    refine ⟨p, ?_, hdel⟩
    simp only [apply, applyCreateVersion, hkb, hfresh, hparent]
    rw [allocateVersion_versions, if_neg (ne_of_lt (hwf.lt_next hp)), hp]
  refine (hlater.invariant (fun s => WellFormed s ∧ Chained s ∧ v < s.nextVersionID ∧
    HasBase v parent s) ⟨hwf', hchain.apply hwf now _, hwf'.lt_next hborn, hstart⟩ ?_).2.2.2 m hm
    ⟨hdel, hdata⟩
  rintro s s' ⟨now, cmd⟩ - ⟨hwf, hchain, hlt, hbase⟩ hkeeps hstep
  cases hstep
  exact ⟨hwf.apply now cmd, hchain.apply hwf now cmd,
    lt_of_lt_of_le hlt (next_le_apply hwf now cmd), hbase.apply hwf hchain hlt hkeeps⟩

/-- A first version with data and index, for another to be written on. -/
def baseRun : List (Int × Command) :=
  [(0, .createKB { kbID := "kb" }), (0, .createVersion "kb" 0 ""), (0, .markDataDurable 1),
    (0, .updateVersionStatus 1 .ready 0)]

/-- The deletion of the base is refused while the second version is being written. -/
theorem in_flight_base_kept_refused : ∃ sm later m,
    Reachable step (newStateMachine 8 "epoch") sm ∧
      Reach step (KeepsBase 2) (sm.apply 0 (.createVersion "kb" 1 "")).1 later ∧
      later.versions 2 = some m ∧ m.dataStatus = .pending ∧ m.parentVersionID = 1 ∧
      ∃ p, later.versions 1 = some p ∧ p.deleting = false := by
  have hrun : (run step (fun _ _ => True) (newStateMachine 8 "epoch")
      baseRun).any (fun sm => (sm.versions 2).isNone &&
        ((sm.apply 0 (.createVersion "kb" 1 "")).1.versions 2).isSome &&
        (run step (KeepsBase 2) (sm.apply 0 (.createVersion "kb" 1 "")).1
          [(0, .markVersionDeleting "kb" 1 .single), (0, .rollback "kb" 1),
            (0, .updateVersionStatus 2 .ready 0), (0, .removeVersionMeta "kb" 7)]).any
          fun later => (later.versions 2).any fun m => decide (InFlight m)) = true := by
    decide +kernel
  obtain ⟨sm, hreach, hend⟩ := Reach.exists_of_run hrun
  simp only [Bool.and_eq_true, isNone_iff_eq_none] at hend
  obtain ⟨⟨hnew, hborn⟩, hlater⟩ := hend
  obtain ⟨born, hborn⟩ := isSome_iff_exists.mp hborn
  obtain ⟨later, hlater, hend⟩ := Reach.exists_of_run hlater
  obtain ⟨m, hm, hflight⟩ := (any_eq_true _ _).mp hend
  obtain ⟨hdel, hdata⟩ := of_decide_eq_true hflight
  obtain ⟨hparent, hbase⟩ :=
    in_flight_base_kept 8 "epoch" hreach 0 "kb" 1 "" hnew hborn hlater hm hdel hdata
  exact ⟨sm, later, m, hreach, hlater, hm, hdata, hparent, hbase Nat.one_ne_zero⟩

/-- The index of the second version is reported before its data, and the deletion of its base goes
through: the version is moved off its base while it is being written. -/
theorem in_flight_base_lost : ∃ sm,
    Reachable step (newStateMachine 8 "epoch") sm ∧
      (sm.versions 2).map (fun m => (m.deleting, m.dataStatus, m.parentVersionID)) =
        some (false, .pending, 1) ∧
      ((sm.apply 0 (.markVersionDeleting "kb" 1 .single)).1.versions 2).map
        (fun m => (m.deleting, m.dataStatus, m.parentVersionID)) = some (false, .pending, 0) :=
  Reach.exists_decide (baseRun ++ [(0, Command.createVersion "kb" 1 ""),
    (0, .updateVersionStatus 2 .ready 0)]) (by decide +kernel)

end stratum.metadata
