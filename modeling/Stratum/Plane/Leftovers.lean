import Stratum.Metadata.Revised
import Stratum.Plane.Deletions

namespace stratum.plane.deletions

open stratum.lib stratum.metadata StateMachine List Option

/-! What `DeletedVersionLeftovers` reports against metadata that lags behind the log. -/

variable {limit : Nat} {env : Env} {kbID : String} {v : Nat} {pre later : List Command}

lemma reach_replayFrom (clock : Nat → Int) (n : Nat) (sm : StateMachine)
    (cmds : List Command) : Reachable step sm (sm.replayFrom clock n cmds) := by
  induction cmds generalizing n sm with
  | nil => exact .refl
  | cons cmd cmds ih => exact Reach.trans (.tail (a := (clock n, cmd)) .refl trivial rfl) (ih _ _)

lemma reach_replay (hpre : pre <+: later) :
    Reachable step (replay limit env pre) (replay limit env later) := by
  obtain ⟨cmds, rfl⟩ := hpre
  rw [replay, replay, replayFrom_append]
  exact reach_replayFrom _ _ _ _

lemma kbID_of_reach {sm sm' : StateMachine} (hlater : Reachable step sm sm')
    (hwf : WellFormed sm) {m m' : VersionMeta} (hm : sm.versions v = some m)
    (hm' : sm'.versions v = some m') : m'.kbID = m.kbID := by
  refine Revised.of_reach hlater hwf (hwf.lt_next hm) (·.kbID = m.kbID)
    (fun n hn => by rw [some.inj (hm.symm.trans hn)]) ?_ m' hm'
  rintro t now cmd n n' - hrevised hn
  cases hrevised with
  | same | marked => exact hn
  | reported n' hrevision => cases hrevision <;> exact hn

/-- A version that is reported was given out, and the knowledge base does not have it. -/
lemma of_mem_leftoversOf {view : StateMachine} {versions gone : List Nat}
    (hwf : WellFormed view) (hasc : Ascending view) (hsorted : versions.Pairwise (· ≤ ·))
    (hgone : leftoversOf view kbID versions = some gone) (hv : v ∈ gone) :
    v ∈ versions ∧ v < view.nextVersionID ∧ v ∉ view.versionsByKB kbID := by
  unfold leftoversOf at hgone
  split at hgone
  · next first last hfirst hlast =>
    cases hkb : view.kbs kbID with
    | none => simp [versionLiveness, hkb] at hgone
    | some kb =>
    simp only [versionLiveness, hkb, some.injEq] at hgone
    subst hgone
    have hnext := hwf.next_pos
    obtain ⟨hin, hjudged⟩ := mem_filter.mp hv
    simp only [Bool.not_eq_true', Bool.or_eq_false_iff, decide_eq_false_iff_not,
      mem_aliveInRange (hasc kbID)] at hjudged
    refine ⟨hin, by omega, fun hlisted => hjudged.2 ⟨hlisted, ?_⟩⟩
    -- the range that is asked for reaches from the first local version to the last
    obtain ⟨m, hm, -⟩ := hwf.present hlisted
    have hpos := hwf.pos hm
    obtain ⟨ys, rfl⟩ := getLast?_eq_some_iff.mp hlast
    have hle : v ≤ last := by
      obtain hys | hlast := mem_append.mp hin
      · exact (pairwise_append.mp hsorted).2.2 v hys last mem_cons_self
      · exact (mem_singleton.mp hlast).le
    have hge : first ≤ v := by
      cases hys : ys ++ [last] with
      | nil => simp at hys
      | cons y ys' =>
      rw [hys] at hfirst hin hsorted
      cases hfirst
      obtain rfl | hin := mem_cons.mp hin
      · exact le_rfl
      · exact (pairwise_cons.mp hsorted).1 v hin
    simp only [any_some, decide_eq_false_iff_not]
    omega
  · cases hgone
    cases hv

/-- Whatever versions a storage node holds that the log allocates to the knowledge base: those
that a prefix of the log makes leftovers are gone from the metadata there, and stay gone however
the log goes on. -/
theorem leftovers_never_live (limit : Nat) (env : Env) (log : List Command) (kbID : String)
    (held : List Nat) (hheld : ∀ v ∈ held, ∃ born m, born <+: log ∧
      (replay limit env born).versions v = some m ∧ m.kbID = kbID)
    {pre : List Command} (hpre : pre <+: log) {gone : List Nat}
    (hgone : leftoversOf (replay limit env pre) kbID (held.insertionSort (· ≤ ·)) = some gone)
    {v : Nat} (hv : v ∈ gone) {later : List Command} (hlater : pre <+: later) :
    (replay limit env later).versions v = none := by
  obtain ⟨hwf, hasc⟩ := replay_wellFormed limit env pre
  obtain ⟨hin, hlt, hout⟩ :=
    of_mem_leftoversOf hwf hasc (pairwise_insertionSort (· ≤ ·) held) hgone hv
  obtain ⟨born, m, hborn, hm, hkb⟩ := hheld v ((mem_insertionSort _).mp hin)
  have hnone : ∀ n, (replay limit env pre).versions v = some n → False := by
    intro n hn
    have hsame : n.kbID = m.kbID := by
      obtain hbefore | hafter := prefix_or_prefix_of_prefix hborn hpre
      · exact kbID_of_reach (reach_replay hbefore) (replay_wellFormed limit env born).1 hm hn
      · exact (kbID_of_reach (reach_replay hafter) hwf hn hm).symm
    exact hout (hkb ▸ hsame ▸ hwf.listed hn)
  refine eq_none_iff_forall_not_mem.mpr fun n hn => ?_
  exact Revised.of_reach (reach_replay hlater) hwf hlt (fun _ => False) hnone
    (fun _ _ _ _ _ _ _ => id) n hn

def removedFirst : List Command :=
  [.createKB { kbID := "kb" }, .createVersion "kb" 0 "", .removeVersionMeta "kb" 1,
    .createVersion "kb" 0 ""]

/-- A view that has seen the removal and not yet the creation. -/
theorem leftovers_never_live_lagging :
    leftoversOf (replay 8 (nodeAt 0 "epoch") (removedFirst.take 3)) "kb"
        ([2, 1].insertionSort (· ≤ ·)) = some [1] ∧
      (replay 8 (nodeAt 0 "epoch") removedFirst).versions 1 = none := by
  have hgone : leftoversOf (replay 8 (nodeAt 0 "epoch") (removedFirst.take 3)) "kb"
      ([2, 1].insertionSort (· ≤ ·)) = some [1] := by
    decide +kernel
  have hborn : ∀ v ∈ [2, 1], ∃ m, (replay 8 (nodeAt 0 "epoch")
      (removedFirst.take (2 * v))).versions v = some m ∧ m.kbID = "kb" := by
    decide +kernel
  refine ⟨hgone, leftovers_never_live 8 _ removedFirst "kb" [2, 1] (fun v hv => ?_)
    ( take_prefix 3 _) hgone (mem_singleton_self 1) ( take_prefix 3 _)⟩
  obtain ⟨m, hm, hkb⟩ := hborn v hv
  exact ⟨_, m, take_prefix _ _, hm, hkb⟩

end stratum.plane.deletions
