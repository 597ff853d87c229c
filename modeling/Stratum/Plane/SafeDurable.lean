import Mathlib.Data.List.ReduceOption
import Stratum.Metadata.Revised
import Stratum.Plane.FanOut

namespace stratum.plane

open stratum.lib stratum.metadata StateMachine List

/-! What a restarted node may claim durable, and what the control layer makes of the claim. -/

/-- `SafeDurableVersion` for a node with the cursor `own` and what each of its peers answers,
`none` for one that cannot be reached. Without peers there is no claim to make; an error has the
number of cursors that arrived and the number required. -/
def safeDurableVersion (own : Nat) (peers : List (Option Nat)) : Except (Nat × Nat) (Option Nat) :=
  if peers = [] then .ok none
  else
    let reports := own :: peers.reduceOption
    let quorum := quorumSize (peers.length + 1)
    if reports.length < quorum then .error (reports.length, quorum)
    else .ok (reports.insertionSort (· ≥ ·))[quorum - 1]?

/-- A `promoteDurableData` between two of its proposals: the state machine as it is by then, and the
versions still to be proposed. -/
structure Promotion where
  sm : StateMachine
  todo : List Nat

/-- `promoteDurableData` up to its first proposal. -/
def promoteDurableData (sm : StateMachine) (kbID : String) (cursor : Nat) :
    Except Error Promotion :=
  (sm.listVersions kbID).map fun versions =>
    { sm
      todo := (versions.filter fun v =>
        !(cursor < v.versionID || v.deleting || v.dataStatus ≠ .pending)).map (·.versionID) }

/-- Every proposal is a command of its own, so commands of others come in between. -/
inductive PromotionStep
  | other (now : Int) (cmd : Command)
  | proposed

/-- The first proposal that is answered with an error is the last. -/
def Promotion.step (p : Promotion) : PromotionStep → Option Promotion
  | .other now cmd => some { p with sm := (p.sm.apply now cmd).1 }
  | .proposed =>
    match p.todo with
    | [] => none
    | v :: todo =>
      let applied := p.sm.applyMarkDataDurable v
      some { sm := applied.1, todo := if applied.2.err.isSome then [] else todo }

def PromotionStep.Unmarking : PromotionStep → Prop
  | .other _ (.markVersionDeleting ..) => False
  | _ => True

instance (a : PromotionStep) : Decidable a.Unmarking := by
  unfold PromotionStep.Unmarking
  split <;> infer_instance

/-- In a descending list the entry at `i` is reached by `t` exactly when more than `i` are. -/
lemma le_getElem_iff {l : List Nat} (hsorted : l.Pairwise (· ≥ ·)) {i t : Nat}
    (hi : i < l.length) : t ≤ l[i] ↔ i < l.countP (t ≤ ·) := by
  induction l generalizing i with
  | nil => cases hi
  | cons x l ih =>
  obtain ⟨hx, hl⟩ := pairwise_cons.mp hsorted
  rw [countP_cons]
  by_cases ht : t ≤ x
  · cases i with
    | zero => simp [ht]
    | succ i => simp [ht, ih hl (Nat.lt_of_succ_lt_succ hi)]
  have hnone : l.countP (t ≤ ·) = 0 := by
    rw [countP_eq_zero]
    intro y hy
    have := hx y hy
    simp only [decide_eq_true_eq]
    omega
  have hle : (x :: l)[i] ≤ x := by
    cases i with
    | zero => exact le_rfl
    | succ i => exact hx _ (getElem_mem _)
  simp only [hnone, ht]
  simp only [decide_false, Bool.false_eq_true, if_false]
  omega

lemma safeDurableVersion_eq_ok {own : Nat} {peers : List (Option Nat)} (hpeers : peers ≠ [])
    (hmany : quorumSize (peers.length + 1) ≤ (own :: peers.reduceOption).length) :
    ∃ s, safeDurableVersion own peers = .ok (some s) ∧ ∀ t, t ≤ s ↔
      quorumSize (peers.length + 1) ≤ (own :: peers.reduceOption).countP (t ≤ ·) := by
  have hpos := two_le_quorumSize (length_pos_iff.mpr hpeers)
  rw [add_comm] at hpos
  have hi : quorumSize (peers.length + 1) - 1 <
      ((own :: peers.reduceOption).insertionSort (· ≥ ·)).length := by
    rw [length_insertionSort]
    omega
  refine ⟨((own :: peers.reduceOption).insertionSort (· ≥ ·))[quorumSize (peers.length + 1) - 1],
    ?_, fun t => ?_⟩
  · rw [safeDurableVersion, if_neg hpeers, if_neg (not_lt.mpr hmany), getElem?_eq_getElem hi]
  · rw [le_getElem_iff (pairwise_insertionSort _ _) hi, (perm_insertionSort _ _).countP_eq]
    omega

lemma applyMarkDataDurable_versions (sm : StateMachine) (u v : Nat) :
    (sm.applyMarkDataDurable u).1.versions v = sm.versions v ∨ v = u ∧ ∃ m,
      sm.versions v = some m ∧ m.dataStatus = .pending ∧
      (sm.applyMarkDataDurable u).1.versions v = some { m with dataStatus := .durable } := by
  unfold applyMarkDataDurable
  cases hm : sm.versions u with
  | none => exact .inl rfl
  | some m =>
  dsimp only
  split
  · exact .inl rfl
  next hpending =>
  by_cases heq : v = u
  · subst heq
    exact .inr ⟨rfl, m, hm, not_not.mp hpending, by simp [accept, setVersion]⟩
  · exact .inl (by simp [accept, setVersion, heq])

/-- A promotion proposes only versions it has found pending, not being deleted and in reach. -/
lemma listed_of_mem_todo {sm : StateMachine} (hwf : WellFormed sm) {kbID : String} {s v : Nat}
    {p : Promotion} (hp : promoteDurableData sm kbID s = .ok p) (hv : v ∈ p.todo) :
    p.sm = sm ∧ ∃ m, sm.versions v = some m ∧ m.kbID = kbID ∧ m.dataStatus = .pending ∧
      m.deleting = false ∧ v ≤ s := by
  unfold promoteDurableData listVersions at hp
  cases hkb : sm.kbs kbID with
  | none =>
    rw [hkb] at hp
    cases hp
  | some kb =>
  rw [hkb] at hp
  cases hp
  refine ⟨rfl, ?_⟩
  obtain ⟨n, hn, rfl⟩ := mem_map.mp hv
  obtain ⟨hlisted, hpromoted⟩ := mem_filter.mp hn
  obtain ⟨u, hu, rfl⟩ := mem_map.mp hlisted
  obtain ⟨m, hm, hown⟩ := hwf.present hu
  have hversion : sm.version u = m := by rw [version, hm, Option.getD_some]
  rw [hversion, hwf.id_eq hm] at hpromoted ⊢
  simp only [Bool.not_eq_true', Bool.or_eq_false_iff, decide_eq_false_iff_not, not_not] at hpromoted
  exact ⟨m, hm, hown, hpromoted.2, hpromoted.1.2, not_lt.mp hpromoted.1.1⟩

namespace Promotion

variable {p q q' : Promotion} {Ok : Promotion → PromotionStep → Prop}

lemma step_proposed (hstep : q.step .proposed = some q') : ∃ v ∈ q.todo,
    q'.sm = (q.sm.applyMarkDataDurable v).1 ∧ ∀ u ∈ q'.todo, u ∈ q.todo := by
  cases htodo : q.todo with
  | nil => simp [step, htodo] at hstep
  | cons v todo =>
    simp only [step, htodo, Option.some.injEq] at hstep
    subst hstep
    refine ⟨v, mem_cons_self, rfl, fun u hu => mem_cons_of_mem _ ?_⟩
    dsimp only at hu
    split at hu
    · cases hu
    · exact hu

/-- The run is one of the state machine, and proposes no version that was not listed. -/
lemma reach_sm (hreach : Reach step Ok p q) (Adm : Command → Prop)
    (hother : ∀ t now cmd, Ok t (.other now cmd) → Adm cmd)
    (hdurable : ∀ v, Adm (.markDataDurable v)) :
    Reach StateMachine.step (fun _ a => Adm a.2) p.sm q.sm ∧ ∀ v ∈ q.todo, v ∈ p.todo := by
  refine hreach.invariant (fun q => Reach StateMachine.step (fun _ a => Adm a.2) p.sm q.sm ∧
    ∀ v ∈ q.todo, v ∈ p.todo) ⟨.refl, fun _ => id⟩ ?_
  rintro t t' a - ⟨hsm, htodo⟩ hok hstep
  cases a with
  | other now cmd =>
    cases hstep
    exact ⟨hsm.tail (a := (now, cmd)) (hother t now cmd hok) rfl, htodo⟩
  | proposed =>
    obtain ⟨v, -, hv, hsub⟩ := step_proposed hstep
    rw [hv]
    exact ⟨hsm.tail (a := (0, .markDataDurable v)) (hdurable v) rfl, fun u hu => htodo u (hsub u hu)⟩

/-- A version that was not being deleted still is not, unless a command marked one. -/
lemma deleting_eq_false {m₀ m : VersionMeta} {v : Nat} (hreach : Reach step Ok p q)
    (hwf : WellFormed p.sm) (hm₀ : p.sm.versions v = some m₀) (hlive : m₀.deleting = false)
    (hm : q.sm.versions v = some m) (hunmarking : ∀ t a, Ok t a → a.Unmarking) :
    m.deleting = false := by
  have hother (t : Promotion) (now : Int) (cmd : Command) (hok : Ok t (.other now cmd))
      (kbID : String) (u : Nat) (mode : VersionDeleteMode) :
      cmd ≠ .markVersionDeleting kbID u mode := by
    rintro rfl
    exact hunmarking t _ hok
  have hsm := (reach_sm hreach (∀ kbID u mode, · ≠ .markVersionDeleting kbID u mode) hother
    fun _ _ _ _ => nofun).1
  refine Revised.of_reach hsm hwf (hwf.lt_next hm₀) (·.deleting = false) ?_ ?_ m hm
  · intro n hn
    cases hm₀.symm.trans hn
    exact hlive
  · intro t now cmd n n' hok hrevised hn
    cases hrevised with
    | same => exact hn
    | reported n' hrevision => exact hrevision.steady.deleting.trans hn
    | marked kbID u mode _ _ _ hcmd => exact absurd hcmd (hok kbID u mode)

end Promotion

def indexedRun : List (Int × Command) :=
  [(0, .createKB { kbID := "kb" }), (0, .createVersion "kb" 0 ""), (0, .createVersion "kb" 0 ""),
    (0, .updateVersionStatus 1 .ready 0), (0, .updateVersionStatus 2 .ready 0)]

/-- A promotion up to version 2 after a run, up to its next proposal. -/
lemma exists_promotion (Ok : Promotion → PromotionStep → Prop) [∀ p a, Decidable (Ok p a)]
    (cmds : List (Int × Command)) (steps : List PromotionStep) (P : Promotion → Promotion → Prop)
    [∀ q q', Decidable (P q q')]
    (hrun : (run StateMachine.step (fun _ _ => True) (newStateMachine 8 "epoch") cmds).any (fun sm =>
      (promoteDurableData sm "kb" 2).toOption.any fun p => (run Promotion.step Ok p steps).any fun q =>
        (q.step .proposed).any fun q' => decide (P q q')) = true) :
    ∃ sm p q q', Reachable StateMachine.step (newStateMachine 8 "epoch") sm ∧
      promoteDurableData sm "kb" 2 = .ok p ∧ Reach Promotion.step Ok p q ∧
      q.step .proposed = some q' ∧ P q q' := by
  obtain ⟨sm, hreach, hlisted⟩ := Reach.exists_of_run hrun
  cases hp : promoteDurableData sm "kb" 2 with
  | error e =>
    rw [hp] at hlisted
    cases hlisted
  | ok p =>
  rw [hp] at hlisted
  obtain ⟨q, q', hq, hstep, hP⟩ := Reach.exists_decide_step steps hlisted
  exact ⟨sm, p, q, q', hreach, hp, hq, hstep, hP⟩

end stratum.plane
