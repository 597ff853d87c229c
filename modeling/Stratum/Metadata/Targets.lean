import Stratum.Metadata.Chain

namespace stratum.metadata.StateMachine

open List

variable {sm : StateMachine} {kbID : String} {id versionID : Nat} {targets : List Nat}

lemma mem_childrenOf {child : Nat} :
    child ∈ sm.childrenOf kbID id ↔ child ∈ sm.versionsByKB kbID ∧ child ≠ id ∧
      ∃ m, sm.versions child = some m ∧ m.parentVersionID = id := by
  simp [childrenOf, Option.any_eq_true]

lemma subset_collectLoop (fuel : Nat) (queue out : List Nat) :
    ∀ id ∈ out, id ∈ sm.collectLoop kbID fuel queue out := by
  induction fuel generalizing queue out with
  | zero => exact fun id hid => hid
  | succ fuel ih =>
  intro id hid
  cases queue with
  | nil => exact hid
  | cons head queue =>
  unfold collectLoop
  split
  · exact ih _ _ id hid
  · exact ih _ _ id (mem_append_left _ hid)

variable {P : Nat → Prop}

/-- What holds of the root and is passed on to children holds of the whole subtree. -/
lemma collectLoop_forall (hchild : ∀ id, P id → ∀ child ∈ sm.childrenOf kbID id, P child)
    (fuel : Nat) (queue out : List Nat) (hqueue : ∀ id ∈ queue, P id) (hout : ∀ id ∈ out, P id) :
    ∀ id ∈ sm.collectLoop kbID fuel queue out, P id := by
  induction fuel generalizing queue out with
  | zero => exact hout
  | succ fuel ih =>
  cases queue with
  | nil => exact hout
  | cons head queue =>
  have hhead : P head := hqueue head mem_cons_self
  have hrest : ∀ id ∈ queue, P id := fun id hid => hqueue id (mem_cons_of_mem _ hid)
  unfold collectLoop
  split
  · exact ih _ _ hrest hout
  refine ih _ _ ?_ ?_
  · intro id hid
    obtain hid | hid := mem_append.mp hid
    · exact hrest id hid
    · exact hchild head hhead id (mem_filter.mp hid).1
  intro id hid
  obtain hid | hid := mem_append.mp hid
  · exact hout id hid
  · rw [mem_singleton.mp hid]
    exact hhead

lemma root_mem_collectVersionSubtree (rootID : Nat) :
    rootID ∈ sm.collectVersionSubtree kbID rootID := by
  unfold collectVersionSubtree collectLoop
  exact subset_collectLoop _ _ _ rootID mem_cons_self

lemma collectVersionSubtree_forall {rootID : Nat} (hroot : P rootID)
    (hchild : ∀ id, P id → ∀ child ∈ sm.childrenOf kbID id, P child) :
    ∀ id ∈ sm.collectVersionSubtree kbID rootID, P id := by
  refine collectLoop_forall hchild _ _ _ ?_ ?_
  · intro id hid
    rw [mem_singleton.mp hid]
    exact hroot
  · intro id hid
    cases hid

/-- How many listed versions have a parent the walk has not passed yet. -/
def unreached (sm : StateMachine) (kbID : String) (out : List Nat) : Nat :=
  (sm.versionsByKB kbID).countP fun c => (sm.versions c).any fun m => m.parentVersionID ∉ out

lemma countP_add_countP_le {p q r : Nat → Bool} (hq : ∀ x, q x → p x) (hr : ∀ x, r x → p x)
    (hdisjoint : ∀ x, q x → ¬ r x) (list : List Nat) :
    list.countP q + list.countP r ≤ list.countP p := by
  induction list with
  | nil => simp
  | cons x list ih =>
  simp only [countP_cons]
  by_cases hqx : q x
  · rw [if_pos hqx, if_neg (hdisjoint x hqx), if_pos (hq x hqx)]
    omega
  by_cases hrx : r x
  · rw [if_neg hqx, if_pos hrx, if_pos (hr x hrx)]
    omega
  · rw [if_neg hqx, if_neg hrx]
    omega

lemma unreached_snoc {out : List Nat} (hnew : id ∉ out) :
    sm.unreached kbID (out ++ [id]) + (sm.childrenOf kbID id).length ≤ sm.unreached kbID out := by
  unfold childrenOf
  rw [← countP_eq_length_filter]
  apply countP_add_countP_le
  all_goals
    intro c
    cases sm.versions c with
    | none => simp
    | some m => exact fun hc => by simp_all

/-- The walk has fuel enough: it stops only when every child of a collected version has been
collected. -/
lemma collectLoop_closed (fuel : Nat) (queue out : List Nat)
    (hfuel : queue.length + sm.unreached kbID out ≤ fuel)
    (hopen : ∀ id ∈ out, ∀ child ∈ sm.childrenOf kbID id, child ∈ out ∨ child ∈ queue) :
    ∀ id ∈ sm.collectLoop kbID fuel queue out, ∀ child ∈ sm.childrenOf kbID id,
      child ∈ sm.collectLoop kbID fuel queue out := by
  induction fuel generalizing queue out with
  | zero =>
    obtain rfl : queue = [] := eq_nil_of_length_eq_zero (by omega)
    intro id hid child hchild
    exact (hopen id hid child hchild).resolve_right not_mem_nil
  | succ fuel ih =>
  cases queue with
  | nil =>
    intro id hid child hchild
    exact (hopen id hid child hchild).resolve_right not_mem_nil
  | cons head queue =>
  rw [length_cons] at hfuel
  unfold collectLoop
  by_cases hhead : head ∈ out
  · rw [if_pos hhead]
    refine ih _ _ (by omega) ?_
    intro id hid child hchild
    obtain hin | hin := hopen id hid child hchild
    · exact .inl hin
    obtain rfl | hin := mem_cons.mp hin
    · exact .inl hhead
    · exact .inr hin
  rw [if_neg hhead]
  have hused : sm.unreached kbID (out ++ [head]) + (sm.childrenOf kbID head).length ≤
      sm.unreached kbID out := unreached_snoc hhead
  have hfound := length_filter_le (fun child => decide (child ∉ head :: out))
    (sm.childrenOf kbID head)
  refine ih _ _ ?_ ?_
  · rw [length_append]
    omega
  intro id hid child hchild
  by_cases hin : child ∈ head :: out
  · obtain rfl | hin := mem_cons.mp hin
    · exact .inl (by simp)
    · exact .inl (mem_append_left _ hin)
  obtain hid | hid := mem_append.mp hid
  · obtain hout | hqueue := hopen id hid child hchild
    · exact absurd (mem_cons_of_mem _ hout) hin
    obtain rfl | hqueue := mem_cons.mp hqueue
    · exact absurd mem_cons_self hin
    · exact .inr (mem_append_left _ hqueue)
  · rw [mem_singleton.mp hid] at hchild
    exact .inr (mem_append_right _ (mem_filter.mpr ⟨hchild, by simpa using hin⟩))

lemma collectVersionSubtree_closed {rootID child : Nat}
    (hid : id ∈ sm.collectVersionSubtree kbID rootID) (hchild : child ∈ sm.childrenOf kbID id) :
    child ∈ sm.collectVersionSubtree kbID rootID := by
  refine collectLoop_closed _ _ _ ?_ ?_ id hid child hchild
  · have hcount : sm.unreached kbID [] ≤ (sm.versionsByKB kbID).length := countP_le_length
    simp only [length_singleton]
    omega
  · intro id hid
    cases hid

lemma subset_ancestorsLoop (fuel cur : Nat) (seen out : List Nat) :
    ∀ id ∈ out, id ∈ sm.ancestorsLoop kbID fuel cur seen out := by
  induction fuel generalizing cur seen out with
  | zero => exact fun id hid => hid
  | succ fuel ih =>
  intro id hid
  unfold ancestorsLoop
  split
  · exact hid
  split
  · exact hid
  split
  · exact hid
  split
  · exact hid
  · exact ih _ _ _ id (mem_append_left _ hid)

lemma ancestorsLoop_present (fuel cur : Nat) (seen out : List Nat)
    (hout : ∀ id ∈ out, ∃ m, sm.versions id = some m ∧ m.kbID = kbID) :
    ∀ id ∈ sm.ancestorsLoop kbID fuel cur seen out, ∃ m, sm.versions id = some m ∧ m.kbID = kbID := by
  induction fuel generalizing cur seen out with
  | zero => exact hout
  | succ fuel ih =>
  unfold ancestorsLoop
  split
  · exact hout
  split
  · exact hout
  split
  · exact hout
  next parent hparent =>
  split
  · exact hout
  next hkb =>
  refine ih _ _ _ ?_
  intro id hid
  obtain hid | hid := mem_append.mp hid
  · exact hout id hid
  · rw [mem_singleton.mp hid]
    exact ⟨parent, hparent, Decidable.not_not.mp hkb⟩

lemma collectVersionAncestors_present : ∀ id ∈ sm.collectVersionAncestors kbID versionID,
      ∃ m, sm.versions id = some m ∧ m.kbID = kbID :=
  ancestorsLoop_present _ _ _ _ nofun

lemma parent_mem_collectVersionAncestors {v parent : VersionMeta}
    (hv : sm.versions versionID = some v) (hzero : v.parentVersionID ≠ 0)
    (hself : v.parentVersionID ≠ versionID) (hparent : sm.versions v.parentVersionID = some parent)
    (hkb : parent.kbID = kbID) : v.parentVersionID ∈ sm.collectVersionAncestors kbID versionID := by
  unfold collectVersionAncestors ancestorsLoop
  rw [hv]
  have hnew : ¬ (v.parentVersionID = 0 ∨ v.parentVersionID ∈ [versionID]) := by
    simp [hzero, hself]
  simp only [if_neg hnew, hparent, hkb, ne_eq]
  exact subset_ancestorsLoop _ _ _ _ _ (by simp)

lemma mem_foldl_new (keep ids out : List Nat) (x : Nat) :
    x ∈ ids.foldl (fun out id => if id ∈ keep ∨ id ∈ out then out else out ++ [id]) out ↔
      x ∈ out ∨ x ∈ ids ∧ x ∉ keep := by
  induction ids generalizing out with
  | nil => simp
  | cons id ids ih =>
  rw [foldl_cons, ih]
  by_cases hid : id ∈ keep ∨ id ∈ out
  · rw [if_pos hid, mem_cons]
    constructor
    · rintro (hx | ⟨hx, hkeep⟩)
      · exact .inl hx
      · exact .inr ⟨.inr hx, hkeep⟩
    · rintro (hx | ⟨rfl | hx, hkeep⟩)
      · exact .inl hx
      · exact .inl (hid.resolve_left hkeep)
      · exact .inr ⟨hx, hkeep⟩
  rw [if_neg hid, mem_append, mem_singleton, mem_cons]
  constructor
  · rintro ((hx | rfl) | ⟨hx, hkeep⟩)
    · exact .inl hx
    · exact .inr ⟨.inl rfl, fun hkeep => hid (.inl hkeep)⟩
    · exact .inr ⟨.inr hx, hkeep⟩
  · rintro (hx | ⟨rfl | hx, hkeep⟩)
    · exact .inl (.inl hx)
    · exact .inl (.inr rfl)
    · exact .inr ⟨hx, hkeep⟩

/-- The versions an `ANCESTORS` deletion removes: those reachable from an ancestor but not
from the target itself. -/
lemma mem_versionDeleteTargets_ancestors {x : Nat}
    (htargets : sm.versionDeleteTargets kbID versionID .ancestors = .ok targets) :
    x ∈ targets ↔ (∃ a ∈ sm.collectVersionAncestors kbID versionID,
      x ∈ sm.collectVersionSubtree kbID a) ∧ x ∉ sm.collectVersionSubtree kbID versionID := by
  have hfold : ∀ (ancestors out : List Nat),
      x ∈ ancestors.foldl (fun out ancestor =>
        (sm.collectVersionSubtree kbID ancestor).foldl (fun out id =>
          if id ∈ sm.collectVersionSubtree kbID versionID ∨ id ∈ out then out else out ++ [id])
          out) out ↔
        x ∈ out ∨ (∃ a ∈ ancestors, x ∈ sm.collectVersionSubtree kbID a) ∧
          x ∉ sm.collectVersionSubtree kbID versionID := by
    intro ancestors
    induction ancestors with
    | nil => simp
    | cons a ancestors ih =>
      intro out
      rw [foldl_cons, ih, mem_foldl_new]
      simp only [mem_cons, or_and_right, exists_or, exists_eq_left, or_assoc]
  simp only [versionDeleteTargets, Except.ok.injEq] at htargets
  rw [← htargets, hfold]
  simp

lemma versionDeleteTargets_present {root : VersionMeta} {mode : VersionDeleteMode}
    (hroot : sm.versions versionID = some root)
    (htargets : sm.versionDeleteTargets kbID versionID mode = .ok targets) :
    ∀ id ∈ targets, ∃ m, sm.versions id = some m := by
  have hsubtree : ∀ rootID, (∃ m, sm.versions rootID = some m) →
      ∀ id ∈ sm.collectVersionSubtree kbID rootID, ∃ m, sm.versions id = some m := by
    intro rootID hpresent
    refine collectVersionSubtree_forall hpresent ?_
    intro id _ child hchild
    obtain ⟨-, -, m, hm, -⟩ := mem_childrenOf.mp hchild
    exact ⟨m, hm⟩
  cases mode with
  | subtree =>
    cases htargets
    exact hsubtree versionID ⟨root, hroot⟩
  | single =>
    cases htargets
    intro id hid
    rw [mem_singleton.mp hid]
    exact ⟨root, hroot⟩
  | ancestors =>
    intro id hid
    obtain ⟨⟨a, ha, hid⟩, -⟩ := (mem_versionDeleteTargets_ancestors htargets).mp hid
    obtain ⟨m, hm, -⟩ := collectVersionAncestors_present a ha
    exact hsubtree a ⟨m, hm⟩ id hid
  | other code => cases htargets

end stratum.metadata.StateMachine
