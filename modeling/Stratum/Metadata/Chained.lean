import Mathlib.Logic.Relation
import Stratum.Metadata.Effect

namespace stratum.metadata

open Relation StateMachine Option List

/-- In the metadata and not being deleted. -/
def Live (sm : StateMachine) (v : Nat) : Prop :=
  ∃ m, sm.versions v = some m ∧ m.deleting = false

/-- The version `x` names the present version `p` as its parent. -/
def ParentOf (sm : StateMachine) (p x : Nat) : Prop :=
  (∃ n, sm.versions p = some n) ∧ ∃ m, sm.versions x = some m ∧ m.parentVersionID = p

def Ancestor (sm : StateMachine) : Nat → Nat → Prop := TransGen (ParentOf sm)

/-- What every run of commands keeps of the chains: a parent that is present is of the same
knowledge base, a live version's is live, and no two live versions share one. -/
structure Chained (sm : StateMachine) : Prop where
  sameKB : ∀ {v m n}, sm.versions v = some m → sm.versions m.parentVersionID = some n →
    n.kbID = m.kbID
  parent_live : ∀ {v m n}, sm.versions v = some m → m.deleting = false →
    sm.versions m.parentVersionID = some n → n.deleting = false
  unique : ∀ {v w m n}, sm.versions v = some m → sm.versions w = some n → m.deleting = false →
    n.deleting = false → m.parentVersionID = n.parentVersionID → m.parentVersionID ≠ 0 → v = w

variable {a p v x : Nat} {sm : StateMachine} {targets : List Nat}

namespace Chained

variable {sm sm' : StateMachine}

lemma new (limit : Nat) (epoch : String) : Chained (newStateMachine limit epoch) where
  sameKB hm := nomatch hm
  parent_live hm := nomatch hm
  unique hm := nomatch hm

section

variable (hchain : Chained sm)

include hchain

lemma steady (h : SteadyAll sm sm') : Chained sm' := by
  refine ⟨?_, ?_, ?_⟩
  · intro v m' n' hm' hn'
    obtain ⟨m, hm, hv⟩ := h.before hm'
    obtain ⟨n, hn, hp⟩ := h.before hn'
    rw [hp.kbID, hv.kbID]
    exact hchain.sameKB hm (hv.parentVersionID ▸ hn)
  · intro v m' n' hm' hdel hn'
    obtain ⟨m, hm, hv⟩ := h.before hm'
    obtain ⟨n, hn, hp⟩ := h.before hn'
    rw [hp.deleting]
    exact hchain.parent_live hm (hv.deleting ▸ hdel) (hv.parentVersionID ▸ hn)
  intro v w m' n' hm' hn' hv' hw' heq hne
  obtain ⟨m, hm, hv⟩ := h.before hm'
  obtain ⟨n, hn, hw⟩ := h.before hn'
  rw [hv.parentVersionID] at heq hne
  rw [hw.parentVersionID] at heq
  exact hchain.unique hm hn (hv.deleting ▸ hv') (hw.deleting ▸ hw') heq hne

lemma restrict (hold : ∀ {v m}, sm'.versions v = some m → sm.versions v = some m) : Chained sm' :=
  ⟨fun hm hn => hchain.sameKB (hold hm) (hold hn),
    fun hm hdel hn => hchain.parent_live (hold hm) hdel (hold hn),
    fun hm hn => hchain.unique (hold hm) (hold hn)⟩

lemma allocated (hwf : WellFormed sm) {now : Int} {kbID : String} {parent : Nat}
    (clientRequestID : String) (hparent : sm.parentRefused kbID parent = none) :
    Chained (sm.allocateVersion now kbID parent clientRequestID) := by
  have hzero : sm.versions 0 = none := by
    by_contra hsome
    obtain ⟨m, hm⟩ := ne_none_iff_exists'.mp hsome
    exact Nat.lt_irrefl 0 (hwf.pos hm)
  -- No version names one as parent that is yet to be allocated.
  have hup : ∀ {v m n}, (sm.allocateVersion now kbID parent clientRequestID).versions v = some m →
      (sm.allocateVersion now kbID parent clientRequestID).versions m.parentVersionID = some n →
      sm.versions m.parentVersionID = some n := by
    intro v m n hm hn
    have hlt := (hwf.allocated clientRequestID hparent).parent_lt hm
    have hle := (hwf.allocated clientRequestID hparent).lt_next hm
    refine (eq_some_of_allocateVersion hn).resolve_left ?_
    rintro ⟨heq, -⟩
    change v < sm.nextVersionID + 1 at hle
    omega
  -- The parent of the new version, if it has one.
  have hadmitted : ∀ {n}, sm.versions parent = some n → n.kbID = kbID ∧ n.deleting = false ∧
      ∀ {w c}, sm.versions w = some c → c.parentVersionID ≠ parent := by
    intro n hn
    have hne : parent ≠ 0 := by
      rintro rfl
      rw [hzero] at hn
      cases hn
    obtain ⟨p, hp, hkb, -, hdel, hchildless⟩ := parentRefused_none hparent hne
    rw [hp, some.injEq] at hn
    subst hn
    refine ⟨hkb, hdel, ?_⟩
    intro w c hc heq
    have hsame := hchain.sameKB hc (heq ▸ hp)
    exact hchildless w (hkb ▸ hsame ▸ hwf.listed hc) c hc heq
  refine ⟨?_, ?_, ?_⟩
  · intro v m n hm hn
    have hn := hup hm hn
    obtain ⟨rfl, rfl⟩ | hm := eq_some_of_allocateVersion hm
    · exact (hadmitted hn).1
    · exact hchain.sameKB hm hn
  · intro v m n hm hdel hn
    have hn := hup hm hn
    obtain ⟨rfl, rfl⟩ | hm := eq_some_of_allocateVersion hm
    · exact (hadmitted hn).2.1
    · exact hchain.parent_live hm hdel hn
  intro v w m n hm hn hv hw heq hne
  obtain ⟨rfl, rfl⟩ | hm := eq_some_of_allocateVersion hm
  · obtain ⟨rfl, rfl⟩ | hn := eq_some_of_allocateVersion hn
    · rfl
    · obtain ⟨p, hp, -⟩ := parentRefused_none hparent hne
      exact absurd heq.symm ((hadmitted hp).2.2 hn)
  obtain ⟨rfl, rfl⟩ | hn := eq_some_of_allocateVersion hn
  · obtain ⟨p, hp, -⟩ := parentRefused_none hparent fun h => hne (heq.trans h)
    exact absurd heq ((hadmitted hp).2.2 hm)
  · exact hchain.unique hm hn hv hw heq hne

end

variable {kbID : String} (hchain : Chained sm)

include hchain

lemma mem_childrenOf_iff (hwf : WellFormed sm) {n : VersionMeta} (hn : sm.versions p = some n)
    (hkb : n.kbID = kbID) : x ∈ sm.childrenOf kbID p ↔ ParentOf sm p x := by
  rw [mem_childrenOf]
  constructor
  · rintro ⟨-, -, hm⟩
    exact ⟨⟨n, hn⟩, hm⟩
  · rintro ⟨-, m, hm, rfl⟩
    have hsame := hchain.sameKB hm hn
    exact ⟨hkb ▸ hsame ▸ hwf.listed hm, Nat.ne_of_gt (hwf.parent_lt hm), m, hm, rfl⟩

lemma kbID_of_parentOf (hparent : ParentOf sm p x)
    (hkb : ∃ n, sm.versions p = some n ∧ n.kbID = kbID) :
    ∃ m, sm.versions x = some m ∧ m.kbID = kbID := by
  obtain ⟨n, hn, rfl⟩ := hkb
  obtain ⟨-, m, hm, rfl⟩ := hparent
  exact ⟨m, hm, (hchain.sameKB hm hn).symm⟩

lemma mem_collectVersionSubtree_iff (hwf : WellFormed sm) {r : Nat}
    (hroot : ∃ n, sm.versions r = some n ∧ n.kbID = kbID) :
    x ∈ sm.collectVersionSubtree kbID r ↔ ReflTransGen (ParentOf sm) r x := by
  constructor
  · intro hx
    refine (collectVersionSubtree_forall (P := fun x =>
      ReflTransGen (ParentOf sm) r x ∧ ∃ n, sm.versions x = some n ∧ n.kbID = kbID)
      ⟨.refl, hroot⟩ ?_ x hx).1
    rintro id ⟨hpath, n, hn, hkb⟩ child hchild
    have hparent := (hchain.mem_childrenOf_iff hwf hn hkb).mp hchild
    exact ⟨hpath.tail hparent, hchain.kbID_of_parentOf hparent ⟨n, hn, hkb⟩⟩
  · intro hpath
    have hboth : x ∈ sm.collectVersionSubtree kbID r ∧
        ∃ n, sm.versions x = some n ∧ n.kbID = kbID := by
      induction hpath with
      | refl => exact ⟨root_mem_collectVersionSubtree r, hroot⟩
      | tail _ hparent ih =>
      obtain ⟨hin, n, hn, hkb⟩ := ih
      exact ⟨collectVersionSubtree_closed hin
        ((hchain.mem_childrenOf_iff hwf hn hkb).mpr hparent),
        hchain.kbID_of_parentOf hparent ⟨n, hn, hkb⟩⟩
    exact hboth.1

end Chained

lemma WellFormed.lt_of_parentOf (hwf : WellFormed sm) (hparent : ParentOf sm p x) : p < x := by
  obtain ⟨-, m, hm, rfl⟩ := hparent
  exact hwf.parent_lt hm

lemma WellFormed.lt_of_ancestor (hwf : WellFormed sm) (hanc : Ancestor sm a x) : a < x := by
  induction hanc with
  | single hparent => exact hwf.lt_of_parentOf hparent
  | tail _ hparent ih => exact Nat.lt_trans ih (hwf.lt_of_parentOf hparent)

namespace StateMachine

variable {sm : StateMachine} {kbID : String}

lemma ancestor_of_mem_ancestorsLoop (fuel cur : Nat) (seen out : List Nat)
    (ha : a ∈ sm.ancestorsLoop kbID fuel cur seen out) : a ∈ out ∨ Ancestor sm a cur := by
  induction fuel generalizing cur seen out with
  | zero => exact .inl ha
  | succ fuel ih =>
  unfold ancestorsLoop at ha
  split at ha
  · exact .inl ha
  next v hv =>
  split at ha
  · exact .inl ha
  split at ha
  · exact .inl ha
  next parent hparent =>
  split at ha
  · exact .inl ha
  have hlink : ParentOf sm v.parentVersionID cur := ⟨⟨parent, hparent⟩, v, hv, rfl⟩
  obtain hout | hanc := ih _ _ _ ha
  · obtain hout | hone := mem_append.mp hout
    · exact .inl hout
    · rw [mem_singleton.mp hone]
      exact .inr (.single hlink)
  · exact .inr (hanc.tail hlink)

lemma countP_lt_parent {list : List Nat} {cur : Nat} (hin : p ∈ list) (hlt : p < cur) :
    list.countP (· < p) < list.countP (· < cur) := by
  have hone : 0 < list.countP (· = p) := countP_pos_iff.mpr ⟨p, hin, by simp⟩
  have hsum : list.countP (· < p) + list.countP (· = p) ≤ list.countP (· < cur) := by
    apply countP_add_countP_le
    all_goals
      intro x hx
      simp only [decide_eq_true_eq] at hx ⊢
      omega
  omega

end StateMachine

namespace Chained

variable {sm : StateMachine} {kbID : String}

section

variable (hchain : Chained sm)

include hchain

/-- The walk has fuel enough to meet every ancestor. -/
lemma mem_ancestorsLoop (hwf : WellFormed sm) (fuel cur : Nat) (seen out : List Nat)
    (hfuel : (sm.versionsByKB kbID).countP (· < cur) ≤ fuel) (hseen : ∀ s ∈ seen, cur ≤ s)
    (hcur : ∃ n, sm.versions cur = some n ∧ n.kbID = kbID) (hanc : Ancestor sm a cur) :
    a ∈ sm.ancestorsLoop kbID fuel cur seen out := by
  induction fuel generalizing cur seen out with
  | zero =>
    obtain ⟨p, -, ⟨n, hn⟩, m, hm, rfl⟩ := TransGen.tail'_iff.mp hanc
    obtain ⟨m', hm', rfl⟩ := hcur
    rw [hm, some.injEq] at hm'
    subst hm'
    have hin := hchain.sameKB hm hn ▸ hwf.listed hn
    have hless := countP_lt_parent hin (hwf.parent_lt hm)
    omega
  | succ fuel ih =>
    obtain ⟨p, hpath, ⟨n, hn⟩, m, hm, rfl⟩ := TransGen.tail'_iff.mp hanc
    obtain ⟨m', hm', rfl⟩ := hcur
    rw [hm, some.injEq] at hm'
    subst hm'
    have hlt := hwf.parent_lt hm
    have hkb := hchain.sameKB hm hn
    have hless := countP_lt_parent (hkb ▸ hwf.listed hn) hlt
    have hnew : ¬ (m.parentVersionID = 0 ∨ m.parentVersionID ∈ seen) := by
      rintro (hzero | hin)
      · exact Nat.lt_irrefl 0 (hzero ▸ hwf.pos hn)
      · have hle := hseen _ hin
        omega
    unfold ancestorsLoop
    simp only [hm, if_neg hnew, hn, hkb, ne_eq]
    obtain heq | hanc := ReflTransGen.cases_tail_iff _ _ _ |>.mp hpath
    · rw [← heq]
      exact subset_ancestorsLoop _ _ _ _ _ (by simp)
    refine ih _ _ _ (by omega) ?_ ⟨n, hn, hkb⟩ (TransGen.tail'_iff.mpr hanc)
    intro s hs
    obtain rfl | hs := mem_cons.mp hs
    · exact Nat.le_refl _
    · have hle := hseen s hs
      omega

lemma mem_collectVersionAncestors_iff (hwf : WellFormed sm)
    (hroot : ∃ n, sm.versions v = some n ∧ n.kbID = kbID) :
    a ∈ sm.collectVersionAncestors kbID v ↔ Ancestor sm a v := by
  constructor
  · intro ha
    exact (ancestor_of_mem_ancestorsLoop _ _ _ _ ha).resolve_left not_mem_nil
  · intro hanc
    refine hchain.mem_ancestorsLoop hwf _ _ _ _ ?_ ?_ hroot hanc
    · exact Nat.le_succ_of_le countP_le_length
    · intro s hs
      exact Nat.le_of_eq (mem_singleton.mp hs).symm

lemma kbID_of_ancestor (hanc : Ancestor sm a v)
    (hroot : ∃ n, sm.versions v = some n ∧ n.kbID = kbID) :
    ∃ n, sm.versions a = some n ∧ n.kbID = kbID := by
  have hup : ∀ {p x}, ParentOf sm p x → (∃ m, sm.versions x = some m ∧ m.kbID = kbID) →
      ∃ n, sm.versions p = some n ∧ n.kbID = kbID := by
    rintro p x ⟨⟨n, hn⟩, m, hm, rfl⟩ ⟨m', hm', rfl⟩
    rw [hm, some.injEq] at hm'
    exact ⟨n, hn, hm' ▸ hchain.sameKB hm hn⟩
  induction hanc using TransGen.head_induction_on with
  | single hparent => exact hup hparent hroot
  | head hparent _ ih => exact hup hparent ih

end

section

variable (hchain : Chained sm) (hwf : WellFormed sm)
  (hroot : ∃ n, sm.versions v = some n ∧ n.kbID = kbID)
  (htargets : sm.versionDeleteTargets kbID v .ancestors = .ok targets)

include hchain hwf hroot htargets

lemma mem_ancestorTargets_iff :
    x ∈ targets ↔ (∃ a, Ancestor sm a v ∧ ReflTransGen (ParentOf sm) a x) ∧
      ¬ ReflTransGen (ParentOf sm) v x := by
  rw [mem_versionDeleteTargets_ancestors htargets, hchain.mem_collectVersionSubtree_iff hwf hroot]
  refine and_congr_left' (exists_congr fun a => ?_)
  rw [hchain.mem_collectVersionAncestors_iff hwf hroot]
  refine and_congr_right fun hanc => ?_
  exact hchain.mem_collectVersionSubtree_iff hwf (hchain.kbID_of_ancestor hanc hroot)

lemma ancestor_mem_targets (hanc : Ancestor sm a v) : a ∈ targets := by
  refine (hchain.mem_ancestorTargets_iff hwf hroot htargets).mpr ⟨⟨a, hanc, .refl⟩, fun hpath => ?_⟩
  have hlt := hwf.lt_of_ancestor hanc
  obtain heq | hback := reflTransGen_iff_eq_or_transGen.mp hpath
  · omega
  · have hgt := hwf.lt_of_ancestor hback
    omega

end

lemma spliceParent_present {parent : Nat} (hne : sm.spliceParent kbID parent ≠ 0) :
    sm.spliceParent kbID parent = parent ∧
      ∃ n, sm.versions parent = some n ∧ n.kbID = kbID ∧ n.deleting = false := by
  unfold spliceParent at hne ⊢
  split at hne
  · exact absurd rfl hne
  next hzero =>
  split at hne
  · exact absurd rfl hne
  next n hn =>
  split at hne
  · exact absurd rfl hne
  next hok =>
  rw [if_neg hzero, hn, if_neg hok]
  rw [not_or, not_not, Bool.not_eq_true] at hok
  exact ⟨rfl, n, rfl, hok⟩

section

variable {versionID : Nat} {root : VersionMeta} {mode : VersionDeleteMode} {targets : List Nat}
  (hchain : Chained sm) (hwf : WellFormed sm) (hroot : sm.versions versionID = some root)
  (hown : root.kbID = kbID) (htargets : sm.versionDeleteTargets kbID versionID mode = .ok targets)

include hchain hwf hroot hown htargets

lemma newParent_survives {m n : VersionMeta} (hm : sm.versions x = some m)
    (hdel : m.deleting = false) (hout : x ∉ targets)
    (hn : sm.versions (sm.newParent kbID versionID root mode x m) = some n) :
    n.deleting = false ∧ sm.newParent kbID versionID root mode x m ∉ targets := by
  have hpresent : ∃ n, sm.versions versionID = some n ∧ n.kbID = kbID := ⟨root, hroot, hown⟩
  cases mode with
  | other code => cases htargets
  | subtree =>
    cases htargets
    refine ⟨hchain.parent_live hm hdel hn, fun hin => hout ?_⟩
    -- The removed set is closed downwards.
    rw [hchain.mem_collectVersionSubtree_iff hwf hpresent] at hin ⊢
    exact hin.tail ⟨⟨n, hn⟩, m, hm, rfl⟩
  | single =>
    cases htargets
    simp only [newParent] at hn ⊢
    by_cases hchild : x ∈ sm.childrenOf kbID versionID
    · rw [if_pos hchild] at hn ⊢
      have hne : sm.spliceParent kbID root.parentVersionID ≠ 0 :=
        fun hzero => Nat.lt_irrefl 0 (hzero ▸ hwf.pos hn)
      obtain ⟨heq, p, hp, -, hpdel⟩ := spliceParent_present hne
      rw [heq] at hn ⊢
      rw [hp, some.injEq] at hn
      refine ⟨hn ▸ hpdel, fun hin => ?_⟩
      exact Nat.ne_of_lt (hwf.parent_lt hroot) (mem_singleton.mp hin)
    · rw [if_neg hchild] at hn ⊢
      refine ⟨hchain.parent_live hm hdel hn, fun hin => hchild ?_⟩
      rw [hchain.mem_childrenOf_iff hwf hroot hown]
      exact ⟨⟨root, hroot⟩, m, hm, mem_singleton.mp hin⟩
  | ancestors =>
    simp only [newParent] at hn ⊢
    by_cases hx : x = versionID
    · rw [if_pos hx] at hn
      exact absurd (hwf.pos hn) (Nat.lt_irrefl 0)
    rw [if_neg hx] at hn ⊢
    refine ⟨hchain.parent_live hm hdel hn, fun hin => hout ?_⟩
    have hlink : ParentOf sm m.parentVersionID x := ⟨⟨n, hn⟩, m, hm, rfl⟩
    rw [hchain.mem_ancestorTargets_iff hwf hpresent htargets] at hin ⊢
    obtain ⟨⟨a, hanc, hpath⟩, hbelow⟩ := hin
    refine ⟨⟨a, hanc, hpath.tail hlink⟩, fun hkeep => hbelow ?_⟩
    -- A version below the target other than the target has its parent below it too.
    obtain heq | ⟨p, hpath', -, m', hm', rfl⟩ := ReflTransGen.cases_tail_iff _ _ _ |>.mp hkeep
    · exact absurd heq hx
    · rw [hm, some.injEq] at hm'
      exact hm' ▸ hpath'

lemma marked : Chained ((sm.rewire kbID versionID root mode).markDeleting targets) := by
  refine ⟨?_, ?_, ?_⟩
  · intro v m' n' hm' hn'
    obtain ⟨m, hm, hkb, -, hparent, -⟩ := marked_eq_some hroot htargets hm'
    obtain ⟨n, hn, hkb', -⟩ := marked_eq_some hroot htargets hn'
    rw [hkb, hkb']
    rw [hparent] at hn
    have hpos := hwf.pos hn
    cases mode with
    | subtree => exact hchain.sameKB hm hn
    | other code => cases htargets
    | single =>
      simp only [newParent] at hn hpos
      by_cases hchild : v ∈ sm.childrenOf kbID versionID
      · rw [if_pos hchild] at hn hpos
        obtain ⟨heq, p, hp, hpkb, -⟩ := spliceParent_present (Nat.ne_of_gt hpos)
        rw [heq, hp, some.injEq] at hn
        obtain ⟨c, hc, hckb⟩ := hwf.present (mem_childrenOf.mp hchild).1
        rw [hm, some.injEq] at hc
        rw [← hn, hpkb, hc, hckb]
      · rw [if_neg hchild] at hn
        exact hchain.sameKB hm hn
    | ancestors =>
      simp only [newParent] at hn hpos
      by_cases hv : v = versionID
      · rw [if_pos hv] at hpos
        exact absurd hpos (Nat.lt_irrefl 0)
      · rw [if_neg hv] at hn
        exact hchain.sameKB hm hn
  · intro v m' n' hm' hdel hn'
    obtain ⟨m, hm, -, -, hparent, hlive⟩ := marked_eq_some hroot htargets hm'
    obtain ⟨n, hn, -, -, -, hlive'⟩ := marked_eq_some hroot htargets hn'
    rw [hparent] at hn hlive'
    obtain ⟨hmdel, hout⟩ := hlive.mp hdel
    exact hlive'.mpr (hchain.newParent_survives hwf hroot hown htargets hm hmdel hout hn)
  intro v w m' n' hm' hn' hv hw heq hne
  obtain ⟨m, hm, -, -, hparent, hlive⟩ := marked_eq_some hroot htargets hm'
  obtain ⟨n, hn, -, -, hparent', hlive'⟩ := marked_eq_some hroot htargets hn'
  obtain ⟨hmdel, hvout⟩ := hlive.mp hv
  obtain ⟨hndel, hwout⟩ := hlive'.mp hw
  rw [hparent] at heq hne
  rw [hparent'] at heq
  cases mode with
  | subtree => exact hchain.unique hm hn hmdel hndel heq hne
  | other code => cases htargets
  | ancestors =>
    simp only [newParent] at heq hne
    have hv : v ≠ versionID := fun h => hne (if_pos h)
    rw [if_neg hv] at heq hne
    have hw : w ≠ versionID := fun h => hne (heq.trans (if_pos h))
    rw [if_neg hw] at heq
    exact hchain.unique hm hn hmdel hndel heq hne
  | single =>
    cases htargets
    simp only [newParent] at heq hne
    -- A live child of the removed version: the version was live, and its parent's only child.
    have hside : ∀ {x y : Nat} {m n : VersionMeta}, sm.versions x = some m →
        sm.versions y = some n → m.deleting = false → n.deleting = false →
        x ∈ sm.childrenOf kbID versionID → y ≠ versionID →
        n.parentVersionID = sm.spliceParent kbID root.parentVersionID →
        sm.spliceParent kbID root.parentVersionID ≠ 0 → False := by
      intro x y m n hm hn hmdel hndel hchild hy hsame hne
      obtain ⟨-, m', hm', hmparent⟩ := (hchain.mem_childrenOf_iff hwf hroot hown).mp hchild
      rw [hm, some.injEq] at hm'
      subst hm'
      have hrootdel := hchain.parent_live hm hmdel (hmparent ▸ hroot)
      obtain ⟨hup, -⟩ := spliceParent_present hne
      exact hy (hchain.unique hn hroot hndel hrootdel (hsame.trans hup) (hsame ▸ hne))
    have hvne : v ≠ versionID := fun h => hvout (mem_singleton.mpr h)
    have hwne : w ≠ versionID := fun h => hwout (mem_singleton.mpr h)
    by_cases hvchild : v ∈ sm.childrenOf kbID versionID
    · rw [if_pos hvchild] at heq hne
      by_cases hwchild : w ∈ sm.childrenOf kbID versionID
      · obtain ⟨-, -, c, hc, hcparent⟩ := mem_childrenOf.mp hvchild
        obtain ⟨-, -, d, hd, hdparent⟩ := mem_childrenOf.mp hwchild
        rw [hm, some.injEq] at hc
        rw [hn, some.injEq] at hd
        subst hc hd
        exact hchain.unique hm hn hmdel hndel (hcparent.trans hdparent.symm)
          (hcparent ▸ Nat.ne_of_gt (hwf.pos hroot))
      · rw [if_neg hwchild] at heq
        exact (hside hm hn hmdel hndel hvchild hwne heq.symm hne).elim
    · rw [if_neg hvchild] at heq hne
      by_cases hwchild : w ∈ sm.childrenOf kbID versionID
      · rw [if_pos hwchild] at heq
        exact (hside hn hm hndel hmdel hwchild hvne heq (heq ▸ hne)).elim
      · rw [if_neg hwchild] at heq
        exact hchain.unique hm hn hmdel hndel heq hne

end

lemma apply (hchain : Chained sm) (hwf : WellFormed sm) (now : Int) (cmd : Command) :
    Chained (sm.apply now cmd).1 := by
  cases Change.apply sm now cmd with
  | steady hsteady => exact hchain.steady hsteady
  | allocated now' kbID parent clientRequestID _ _ _ hparent heq =>
    rw [heq]
    exact hchain.allocated hwf clientRequestID hparent
  | marked kbID versionID mode kb root targets _ _ hroot hown htargets _ _ heq =>
    rw [heq]
    exact hchain.marked hwf hroot hown htargets
  | removed v m hm _ hversions =>
    exact hchain.restrict fun hn => (eq_some_of_removed hversions hn).2
  | removedKB kbID _ hversions =>
    exact hchain.restrict fun hn => (eq_some_of_removedKB hversions hn).2

end Chained

end stratum.metadata
