import Mathlib.Data.Option.Basic
import Stratum.Metadata.Change

namespace stratum.metadata

open Function StateMachine List Option

/-- What an update may do to the metadata of a version: its identity stays, its parent only
moves up the chain, and a deletion mark is never taken back. -/
structure Kept (m m' : VersionMeta) : Prop where
  versionID : m'.versionID = m.versionID
  kbID : m'.kbID = m.kbID
  parent : m'.parentVersionID ≤ m.parentVersionID
  deleting : m.deleting = true → m'.deleting = true

lemma Kept.refl (m : VersionMeta) : Kept m m := ⟨rfl, rfl, Nat.le_refl _, id⟩

/-- The metadata as every run of commands leaves it: ids are positive and below the counter,
each version is listed exactly once, under its own knowledge base, and its parent is older. -/
structure WellFormed (sm : StateMachine) : Prop where
  next_pos : 0 < sm.nextVersionID
  id_eq : ∀ {v m}, sm.versions v = some m → m.versionID = v
  pos : ∀ {v m}, sm.versions v = some m → 0 < v
  lt_next : ∀ {v m}, sm.versions v = some m → v < sm.nextVersionID
  parent_lt : ∀ {v m}, sm.versions v = some m → m.parentVersionID < v
  listed : ∀ {v m}, sm.versions v = some m → v ∈ sm.versionsByKB m.kbID
  present : ∀ {kbID v}, v ∈ sm.versionsByKB kbID → ∃ m, sm.versions v = some m ∧ m.kbID = kbID
  nodup : ∀ kbID, (sm.versionsByKB kbID).Nodup

/-- No version comes or goes, and each one is kept. -/
structure KeptAll (sm sm' : StateMachine) : Prop where
  versions : ∀ v, Option.Rel Kept (sm.versions v) (sm'.versions v)
  lists : sm'.versionsByKB = sm.versionsByKB
  next : sm'.nextVersionID = sm.nextVersionID

/-- What one command does to the set of versions. -/
inductive Effect (sm sm' : StateMachine) : Prop
  | kept (hkept : KeptAll sm sm')
  | allocated (now : Int) (kbID : String) (parent : Nat) (clientRequestID : String)
      (hparent : sm.parentRefused kbID parent = none)
      (heq : sm' = sm.allocateVersion now kbID parent clientRequestID)
  | removed (v : Nat) (m : VersionMeta) (hm : sm.versions v = some m)
      (hversions : sm'.versions = update sm.versions v none)
      (hlists : sm'.versionsByKB = update sm.versionsByKB m.kbID ((sm.versionsByKB m.kbID).erase v))
      (hnext : sm'.nextVersionID = sm.nextVersionID)
  | removedKB (kbID : String)
      (hversions : sm'.versions = fun v => if v ∈ sm.versionsByKB kbID then none else sm.versions v)
      (hlists : sm'.versionsByKB = update sm.versionsByKB kbID [])
      (hnext : sm'.nextVersionID = sm.nextVersionID)

variable (limit : Nat) (epoch : String)

lemma wellFormed_newStateMachine : WellFormed (newStateMachine limit epoch) where
  next_pos := Nat.one_pos
  id_eq h := nomatch h
  pos h := nomatch h
  lt_next h := nomatch h
  parent_lt h := nomatch h
  listed h := nomatch h
  present h := absurd h not_mem_nil
  nodup _ := nodup_nil

variable {v id parent : Nat} {kbID clientRequestID : String} {sm : StateMachine}
  {targets : List Nat} {cmd : Command} {m m' root : VersionMeta} {now : Int}
  {mode : VersionDeleteMode}

/-- The knowledge base whose metadata a command writes. -/
def Command.kb? : Command → Option String
  | .createKB kb => some kb.kbID
  | .markKBDeleting kbID | .markKBDeleteFailed kbID | .removeKBMeta kbID | .rollback kbID _ => some kbID
  | _ => none

lemma StateMachine.apply_kbs (sm : StateMachine) (now : Int) (hcmd : cmd.kb? = none) :
    (sm.apply now cmd).1.kbs = sm.kbs := by
  have happlied := Applied.apply sm now cmd
  generalize sm.apply now cmd = result at happlied ⊢
  cases happlied with
  | createKB | rollback | removeKBMeta => cases hcmd
  | setKBStatus cmd kbID kb status hcases => obtain rfl | rfl := hcases <;> cases hcmd
  | marked v root mode kb targets =>
    obtain ⟨versions, heq⟩ := marked_eq sm root.kbID v root mode targets
    rw [heq]
  | refused | unchanged | createVersion | revised | removeVersionMeta | discardVersion => rfl

/-- What an admitted parent is: a durable version of the same knowledge base that is not
being deleted and has no child yet. -/
lemma StateMachine.parentRefused_none (hnone : sm.parentRefused kbID parent = none)
    (hparent : parent ≠ 0) :
    ∃ m, sm.versions parent = some m ∧ m.kbID = kbID ∧ m.dataStatus = .durable ∧
      m.deleting = false ∧
      ∀ id ∈ sm.versionsByKB kbID, ∀ c, sm.versions id = some c → c.parentVersionID ≠ parent := by
  unfold parentRefused at hnone
  rw [if_neg hparent] at hnone
  cases hm : sm.versions parent with
  | none => simp [hm] at hnone
  | some m =>
  simp only [hm] at hnone
  by_cases hkb : m.kbID = kbID
  · rw [if_neg (not_not.mpr hkb)] at hnone
    by_cases hpending : m.dataStatus = .pending
    · simp [hpending] at hnone
    rw [if_neg hpending] at hnone
    by_cases hdurable : m.dataStatus = .durable
    · rw [if_neg (not_not.mpr hdurable)] at hnone
      by_cases hdel : m.deleting
      · simp [hdel] at hnone
      rw [if_neg hdel, map_eq_none_iff, find?_eq_none] at hnone
      refine ⟨m, rfl, hkb, hdurable, Bool.eq_false_iff.mpr hdel, ?_⟩
      intro id hid c hc hchild
      exact hnone id hid (by simp [hc, hchild])
    · simp [hdurable] at hnone
  · simp [hkb] at hnone

/-- The metadata a new version starts with. -/
def newVersion (now : Int) (versionID : Nat) (kbID : String) (parent : Nat) : VersionMeta :=
  { versionID := versionID, parentVersionID := parent, kbID := kbID, createdAt := now }

lemma StateMachine.allocateVersion_versions (sm : StateMachine) (now : Int) (kbID : String)
    (parent : Nat) (clientRequestID : String) (v : Nat) :
    (sm.allocateVersion now kbID parent clientRequestID).versions v =
      if v = sm.nextVersionID then some (newVersion now sm.nextVersionID kbID parent)
      else sm.versions v := by
  by_cases hv : v = sm.nextVersionID
  · subst hv
    simp [allocateVersion, newVersion]
  · simp [allocateVersion, hv]

lemma StateMachine.eq_some_of_allocateVersion
    (hm : (sm.allocateVersion now kbID parent clientRequestID).versions v = some m) :
    (v = sm.nextVersionID ∧ m = newVersion now sm.nextVersionID kbID parent) ∨
      sm.versions v = some m := by
  rw [allocateVersion_versions] at hm
  by_cases hv : v = sm.nextVersionID
  · rw [if_pos hv, some.injEq] at hm
    exact .inl ⟨hv, hm.symm⟩
  · rw [if_neg hv] at hm
    exact .inr hm

lemma StateMachine.mem_allocateVersion_list {kb : String} :
    v ∈ (sm.allocateVersion now kbID parent clientRequestID).versionsByKB kb ↔
      v ∈ sm.versionsByKB kb ∨ (kb = kbID ∧ v = sm.nextVersionID) := by
  by_cases hkb : kb = kbID
  · subst hkb
    simp [allocateVersion]
  · simp [allocateVersion, hkb]

lemma listed_before (hv : v ∈ (sm.apply now cmd).1.versionsByKB kbID) :
    v ∈ sm.versionsByKB kbID ∨ v = sm.nextVersionID ∧ ∃ parent clientRequestID,
      cmd = .createVersion kbID parent clientRequestID ∧
        sm.requestedVersion kbID clientRequestID = none ∧ sm.parentRefused kbID parent = none := by
  cases Change.apply sm now cmd with
  | steady hsteady =>
    rw [hsteady.lists] at hv
    exact .inl hv
  | allocated now' kb parent key hcmd hkb hnew hparent heq =>
    rw [heq] at hv
    obtain hbefore | ⟨rfl, rfl⟩ := mem_allocateVersion_list.mp hv
    · exact .inl hbefore
    · exact .inr ⟨rfl, parent, key, hcmd, hnew, hparent⟩
  | marked kb u mode kbMeta root targets hcmd hkb hroot hown htargets hrefused hsurvivors heq =>
    obtain ⟨versions, hsame⟩ := sm.marked_eq kb u root mode targets
    rw [heq, hsame] at hv
    exact .inl hv
  | removed u m hm hcmd hversions hlists =>
    rw [hlists] at hv
    by_cases hkb : kbID = m.kbID
    · rw [hkb, update_self] at hv
      rw [hkb]
      exact .inl (mem_of_mem_erase hv)
    · rw [update_of_ne hkb] at hv
      exact .inl hv
  | removedKB kb hcmd hversions hlists =>
    rw [hlists] at hv
    by_cases hkb : kbID = kb
    · rw [hkb, update_self] at hv
      cases hv
    · rw [update_of_ne hkb] at hv
      exact .inl hv

namespace KeptAll

variable {sm sm' : StateMachine}

lemma rel_refl (m : Option VersionMeta) : Option.Rel Kept m m := by
  cases m with
  | none => exact .none
  | some m => exact .some (Kept.refl m)

lemma of_same (hversions : sm'.versions = sm.versions) (hlists : sm'.versionsByKB = sm.versionsByKB)
    (hnext : sm'.nextVersionID = sm.nextVersionID) : KeptAll sm sm' :=
  ⟨fun v => by rw [hversions]; exact rel_refl _, hlists, hnext⟩

lemma exists_of_some (h : KeptAll sm sm') (hm : sm.versions v = some m) :
    ∃ m', sm'.versions v = some m' ∧ Kept m m' := by
  have hrel := h.versions v
  rw [hm] at hrel
  cases hm' : sm'.versions v with
  | none =>
    rw [hm'] at hrel
    cases hrel
  | some m' =>
    rw [hm'] at hrel
    cases hrel with
    | some hrel => exact ⟨m', rfl, hrel⟩

lemma exists_before (h : KeptAll sm sm') (hm' : sm'.versions v = some m') :
    ∃ m, sm.versions v = some m ∧ Kept m m' := by
  have hrel := h.versions v
  rw [hm'] at hrel
  cases hm : sm.versions v with
  | none =>
    rw [hm] at hrel
    cases hrel
  | some m =>
    rw [hm] at hrel
    cases hrel with
    | some hrel => exact ⟨m, rfl, hrel⟩

lemma spliceParent_le (sm : StateMachine) (kbID : String) (parent : Nat) :
    sm.spliceParent kbID parent ≤ parent := by
  unfold spliceParent
  split
  · exact Nat.zero_le _
  split
  · exact Nat.zero_le _
  split
  · exact Nat.zero_le _
  · exact Nat.le_refl _

variable (hwf : WellFormed sm) (hroot : sm.versions v = some root)

include hwf hroot

lemma newParent_le (mode : VersionDeleteMode) {x : Nat} (hm : sm.versions x = some m) :
    sm.newParent kbID v root mode x m ≤ m.parentVersionID := by
  unfold newParent
  split
  · split
    · next hchild =>
      obtain ⟨-, -, m', hm', hparent⟩ := mem_childrenOf.mp hchild
      rw [hm, some.injEq] at hm'
      have hup := hwf.parent_lt hroot
      have hsplice := spliceParent_le sm kbID root.parentVersionID
      rw [hm']
      omega
    · exact Nat.le_refl _
  · split
    · exact Nat.zero_le _
    · exact Nat.le_refl _
  · exact Nat.le_refl _

lemma marked (htargets : sm.versionDeleteTargets kbID v mode = .ok targets) :
    KeptAll sm ((sm.rewire kbID v root mode).markDeleting targets) := by
  obtain ⟨versions, heq⟩ := marked_eq sm kbID v root mode targets
  refine ⟨fun x => ?_, by rw [heq], by rw [heq]⟩
  rw [marked_versions hroot htargets]
  cases hm : sm.versions x with
  | none => exact .none
  | some m => exact .some ⟨rfl, rfl, newParent_le hwf hroot mode hm, fun hdel => by simp [hdel]⟩

end KeptAll

lemma Steady.kept (h : Steady m m') : Kept m m' :=
  ⟨h.versionID, h.kbID, Nat.le_of_eq h.parentVersionID, fun hdel => h.deleting.trans hdel⟩

lemma SteadyAll.kept {sm' : StateMachine} (h : SteadyAll sm sm') : KeptAll sm sm' := by
  refine ⟨?_, h.lists, h.next⟩
  intro v
  cases hm : sm.versions v with
  | none =>
    cases hm' : sm'.versions v with
    | none => exact .none
    | some m' =>
      obtain ⟨m, hm'', -⟩ := h.before hm'
      rw [hm] at hm''
      cases hm''
  | some m =>
    obtain ⟨m', hm', hsteady⟩ := h.after hm
    rw [hm']
    exact .some hsteady.kept

namespace WellFormed

variable {sm : StateMachine}

lemma le_of_mem_subtree (hwf : WellFormed sm) {rootID : Nat}
    (hid : id ∈ sm.collectVersionSubtree kbID rootID) : rootID ≤ id := by
  refine collectVersionSubtree_forall (P := fun id => rootID ≤ id) (Nat.le_refl _) ?_ id hid
  intro id hle child hchild
  obtain ⟨-, -, m, hm, hparent⟩ := mem_childrenOf.mp hchild
  have hlt := hwf.parent_lt hm
  omega

lemma target_kbID (hwf : WellFormed sm) {versionID : Nat}
    (hroot : sm.versions versionID = some root) (hown : root.kbID = kbID)
    (htargets : sm.versionDeleteTargets kbID versionID mode = .ok targets) (hid : id ∈ targets)
    (hm : sm.versions id = some m) : m.kbID = kbID := by
  have hsubtree : ∀ rootID, (∀ n, sm.versions rootID = some n → n.kbID = kbID) →
      ∀ id ∈ sm.collectVersionSubtree kbID rootID, ∀ n, sm.versions id = some n → n.kbID = kbID := by
    intro rootID hrootkb
    refine collectVersionSubtree_forall hrootkb ?_
    intro id _ child hchild n hn
    obtain ⟨n', hn', hkb⟩ := hwf.present (mem_childrenOf.mp hchild).1
    rw [hn, some.injEq] at hn'
    exact hn' ▸ hkb
  have hself : ∀ n, sm.versions versionID = some n → n.kbID = kbID := by
    intro n hn
    rw [hroot, some.injEq] at hn
    exact hn ▸ hown
  cases mode with
  | subtree =>
    cases htargets
    exact hsubtree versionID hself id hid m hm
  | single =>
    cases htargets
    rw [mem_singleton.mp hid] at hm
    exact hself m hm
  | ancestors =>
    obtain ⟨⟨a, ha, hid⟩, -⟩ := (mem_versionDeleteTargets_ancestors htargets).mp hid
    obtain ⟨p, hp, hpkb⟩ := collectVersionAncestors_present a ha
    refine hsubtree a ?_ id hid m hm
    intro n hn
    rw [hp, some.injEq] at hn
    exact hn ▸ hpkb
  | other code => cases htargets

/-- A version that stays, and that the admission check would have refused to strand, keeps its
parent. -/
lemma survivor_kept (hwf : WellFormed sm) {u : Nat} (hroot : sm.versions u = some root)
    (hown : root.kbID = kbID) (htargets : sm.versionDeleteTargets kbID u mode = .ok targets)
    (hsurvivors : sm.validateSurvivorsNotPending kbID targets = none) (hm : sm.versions v = some m)
    (hout : v ∉ targets)
    (hblocked : m.parentVersionID ∈ targets → deleteBlockedByPending m = true)
    (hparent : m.parentVersionID ≠ 0 → ∃ p, sm.versions m.parentVersionID = some p ∧ p.kbID =
      m.kbID) :
    m.parentVersionID ∉ targets ∧ sm.newParent kbID u root mode v m = m.parentVersionID := by
  have hversion : sm.version v = m := by simp [version, hm]
  have hsafe : v ∈ sm.versionsByKB kbID → m.parentVersionID ∉ targets := by
    intro hlisted hin
    -- no survivor of a removed parent counts as still being written
    have hnone := findSome?_eq_none_iff.mp hsurvivors v hlisted
    simp [hversion, hout, hin, hblocked hin] at hnone
  have hstays : m.parentVersionID ∉ targets := by
    intro hin
    by_cases hne : m.parentVersionID = 0
    · rw [hne] at hin
      obtain ⟨z, hz⟩ := versionDeleteTargets_present hroot htargets 0 hin
      exact Nat.lt_irrefl 0 (hwf.pos hz)
    · obtain ⟨p, hp, hpkb⟩ := hparent hne
      have hkb := hwf.target_kbID hroot hown htargets hin hp
      exact hsafe (hkb ▸ hpkb ▸ hwf.listed hm) hin
  refine ⟨hstays, ?_⟩
  cases mode with
  | subtree | other => rfl
  | single =>
    cases htargets
    refine if_neg fun hchild => hstays ?_
    obtain ⟨-, -, m', hm', hparent⟩ := mem_childrenOf.mp hchild
    rw [hm, some.injEq] at hm'
    exact mem_singleton.mpr (hm' ▸ hparent)
  | ancestors =>
    simp only [newParent]
    split
    · next hv =>
      -- The parent of an `ANCESTORS` target is one of the versions removed.
      subst hv hown
      rw [hroot, some.injEq] at hm
      subst hm
      by_contra hne
      obtain ⟨p, hp, hpkb⟩ := hparent (Ne.symm hne)
      have hlt := hwf.parent_lt hroot
      refine hstays ((mem_versionDeleteTargets_ancestors htargets).mpr ⟨⟨_, ?_,
        root_mem_collectVersionSubtree _⟩, fun hin => ?_⟩)
      · exact parent_mem_collectVersionAncestors hroot (Ne.symm hne) (Nat.ne_of_lt hlt) hp hpkb
      · have hle := hwf.le_of_mem_subtree hin
        omega
    · rfl

end WellFormed

lemma Effect.apply (hwf : WellFormed sm) (now : Int) (cmd : Command) :
    Effect sm (sm.apply now cmd).1 := by
  cases Change.apply sm now cmd with
  | steady hsteady => exact .kept hsteady.kept
  | allocated now' kbID parent clientRequestID _ _ _ hparent heq =>
    exact .allocated now' kbID parent clientRequestID hparent heq
  | marked kbID v mode kb root targets _ _ hroot _ htargets _ _ heq =>
    rw [heq]
    exact .kept (.marked hwf hroot htargets)
  | removed v m hm _ hversions hlists hnext => exact .removed v m hm hversions hlists hnext
  | removedKB kbID _ hversions hlists hnext => exact .removedKB kbID hversions hlists hnext

namespace WellFormed

variable {sm sm' : StateMachine} (hwf : WellFormed sm)

include hwf

lemma kept (h : KeptAll sm sm') : WellFormed sm' where
  next_pos := by
    rw [h.next]
    exact hwf.next_pos
  id_eq hm' := by
    obtain ⟨m, hm, hkept⟩ := h.exists_before hm'
    rw [hkept.versionID]
    exact hwf.id_eq hm
  pos hm' := by
    obtain ⟨m, hm, -⟩ := h.exists_before hm'
    exact hwf.pos hm
  lt_next hm' := by
    obtain ⟨m, hm, -⟩ := h.exists_before hm'
    rw [h.next]
    exact hwf.lt_next hm
  parent_lt hm' := by
    obtain ⟨m, hm, hkept⟩ := h.exists_before hm'
    exact Nat.lt_of_le_of_lt hkept.parent (hwf.parent_lt hm)
  listed hm' := by
    obtain ⟨m, hm, hkept⟩ := h.exists_before hm'
    rw [h.lists, hkept.kbID]
    exact hwf.listed hm
  present hv := by
    rw [h.lists] at hv
    obtain ⟨m, hm, hkb⟩ := hwf.present hv
    obtain ⟨m', hm', hkept⟩ := h.exists_of_some hm
    exact ⟨m', hm', hkept.kbID.trans hkb⟩
  nodup kbID := by
    rw [h.lists]
    exact hwf.nodup kbID

lemma allocated (clientRequestID : String) (hparent : sm.parentRefused kbID parent = none) :
    WellFormed (sm.allocateVersion now kbID parent clientRequestID) := by
  have hfresh : sm.versions sm.nextVersionID = none := by
    by_contra hsome
    obtain ⟨m, hm⟩ := ne_none_iff_exists'.mp hsome
    exact Nat.lt_irrefl _ (hwf.lt_next hm)
  have hlt : parent < sm.nextVersionID := by
    by_cases hzero : parent = 0
    · rw [hzero]
      exact hwf.next_pos
    · obtain ⟨m, hm, -⟩ := parentRefused_none hparent hzero
      exact hwf.lt_next hm
  refine ⟨Nat.succ_pos _, ?_, ?_, ?_, ?_, ?_, ?_, ?_⟩
  · intro v m hm
    obtain ⟨rfl, rfl⟩ | hm := eq_some_of_allocateVersion hm
    · rfl
    · exact hwf.id_eq hm
  · intro v m hm
    obtain ⟨rfl, rfl⟩ | hm := eq_some_of_allocateVersion hm
    · exact hwf.next_pos
    · exact hwf.pos hm
  · intro v m hm
    obtain ⟨rfl, rfl⟩ | hm := eq_some_of_allocateVersion hm
    · exact Nat.lt_succ_self _
    · exact Nat.lt_succ_of_lt (hwf.lt_next hm)
  · intro v m hm
    obtain ⟨rfl, rfl⟩ | hm := eq_some_of_allocateVersion hm
    · exact hlt
    · exact hwf.parent_lt hm
  · intro v m hm
    rw [mem_allocateVersion_list]
    obtain ⟨rfl, rfl⟩ | hm := eq_some_of_allocateVersion hm
    · exact .inr ⟨rfl, rfl⟩
    · exact .inl (hwf.listed hm)
  · intro kb v hv
    rw [allocateVersion_versions]
    obtain hv | ⟨rfl, rfl⟩ := mem_allocateVersion_list.mp hv
    · obtain ⟨m, hm, hkb⟩ := hwf.present hv
      rw [if_neg (Nat.ne_of_lt (hwf.lt_next hm))]
      exact ⟨m, hm, hkb⟩
    · rw [if_pos rfl]
      exact ⟨_, rfl, rfl⟩
  intro kb
  by_cases hkb : kb = kbID
  · subst hkb
    simp only [allocateVersion, update_self]
    refine nodup_append.mpr ⟨hwf.nodup kb, by simp, ?_⟩
    intro v hv w hw heq
    rw [mem_singleton.mp hw] at heq
    obtain ⟨m, hm, -⟩ := hwf.present hv
    rw [heq, hfresh] at hm
    cases hm
  · simp only [allocateVersion, update_of_ne hkb]
    exact hwf.nodup kb

lemma removed (hm : sm.versions v = some m) (hversions : sm'.versions = update sm.versions v none)
    (hlists : sm'.versionsByKB = update sm.versionsByKB m.kbID ((sm.versionsByKB m.kbID).erase v))
    (hnext : sm'.nextVersionID = sm.nextVersionID) : WellFormed sm' := by
  have hold : ∀ {w n}, sm'.versions w = some n → w ≠ v ∧ sm.versions w = some n :=
    eq_some_of_removed hversions
  have hlist : ∀ {kb w}, w ∈ sm'.versionsByKB kb ↔ w ∈ sm.versionsByKB kb ∧ w ≠ v := by
    intro kb w
    rw [hlists]
    by_cases hkb : kb = m.kbID
    · rw [hkb, update_self, (hwf.nodup m.kbID).mem_erase_iff, and_comm]
    rw [update_of_ne hkb]
    refine ⟨fun hw => ⟨hw, ?_⟩, fun hw => hw.1⟩
    rintro rfl
    obtain ⟨n, hn, hnkb⟩ := hwf.present hw
    rw [hm, some.injEq] at hn
    exact hkb (hnkb.symm.trans (congrArg _ hn.symm))
  refine ⟨hnext ▸ hwf.next_pos, fun hn => hwf.id_eq (hold hn).2, fun hn => hwf.pos (hold hn).2,
    fun hn => hnext ▸ hwf.lt_next (hold hn).2, fun hn => hwf.parent_lt (hold hn).2, ?_, ?_, ?_⟩
  · intro w n hn
    exact hlist.mpr ⟨hwf.listed (hold hn).2, (hold hn).1⟩
  · intro kb w hw
    obtain ⟨hw, hne⟩ := hlist.mp hw
    obtain ⟨n, hn, hkb⟩ := hwf.present hw
    exact ⟨n, by rw [hversions, update_of_ne hne, hn], hkb⟩
  intro kb
  rw [hlists]
  by_cases hkb : kb = m.kbID
  · rw [hkb, update_self]
    exact (hwf.nodup _).erase v
  · rw [update_of_ne hkb]
    exact hwf.nodup kb

lemma removedKB
    (hversions : sm'.versions = fun v => if v ∈ sm.versionsByKB kbID then none else sm.versions v)
    (hlists : sm'.versionsByKB = update sm.versionsByKB kbID [])
    (hnext : sm'.nextVersionID = sm.nextVersionID) : WellFormed sm' := by
  have hold : ∀ {w n}, sm'.versions w = some n →
      w ∉ sm.versionsByKB kbID ∧ sm.versions w = some n :=
    eq_some_of_removedKB hversions
  have hlist : ∀ {kb w}, w ∈ sm'.versionsByKB kb ↔ w ∈ sm.versionsByKB kb ∧ kb ≠ kbID := by
    intro kb w
    rw [hlists]
    by_cases hkb : kb = kbID
    all_goals simp [hkb]
  refine ⟨hnext ▸ hwf.next_pos, fun hn => hwf.id_eq (hold hn).2, fun hn => hwf.pos (hold hn).2,
    fun hn => hnext ▸ hwf.lt_next (hold hn).2, fun hn => hwf.parent_lt (hold hn).2, ?_, ?_, ?_⟩
  · intro w n hn
    obtain ⟨hout, hn⟩ := hold hn
    refine hlist.mpr ⟨hwf.listed hn, ?_⟩
    rintro hkb
    exact hout (hkb ▸ hwf.listed hn)
  · intro kb w hw
    obtain ⟨hw, hne⟩ := hlist.mp hw
    obtain ⟨n, hn, hkb⟩ := hwf.present hw
    refine ⟨n, ?_, hkb⟩
    rw [hversions]
    dsimp only
    rw [if_neg, hn]
    intro hin
    obtain ⟨n', hn', hkb'⟩ := hwf.present hin
    rw [hn, some.injEq] at hn'
    exact hne (hkb.symm.trans ((congrArg _ hn').trans hkb'))
  · intro kb
    rw [hlists]
    by_cases hkb : kb = kbID
    · rw [hkb, update_self]
      exact nodup_nil
    · rw [update_of_ne hkb]
      exact hwf.nodup kb

lemma apply (now : Int) (cmd : Command) : WellFormed (sm.apply now cmd).1 := by
  cases Effect.apply hwf now cmd with
  | kept hkept => exact hwf.kept hkept
  | allocated now' kbID parent clientRequestID hparent heq =>
    rw [heq]
    exact hwf.allocated clientRequestID hparent
  | removed v m hm hversions hlists hnext => exact hwf.removed hm hversions hlists hnext
  | removedKB kbID hversions hlists hnext => exact hwf.removedKB hversions hlists hnext

end WellFormed

lemma present_before (hwf : WellFormed sm) (hm' : (sm.apply now cmd).1.versions v = some m') :
    v = sm.nextVersionID ∨ ∃ m, sm.versions v = some m ∧ Kept m m' := by
  cases Effect.apply hwf now cmd with
  | kept hkept => exact .inr (hkept.exists_before hm')
  | allocated now' kb parent key hparent heq =>
    rw [heq] at hm'
    obtain ⟨hv, -⟩ | hm := eq_some_of_allocateVersion hm'
    · exact .inl hv
    · exact .inr ⟨m', hm, .refl m'⟩
  | removed u n hn hversions => exact .inr ⟨m', (eq_some_of_removed hversions hm').2, .refl m'⟩
  | removedKB kb hversions => exact .inr ⟨m', (eq_some_of_removedKB hversions hm').2, .refl m'⟩

lemma live_before (hwf : WellFormed sm) (hm : (sm.apply now cmd).1.versions v = some m)
    (hdeleting : m.deleting = false) :
    v = sm.nextVersionID ∨ ∃ m', sm.versions v = some m' ∧ m'.kbID = m.kbID ∧ m'.deleting = false := by
  obtain hv | ⟨m', hm', hone⟩ := present_before hwf hm
  · exact .inl hv
  refine .inr ⟨m', hm', hone.kbID.symm, ?_⟩
  cases hdel : m'.deleting with
  | false => rfl
  | true => rw [hone.deleting hdel] at hdeleting; cases hdeleting

lemma next_le_apply (hwf : WellFormed sm) (now : Int) (cmd : Command) :
    sm.nextVersionID ≤ (sm.apply now cmd).1.nextVersionID := by
  cases Effect.apply hwf now cmd with
  | kept hkept => exact Nat.le_of_eq hkept.next.symm
  | allocated now' kb parent key hparent heq =>
    rw [heq]
    exact Nat.le_succ _
  | removed u n hn hversions hlists hnext => exact Nat.le_of_eq hnext.symm
  | removedKB kb hversions hlists hnext => exact Nat.le_of_eq hnext.symm

/-- The versions of a knowledge base are listed in the order of their ids. -/
def Ascending (sm : StateMachine) : Prop :=
  ∀ kbID, (sm.versionsByKB kbID).Pairwise (· < ·)

lemma ascending_newStateMachine :
    Ascending (newStateMachine limit epoch) := fun _ => List.Pairwise.nil

lemma Ascending.apply (hasc : Ascending sm) (hwf : WellFormed sm) (now : Int) (cmd : Command) :
    Ascending (sm.apply now cmd).1 := by
  intro kb
  cases Effect.apply hwf now cmd with
  | kept hkept =>
    rw [hkept.lists]
    exact hasc kb
  | allocated now' kbID parent clientRequestID hparent heq =>
    rw [heq]
    by_cases hkb : kb = kbID
    · subst hkb
      simp only [allocateVersion, update_self]
      refine pairwise_append.mpr ⟨hasc kb, pairwise_singleton _ _, ?_⟩
      intro v hv w hw
      obtain ⟨m, hm, -⟩ := hwf.present hv
      rw [mem_singleton.mp hw]
      exact hwf.lt_next hm
    · simp only [allocateVersion, update_of_ne hkb]
      exact hasc kb
  | removed v m hm hversions hlists hnext =>
    rw [hlists]
    by_cases hkb : kb = m.kbID
    · rw [hkb, update_self]
      exact (hasc m.kbID).sublist erase_sublist
    · rw [update_of_ne hkb]
      exact hasc kb
  | removedKB kbID hversions hlists hnext =>
    rw [hlists]
    by_cases hkb : kb = kbID
    · rw [hkb, update_self]
      exact List.Pairwise.nil
    · rw [update_of_ne hkb]
      exact hasc kb

end stratum.metadata
