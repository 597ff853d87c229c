import Stratum.Metadata.Applied
import Stratum.Metadata.Targets

namespace stratum.metadata

open Function

variable {m' root : VersionMeta} {v versionID : Nat} {mode : VersionDeleteMode} {targets : List Nat}
  {f f' : Nat → Option VersionMeta}

namespace StateMachine

/-- Updating a list of versions by an idempotent function, one after the other, updates each
of them once. -/
lemma foldl_setVersion (f : VersionMeta → VersionMeta) (hf : ∀ m, f (f m) = f m)
    (ids : List Nat) (sm : StateMachine) :
    ids.foldl (fun sm id => sm.setVersion id (f (sm.version id))) sm =
      { sm with
        versions := fun v => if v ∈ ids then some (f (sm.version v)) else sm.versions v } := by
  induction ids generalizing sm with
  | nil => simp
  | cons id ids ih =>
  rw [List.foldl_cons, ih]
  have hversions : ∀ v, (if v ∈ ids then some (f ((sm.setVersion id (f (sm.version id))).version v))
      else (sm.setVersion id (f (sm.version id))).versions v) =
      if v ∈ id :: ids then some (f (sm.version v)) else sm.versions v := by
    intro v
    by_cases hv : v = id
    · subst hv
      simp [setVersion, version, hf]
    · simp [setVersion, version, hv]
  simp only [hversions]
  rfl

lemma markDeleting_eq (sm : StateMachine) (targets : List Nat) : sm.markDeleting targets =
      { sm with
        versions := fun v =>
          if v ∈ targets then some { sm.version v with deleting := true } else sm.versions v } :=
  foldl_setVersion (fun m => { m with deleting := true }) (fun _ => rfl) targets sm

lemma reparentChildren_eq (sm : StateMachine) (kbID : String) (fromVersionID newParent : Nat) :
    sm.reparentChildren kbID fromVersionID newParent =
      { sm with
        versions := fun v =>
          if v ∈ sm.childrenOf kbID fromVersionID then
            some { sm.version v with parentVersionID := newParent }
          else sm.versions v } :=
  foldl_setVersion (fun m => { m with parentVersionID := newParent }) (fun _ => rfl) _ sm

lemma rewire_eq (sm : StateMachine) (kbID : String) (versionID : Nat) (root : VersionMeta)
    (mode : VersionDeleteMode) :
    ∃ versions, sm.rewire kbID versionID root mode = { sm with versions } := by
  cases mode with
  | single => exact ⟨_, reparentChildren_eq sm kbID versionID _⟩
  | ancestors =>
    unfold rewire
    dsimp only
    split
    · exact ⟨_, rfl⟩
    · exact ⟨sm.versions, rfl⟩
  | subtree | other => exact ⟨sm.versions, rfl⟩

lemma marked_eq (sm : StateMachine) (kbID : String) (versionID : Nat) (root : VersionMeta)
    (mode : VersionDeleteMode) (targets : List Nat) :
    ∃ versions, (sm.rewire kbID versionID root mode).markDeleting targets =
      { sm with versions } := by
  obtain ⟨versions, heq⟩ := rewire_eq sm kbID versionID root mode
  rw [heq, markDeleting_eq]
  exact ⟨_, rfl⟩

/-- The parent a version has after the rewiring of a deletion. -/
def newParent (sm : StateMachine) (kbID : String) (versionID : Nat) (root : VersionMeta)
    (mode : VersionDeleteMode) (v : Nat) (m : VersionMeta) : Nat :=
  match mode with
  | .single =>
    if v ∈ sm.childrenOf kbID versionID then sm.spliceParent kbID root.parentVersionID
    else m.parentVersionID
  | .ancestors => if v = versionID then 0 else m.parentVersionID
  | _ => m.parentVersionID

variable {sm : StateMachine} {kbID : String} (hroot : sm.versions versionID = some root)

include hroot

lemma rewire_versions (mode : VersionDeleteMode) (v : Nat) :
    (sm.rewire kbID versionID root mode).versions v = (sm.versions v).map fun m =>
      { m with parentVersionID := sm.newParent kbID versionID root mode v m } := by
  cases mode with
  | subtree | other => simp [rewire, newParent]
  | single =>
    rw [rewire, reparentChildren_eq]
    by_cases hchild : v ∈ sm.childrenOf kbID versionID
    · obtain ⟨-, -, m, hm, -⟩ := mem_childrenOf.mp hchild
      simp [hchild, newParent, version, hm]
    · simp [hchild, newParent]
  | ancestors =>
    unfold rewire
    dsimp only
    by_cases hv : v = versionID
    · subst hv
      rw [hroot]
      by_cases hparent : root.parentVersionID = 0
      · rw [if_neg (not_not.mpr hparent), hroot]
        simp [newParent, ← hparent]
      · rw [if_pos hparent]
        simp [newParent, setVersion]
    · split
      · simp [newParent, setVersion, hv]
      · simp [newParent, hv]

variable (htargets : sm.versionDeleteTargets kbID versionID mode = .ok targets)

include htargets

lemma marked_versions (v : Nat) :
    ((sm.rewire kbID versionID root mode).markDeleting targets).versions v =
      (sm.versions v).map fun m => { m with
        parentVersionID := sm.newParent kbID versionID root mode v m
        deleting := m.deleting || decide (v ∈ targets) } := by
  rw [markDeleting_eq]
  by_cases hv : v ∈ targets
  · obtain ⟨m, hm⟩ := versionDeleteTargets_present hroot htargets v hv
    simp [hv, version, rewire_versions hroot, hm]
  · simp [hv, rewire_versions hroot]

lemma marked_eq_some
    (hm' : ((sm.rewire kbID versionID root mode).markDeleting targets).versions v = some m') :
    ∃ m, sm.versions v = some m ∧ m'.kbID = m.kbID ∧ m'.dataStatus = m.dataStatus ∧
      m'.parentVersionID = sm.newParent kbID versionID root mode v m ∧
      (m'.deleting = false ↔ m.deleting = false ∧ v ∉ targets) := by
  rw [marked_versions hroot htargets, Option.map_eq_some_iff] at hm'
  obtain ⟨m, hm, rfl⟩ := hm'
  exact ⟨m, hm, rfl, rfl, rfl, by simp⟩

end StateMachine

/-- What the commands that only report on a version may do to its metadata: its place in the
chain stays, and durable data stays durable. -/
structure Steady (m m' : VersionMeta) : Prop where
  versionID : m'.versionID = m.versionID
  kbID : m'.kbID = m.kbID
  parentVersionID : m'.parentVersionID = m.parentVersionID
  deleting : m'.deleting = m.deleting
  durable : m.dataStatus = .durable → m'.dataStatus = .durable

/-- No version comes or goes or moves, no request is forgotten, no knowledge base is lost. -/
structure SteadyAll (sm sm' : StateMachine) : Prop where
  after : ∀ {v m}, sm.versions v = some m → ∃ m', sm'.versions v = some m' ∧ Steady m m'
  before : ∀ {v m'}, sm'.versions v = some m' → ∃ m, sm.versions v = some m ∧ Steady m m'
  lists : sm'.versionsByKB = sm.versionsByKB
  next : sm'.nextVersionID = sm.nextVersionID
  requests : sm'.versionsByRequest = sm.versionsByRequest
  kbs : ∀ {kbID}, (sm.kbs kbID).isSome → (sm'.kbs kbID).isSome

/-- What one command does to the versions and the requests they answer. -/
inductive Change (sm : StateMachine) (cmd : Command) (sm' : StateMachine) : Prop
  | steady (hsteady : SteadyAll sm sm')
  | allocated (now : Int) (kbID : String) (parent : Nat) (clientRequestID : String)
      (hcmd : cmd = .createVersion kbID parent clientRequestID) (hkb : (sm.kbs kbID).isSome)
      (hnew : sm.requestedVersion kbID clientRequestID = none)
      (hparent : sm.parentRefused kbID parent = none)
      (heq : sm' = sm.allocateVersion now kbID parent clientRequestID)
  | marked (kbID : String) (versionID : Nat) (mode : VersionDeleteMode) (kb : KnowledgeBaseMeta)
      (root : VersionMeta) (targets : List Nat)
      (hcmd : cmd = .markVersionDeleting kbID versionID mode) (hkb : sm.kbs kbID = some kb)
      (hroot : sm.versions versionID = some root) (hown : root.kbID = kbID)
      (htargets : sm.versionDeleteTargets kbID versionID mode = .ok targets)
      (hrefused : targets.findSome? (sm.targetRefused kb kbID) = none)
      (hsurvivors : sm.validateSurvivorsNotPending kbID targets = none)
      (heq : sm' = (sm.rewire kbID versionID root mode).markDeleting targets)
  | removed (v : Nat) (m : VersionMeta) (hm : sm.versions v = some m)
      (hcmd : cmd = .removeVersionMeta m.kbID v ∨ cmd = .discardVersion m.kbID v ∧
        ∀ id ∈ sm.versionsByKB m.kbID, ∀ c, sm.versions id = some c → c.parentVersionID ≠ v)
      (hversions : sm'.versions = update sm.versions v none)
      (hlists : sm'.versionsByKB = update sm.versionsByKB m.kbID ((sm.versionsByKB m.kbID).erase v))
      (hnext : sm'.nextVersionID = sm.nextVersionID)
      (hrequests : sm'.versionsByRequest = (sm.dropRequestMappings m.kbID v).versionsByRequest)
      (hkbs : sm'.kbs = sm.kbs)
  | removedKB (kbID : String) (hcmd : cmd = .removeKBMeta kbID)
      (hversions : sm'.versions = fun v => if v ∈ sm.versionsByKB kbID then none else sm.versions v)
      (hlists : sm'.versionsByKB = update sm.versionsByKB kbID [])
      (hnext : sm'.nextVersionID = sm.nextVersionID)
      (hrequests : sm'.versionsByRequest = (sm.dropRequestMappings kbID 0).versionsByRequest)
      (hkbs : sm'.kbs = update sm.kbs kbID none)

lemma eq_some_of_removed {w : Nat} {n : VersionMeta} (hremoved : f' = update f v none)
    (hn : f' w = some n) : w ≠ v ∧ f w = some n := by
  rw [hremoved] at hn
  by_cases hw : w = v
  · rw [hw, update_self] at hn
    cases hn
  · rw [update_of_ne hw] at hn
    exact ⟨hw, hn⟩

lemma eq_some_of_removedKB {list : List Nat} {w : Nat} {n : VersionMeta}
    (hremoved : f' = fun v => if v ∈ list then none else f v) (hn : f' w = some n) :
    w ∉ list ∧ f w = some n := by
  rw [hremoved] at hn
  by_cases hw : w ∈ list
  · simp [hw] at hn
  · exact ⟨hw, by simpa [hw] using hn⟩

lemma Steady.refl (m : VersionMeta) : Steady m m := ⟨rfl, rfl, rfl, rfl, id⟩

namespace SteadyAll

variable {sm : StateMachine}

lemma refl (sm : StateMachine) : SteadyAll sm sm :=
  ⟨fun hm => ⟨_, hm, .refl _⟩, fun hm => ⟨_, hm, .refl _⟩, rfl, rfl, rfl, id⟩

lemma setKB (kbID : String) (kb : KnowledgeBaseMeta) : SteadyAll sm (sm.setKB kbID kb) := by
  refine ⟨fun hm => ⟨_, hm, .refl _⟩, fun hm => ⟨_, hm, .refl _⟩, rfl, rfl, rfl, ?_⟩
  intro kbID' hsome
  by_cases hkb : kbID' = kbID
  · simp [StateMachine.setKB, hkb]
  · simpa [StateMachine.setKB, hkb] using hsome

lemma setVersion {m : VersionMeta} (hm : sm.versions v = some m) (hsteady : Steady m m') :
    SteadyAll sm (sm.setVersion v m') := by
  refine ⟨?_, ?_, rfl, rfl, rfl, id⟩
  · intro w n hn
    by_cases hw : w = v
    · rw [hw, hm, Option.some.injEq] at hn
      exact ⟨m', by simp [StateMachine.setVersion, hw], hn ▸ hsteady⟩
    · exact ⟨n, by simpa [StateMachine.setVersion, hw] using hn, .refl n⟩
  intro w n hn
  by_cases hw : w = v
  · have heq : m' = n := by simpa [StateMachine.setVersion, hw] using hn
    exact ⟨m, hw ▸ hm, heq ▸ hsteady⟩
  · exact ⟨n, by simpa [StateMachine.setVersion, hw] using hn, .refl n⟩

end SteadyAll

lemma Revision.steady {m : VersionMeta} {cmd : Command} (hrevision : Revision v m cmd m') :
    Steady m m' := by
  cases hrevision with
  | status | indexFailed | retried => exact ⟨rfl, rfl, rfl, rfl, id⟩
  | summary | durable => exact ⟨rfl, rfl, rfl, rfl, fun _ => rfl⟩
  | dataFailed _ _ hdata => exact ⟨rfl, rfl, rfl, rfl, fun h => absurd h hdata⟩

lemma Change.apply (sm : StateMachine) (now : Int) (cmd : Command) :
    Change sm cmd (sm.apply now cmd).1 := by
  have happlied := Applied.apply sm now cmd
  generalize sm.apply now cmd = result at happlied ⊢
  cases happlied with
  | refused | unchanged => exact .steady (.refl sm)
  | createKB kb => exact .steady (.setKB kb.kbID _)
  | setKBStatus cmd kbID kb status => exact .steady (.setKB kbID _)
  | removeKBMeta kbID => exact .removedKB kbID rfl rfl rfl rfl rfl rfl
  | createVersion kbID parent clientRequestID hkb hnew hparent =>
    exact .allocated now kbID parent clientRequestID rfl hkb hnew hparent rfl
  | revised cmd v m m' hm hrevision => exact .steady (.setVersion hm hrevision.steady)
  | rollback v m kb => exact .steady (.setKB m.kbID _)
  | marked v root mode kb targets hkb hroot htargets hrefused hsurvivors =>
    exact .marked root.kbID v mode kb root targets rfl hkb hroot rfl htargets hrefused hsurvivors rfl
  | removeVersionMeta v m hm => exact .removed v m hm (.inl rfl) rfl rfl rfl rfl rfl
  | discardVersion v m kb hkb hm hactive hdata hdel hchildless =>
    exact .removed v m hm (.inr ⟨rfl, hchildless⟩) rfl rfl rfl rfl rfl

/-- The commands that only report on versions and knowledge bases. -/
def Command.Reports : Command → Prop
  | .removeKBMeta _ | .createVersion .. | .markVersionDeleting .. | .removeVersionMeta ..
  | .discardVersion .. => False
  | _ => True

lemma SteadyAll.apply (sm : StateMachine) (now : Int) {cmd : Command} (hcmd : cmd.Reports) :
    SteadyAll sm (sm.apply now cmd).1 := by
  cases Change.apply sm now cmd with
  | steady hsteady => exact hsteady
  | allocated now' kbID parent clientRequestID heq | marked kbID v mode kb root targets heq
  | removedKB kbID heq =>
    subst heq
    exact hcmd.elim
  | removed v m hm heq =>
    obtain rfl | ⟨rfl, -⟩ := heq
    all_goals exact hcmd.elim

end stratum.metadata
