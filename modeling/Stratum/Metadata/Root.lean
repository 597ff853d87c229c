import Stratum.Metadata.Linear

namespace stratum.metadata

open stratum.lib StateMachine

/-- A first version is created only where no live version is a root, and metadata is removed
only for versions already marked as being deleted. A repeated request creates nothing. -/
def RootStep (sm : StateMachine) : Int × Command → Prop
  | (_, .createVersion kbID parentVersionID clientRequestID) =>
    parentVersionID = 0 → sm.requestedVersion kbID clientRequestID = none →
      ∀ id ∈ sm.versionsByKB kbID, ∀ m ∈ sm.versions id, m.deleting = true ∨ m.parentVersionID ≠ 0
  | a => MarkedRemoval sm a

lemma RootStep.markedRemoval {sm : StateMachine} {a : Int × Command} (hok : RootStep sm a) :
    MarkedRemoval sm a := by
  obtain ⟨now, cmd⟩ := a
  cases cmd with
  | createVersion kbID parent clientRequestID => trivial
  | _ => exact hok

def SingleRoot (sm : StateMachine) : Prop :=
  ∀ v w m n, sm.versions v = some m → sm.versions w = some n → m.deleting = false →
    n.deleting = false → m.parentVersionID = 0 → n.parentVersionID = 0 → m.kbID = n.kbID → v = w

variable {kbID : String} {mode : VersionDeleteMode} {root : VersionMeta}

namespace SingleRoot

variable {sm sm' : StateMachine}

section

variable (hsingle : SingleRoot sm)

include hsingle

lemma steady (h : SteadyAll sm sm') : SingleRoot sm' := by
  intro v w m' n' hm' hn' hv hw hmroot hnroot hkb
  obtain ⟨m, hm, hone⟩ := h.before hm'
  obtain ⟨n, hn, htwo⟩ := h.before hn'
  rw [hone.kbID, htwo.kbID] at hkb
  exact hsingle v w m n hm hn (hone.deleting ▸ hv) (htwo.deleting ▸ hw)
    (hone.parentVersionID ▸ hmroot) (htwo.parentVersionID ▸ hnroot) hkb

lemma restrict (hold : ∀ {v m}, sm'.versions v = some m → sm.versions v = some m) :
    SingleRoot sm' :=
  fun v w m n hm hn => hsingle v w m n (hold hm) (hold hn)

lemma allocated (hwf : WellFormed sm) {now : Int} {parent : Nat} {clientRequestID : String}
    (hnew : sm.requestedVersion kbID clientRequestID = none)
    (hok : RootStep sm (now, .createVersion kbID parent clientRequestID)) :
    SingleRoot (sm.allocateVersion now kbID parent clientRequestID) := by
  have hfirst : ∀ {w n}, sm.versions w = some n → n.deleting = false → n.parentVersionID = 0 →
      n.kbID = kbID → parent ≠ 0 := by
    rintro w n hn hw hnroot rfl hzero
    obtain hdel | hchild := hok hzero hnew w (hwf.listed hn) n hn
    · rw [hw] at hdel
      cases hdel
    · exact hchild hnroot
  intro v w m n hm hn hv hw hmroot hnroot hkb
  obtain ⟨rfl, rfl⟩ | hm := eq_some_of_allocateVersion hm
  · obtain ⟨rfl, rfl⟩ | hn := eq_some_of_allocateVersion hn
    · rfl
    · exact absurd hmroot (hfirst hn hw hnroot hkb.symm)
  · obtain ⟨rfl, rfl⟩ | hn := eq_some_of_allocateVersion hn
    · exact absurd hnroot (hfirst hm hv hmroot hkb)
    · exact hsingle v w m n hm hn hv hw hmroot hnroot hkb

/-- The live root is above every live version of its knowledge base. -/
lemma above (hchain : Chained sm) (hanchored : Anchored sm) (hwf : WellFormed sm) {r : Nat}
    {n : VersionMeta} (hn : sm.versions r = some n) (hrdel : n.deleting = false)
    (hroot : n.parentVersionID = 0) (x : Nat) {m : VersionMeta} (hm : sm.versions x = some m)
    (hdel : m.deleting = false) (hkb : m.kbID = n.kbID) : r = x ∨ Ancestor sm r x := by
  induction x using Nat.strongRecOn generalizing m with
  | ind x ih =>
    by_cases hzero : m.parentVersionID = 0
    · exact .inl (hsingle r x n m hn hm hrdel hdel hroot hzero hkb.symm)
    obtain ⟨p, hp, -⟩ := hanchored x m hm hdel hzero
    have hlink : ParentOf sm m.parentVersionID x := ⟨⟨p, hp⟩, m, hm, rfl⟩
    obtain heq | hanc := ih _ (hwf.parent_lt hm) hp (hchain.parent_live hm hdel hp)
      ((hchain.sameKB hm hp).trans hkb)
    · exact .inr (heq ▸ .single hlink)
    · exact .inr (hanc.tail hlink)

end

/-- A live version that a deletion makes a root: its removed parent was the root, or it was
itself the target of an `ANCESTORS` deletion. -/
lemma new_root (hchain : Chained sm) (hanchored : Anchored sm) (hwf : WellFormed sm)
    {versionID : Nat} {m : VersionMeta} (hroot : sm.versions versionID = some root)
    (hown : root.kbID = kbID) {x : Nat} (hm : sm.versions x = some m) (hdel : m.deleting = false)
    (hzero : sm.newParent kbID versionID root mode x m = 0) : m.parentVersionID = 0 ∨
      (mode = .single ∧ m.parentVersionID = versionID ∧ root.deleting = false ∧
        root.parentVersionID = 0) ∨
      (mode = .ancestors ∧ x = versionID) := by
  cases mode with
  | subtree | other => exact .inl hzero
  | ancestors =>
    simp only [newParent] at hzero
    by_cases hx : x = versionID
    · exact .inr (.inr ⟨rfl, hx⟩)
    · rw [if_neg hx] at hzero
      exact .inl hzero
  | single =>
    simp only [newParent] at hzero
    by_cases hchild : x ∈ sm.childrenOf kbID versionID
    · rw [if_pos hchild] at hzero
      obtain ⟨-, c, hc, hcparent⟩ := (hchain.mem_childrenOf_iff hwf hroot hown).mp hchild
      rw [hm, Option.some.injEq] at hc
      subst hc
      have hrootdel := hchain.parent_live hm hdel (hcparent ▸ hroot)
      refine .inr (.inl ⟨rfl, hcparent, hrootdel, ?_⟩)
      by_contra hne
      obtain ⟨p, hp, -⟩ := hanchored versionID root hroot hrootdel hne
      have hpdel := hchain.parent_live hroot hrootdel hp
      have hpkb := (hchain.sameKB hroot hp).trans hown
      simp [spliceParent, hne, hp, hpkb, hpdel] at hzero
    · rw [if_neg hchild] at hzero
      exact .inl hzero

variable (hsingle : SingleRoot sm) (hchain : Chained sm) (hanchored : Anchored sm)

include hsingle hchain hanchored

lemma marked (hwf : WellFormed sm) {versionID : Nat} {targets : List Nat}
    (hroot : sm.versions versionID = some root) (hown : root.kbID = kbID)
    (htargets : sm.versionDeleteTargets kbID versionID mode = .ok targets) :
    SingleRoot ((sm.rewire kbID versionID root mode).markDeleting targets) := by
  -- Beside a version that becomes a root no old root survives in its knowledge base.
  have hbeside : ∀ {x y : Nat} {m n : VersionMeta}, sm.versions x = some m →
      sm.versions y = some n → m.deleting = false → n.deleting = false → x ∉ targets →
      y ∉ targets → m.kbID = n.kbID → n.parentVersionID = 0 → m.parentVersionID ≠ 0 →
      sm.newParent kbID versionID root mode x m = 0 → False := by
    intro x y m n hm hn hmdel hndel hxout hyout hkb hnroot hne hzero
    obtain hold | ⟨rfl, hparent, hrootdel, htop⟩ | ⟨rfl, rfl⟩ :=
      new_root hchain hanchored hwf hroot hown hm hmdel hzero
    · exact hne hold
    · cases htargets
      have hsame := hchain.sameKB hm (hparent ▸ hroot)
      have hy := hsingle y versionID n root hn hroot hndel hrootdel hnroot htop
        (hkb.symm.trans hsame.symm)
      exact hyout (List.mem_singleton.mpr hy)
    obtain heq | hanc := hsingle.above hchain hanchored hwf hn hndel hnroot x hm hmdel hkb
    · subst heq
      rw [hn, Option.some.injEq] at hm
      exact hne (hm ▸ hnroot)
    · exact hyout (hchain.ancestor_mem_targets hwf ⟨root, hroot, hown⟩ htargets hanc)
  intro v w m' n' hm' hn' hv hw hmroot hnroot hkb
  obtain ⟨m, hm, hmkb, -, hparent, hlive⟩ := marked_eq_some hroot htargets hm'
  obtain ⟨n, hn, hnkb, -, hparent', hlive'⟩ := marked_eq_some hroot htargets hn'
  obtain ⟨hmdel, hvout⟩ := hlive.mp hv
  obtain ⟨hndel, hwout⟩ := hlive'.mp hw
  rw [hparent] at hmroot
  rw [hparent'] at hnroot
  rw [hmkb, hnkb] at hkb
  by_cases hmzero : m.parentVersionID = 0
  · by_cases hnzero : n.parentVersionID = 0
    · exact hsingle v w m n hm hn hmdel hndel hmzero hnzero hkb
    · exact (hbeside hn hm hndel hmdel hwout hvout hkb.symm hmzero hnzero hnroot).elim
  by_cases hnzero : n.parentVersionID = 0
  · exact (hbeside hm hn hmdel hndel hvout hwout hkb hnzero hmzero hmroot).elim
  obtain hold | ⟨rfl, hone, -⟩ | ⟨rfl, rfl⟩ :=
    new_root hchain hanchored hwf hroot hown hm hmdel hmroot
  · exact absurd hold hmzero
  · obtain hold | ⟨-, htwo, -⟩ | ⟨hmode, -⟩ :=
      new_root hchain hanchored hwf hroot hown hn hndel hnroot
    · exact absurd hold hnzero
    · exact hchain.unique hm hn hmdel hndel (hone.trans htwo.symm) hmzero
    · cases hmode
  obtain hold | ⟨hmode, -⟩ | ⟨-, rfl⟩ :=
    new_root hchain hanchored hwf hroot hown hn hndel hnroot
  · exact absurd hold hnzero
  · cases hmode
  · rfl

lemma apply (hwf : WellFormed sm) {now : Int} {cmd : Command} (hok : RootStep sm (now, cmd)) :
    SingleRoot (sm.apply now cmd).1 := by
  cases Change.apply sm now cmd with
  | steady hsteady => exact hsingle.steady hsteady
  | allocated now' kbID parent clientRequestID hcmd _ hnew _ heq =>
    subst hcmd
    rw [heq]
    exact hsingle.allocated hwf hnew hok
  | marked kbID versionID mode kb root targets _ _ hroot hown htargets _ _ heq =>
    rw [heq]
    exact hsingle.marked hchain hanchored hwf hroot hown htargets
  | removed v m hm _ hversions =>
    exact hsingle.restrict fun hn => (eq_some_of_removed hversions hn).2
  | removedKB kbID _ hversions =>
    exact hsingle.restrict fun hn => (eq_some_of_removedKB hversions hn).2

end SingleRoot

/-- In every run that creates first versions only where no live root is and removes marked
versions only, no knowledge base ever has two versions that are not being deleted and have no
parent. -/
theorem single_root (limit : Nat) (epoch : String) {sm : StateMachine}
    (hreach : Reach step RootStep (newStateMachine limit epoch) sm) (kbID : String)
    (v w : Nat) (m n : VersionMeta) (hm : sm.versions v = some m) (hn : sm.versions w = some n)
    (hmkb : m.kbID = kbID) (hnkb : n.kbID = kbID) (hmdel : m.deleting = false)
    (hndel : n.deleting = false) (hmroot : m.parentVersionID = 0)
    (hnroot : n.parentVersionID = 0) : v = w := by
  have hinv : (WellFormed sm ∧ Chained sm ∧ Anchored sm) ∧ SingleRoot sm := by
    refine hreach.invariant
      (fun sm => (WellFormed sm ∧ Chained sm ∧ Anchored sm) ∧ SingleRoot sm) ?_ ?_
    · exact ⟨linear_of_reach .refl, fun v w m n hm => nomatch hm⟩
    rintro sm sm' ⟨now, cmd⟩ - ⟨⟨hwf, hchain, hanchored⟩, hsingle⟩ hok hstep
    cases hstep
    exact ⟨⟨hwf.apply now cmd, hchain.apply hwf now cmd,
      hanchored.apply hchain hwf now hok.markedRemoval⟩, hsingle.apply hchain hanchored hwf hok⟩
  exact hinv.2 v w m n hm hn hmdel hndel hmroot hnroot (hmkb.trans hnkb.symm)

instance (sm : StateMachine) : (a : Int × Command) → Decidable (RootStep sm a)
  | (now, cmd) => by
    induction cmd using Command.casesOn <;> dsimp only [RootStep] <;> infer_instance

/-- The second version of a chain becomes its base: the first is marked. -/
def newBaseRun : List (Int × Command) :=
  [(0, .createKB { kbID := "kb" }), (0, .createVersion "kb" 0 ""), (0, .markDataDurable 1),
    (0, .updateVersionStatus 1 .ready 0), (0, .createVersion "kb" 1 ""),
    (0, .updateVersionStatus 2 .ready 0), (0, .markVersionDeleting "kb" 2 .ancestors)]

theorem single_root_new_base : ∃ sm,
    Reach step RootStep (newStateMachine 8 "epoch") sm ∧
      ∃ m, sm.versions 2 = some m ∧ m.kbID = "kb" ∧ m.deleting = false ∧ m.parentVersionID = 0 ∧
        ∀ w n, sm.versions w = some n → n.kbID = "kb" → n.deleting = false →
          n.parentVersionID = 0 → 2 = w := by
  obtain ⟨sm, hreach, m, hm, hkb, hdel, hzero⟩ : ∃ sm,
      Reach step RootStep (newStateMachine 8 "epoch") sm ∧ ∃ m, sm.versions 2 = some m ∧
        m.kbID = "kb" ∧ m.deleting = false ∧ m.parentVersionID = 0 :=
    Reach.exists_decide newBaseRun (by decide +kernel)
  refine ⟨sm, hreach, m, hm, hkb, hdel, hzero, ?_⟩
  intro w n hn hnkb hndel hnzero
  exact single_root 8 "epoch" hreach "kb" 2 w m n hm hn hkb hnkb hdel hndel hzero hnzero

/-- Two first versions of one knowledge base are both accepted. -/
theorem two_roots : ∃ sm,
    Reach step (fun _ _ => True) (newStateMachine 8 "epoch") sm ∧
      (sm.versions 1).map (fun m => (m.kbID, m.deleting, m.parentVersionID)) =
        some ("kb", false, 0) ∧
      (sm.versions 2).map (fun m => (m.kbID, m.deleting, m.parentVersionID)) =
        some ("kb", false, 0) :=
  Reach.exists_decide [(0, .createKB { kbID := "kb" }), (0, .createVersion "kb" 0 "first"),
    (0, .createVersion "kb" 0 "second")] (by decide +kernel)

end stratum.metadata
