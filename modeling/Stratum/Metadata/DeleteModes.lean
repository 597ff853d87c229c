import Stratum.Metadata.Chained
import Stratum.Metadata.Replay

namespace stratum.metadata

open Relation StateMachine Option

def NewlyMarked (sm sm' : StateMachine) (x : Nat) : Prop := Live sm x ∧ ¬ Live sm' x

/-- What a deletion of `v` is asked to do: which versions it marks, and that the live versions
that remain are those before without the marked ones, one above the other as before. -/
structure DeletesAsAsked (sm sm' : StateMachine) (v : Nat) (mode : VersionDeleteMode) : Prop where
  marks : match mode with
    | .single => ∀ x, NewlyMarked sm sm' x ↔ x = v
    | .subtree => ∀ x, NewlyMarked sm sm' x ↔ x = v ∨ Live sm x ∧ Ancestor sm v x
    | .ancestors => ∀ x, NewlyMarked sm sm' x → Ancestor sm x v
    | .other _ => False
  remain : ∀ x, Live sm' x ↔ Live sm x ∧ ¬ NewlyMarked sm sm' x
  order : ∀ x y, Live sm' x → Live sm' y → (Ancestor sm' x y ↔ Ancestor sm x y)

lemma replayFrom_chained (clock : Nat → Int) (n : Nat) {sm : StateMachine} (hwf : WellFormed sm)
    (hchain : Chained sm) (cmds : List Command) : Chained (sm.replayFrom clock n cmds) := by
  induction cmds generalizing n sm with
  | nil => exact hchain
  | cons cmd cmds ih => exact ih (n + 1) (hwf.apply _ cmd) (hchain.apply hwf _ cmd)

lemma replay_chained (limit : Nat) (env : Env) (cmds : List Command) :
    Chained (replay limit env cmds) :=
  replayFrom_chained env.clock 0 (wellFormed_newStateMachine limit env.epoch)
    (.new limit env.epoch) cmds

variable {p x y : Nat}

section

variable {sm : StateMachine} {kbID : String} {v : Nat} {root : VersionMeta}
  {mode : VersionDeleteMode} {targets : List Nat} (hroot : sm.versions v = some root)
  (htargets : sm.versionDeleteTargets kbID v mode = .ok targets)

include hroot htargets

lemma live_marked_iff :
    Live ((sm.rewire kbID v root mode).markDeleting targets) x ↔ Live sm x ∧ x ∉ targets := by
  unfold Live
  rw [marked_versions hroot htargets]
  cases hm : sm.versions x with
  | none | some => simp

lemma newlyMarked_iff : NewlyMarked sm ((sm.rewire kbID v root mode).markDeleting targets) x ↔
      Live sm x ∧ x ∈ targets := by
  unfold NewlyMarked
  rw [live_marked_iff hroot htargets, not_and, not_not]
  exact and_congr_right fun hlive => ⟨fun hin => hin hlive, fun hin _ => hin⟩

lemma parentOf_marked_iff : ParentOf ((sm.rewire kbID v root mode).markDeleting targets) p x ↔
      (∃ n, sm.versions p = some n) ∧
        ∃ m, sm.versions x = some m ∧ sm.newParent kbID v root mode x m = p := by
  unfold ParentOf
  rw [marked_versions hroot htargets, marked_versions hroot htargets]
  cases hp : sm.versions p with
  | none => simp
  | some n =>
    cases hm : sm.versions x with
    | none | some => simp

end

namespace Chained

variable {sm : StateMachine} {kbID : String}

section

variable (hchain : Chained sm)

include hchain

lemma live_of_parentOf (hparent : ParentOf sm p x) (hx : Live sm x) : Live sm p := by
  obtain ⟨⟨n, hn⟩, m, hm, rfl⟩ := hparent
  obtain ⟨m', hm', hdel⟩ := hx
  rw [hm, some.injEq] at hm'
  subst hm'
  exact ⟨n, hn, hchain.parent_live hm hdel hn⟩

lemma live_of_ancestor {a : Nat} (hanc : Ancestor sm a x) (hx : Live sm x) : Live sm a := by
  induction hanc using TransGen.head_induction_on with
  | single hparent => exact hchain.live_of_parentOf hparent hx
  | head hparent _ ih => exact hchain.live_of_parentOf hparent ih

lemma parentOf_unique (hwf : WellFormed sm) (hx : ParentOf sm p x) (hy : ParentOf sm p y)
    (hxlive : Live sm x) (hylive : Live sm y) : x = y := by
  obtain ⟨⟨n, hn⟩, m, hm, rfl⟩ := hx
  obtain ⟨-, m', hm', heq⟩ := hy
  obtain ⟨c, hc, hcdel⟩ := hxlive
  obtain ⟨d, hd, hddel⟩ := hylive
  rw [hm, some.injEq] at hc
  rw [hm', some.injEq] at hd
  subst hc hd
  exact hchain.unique hm hm' hcdel hddel heq.symm (Nat.ne_of_gt (hwf.pos hn))

end

/-- No live version hangs off an ancestor of `v` beside the way down to `v`. -/
def NoSide (sm : StateMachine) (v : Nat) : Prop :=
  ∀ a x, Ancestor sm a v → Live sm a → ParentOf sm a x → Live sm x → x = v ∨ Ancestor sm x v

lemma noSide_of_live (hchain : Chained sm) (hwf : WellFormed sm) {v : Nat} (hv : Live sm v) :
    NoSide sm v := by
  intro a x hanc _ hparent hx
  obtain ⟨c, hchild, hpath⟩ := TransGen.head'_iff.mp hanc
  obtain heq | hdown := reflTransGen_iff_eq_or_transGen.mp hpath
  · subst heq
    exact .inl (hchain.parentOf_unique hwf hparent hchild hx hv)
  have hc := hchain.live_of_ancestor hdown hv
  rw [hchain.parentOf_unique hwf hparent hchild hx hc]
  exact .inr hdown

variable {v : Nat} {root : VersionMeta} {targets : List Nat}

section

variable (hchain : Chained sm) (hwf : WellFormed sm) (hroot : sm.versions v = some root)
  (hown : root.kbID = kbID)

include hchain hwf hroot hown

lemma spliceParent_of_live {q : Nat} (hparent : ParentOf sm q v) (hv : Live sm v) :
    sm.spliceParent kbID root.parentVersionID = q := by
  obtain ⟨⟨n, hn⟩, m, hm, rfl⟩ := hparent
  obtain ⟨m', hm', hdel⟩ := hv
  rw [hroot, some.injEq] at hm hm'
  subst hm hm'
  have hne := Nat.ne_of_gt (hwf.pos hn)
  have hkb := (hchain.sameKB hroot hn).trans hown
  simp [spliceParent, hne, hn, hkb, hchain.parent_live hroot hdel hn]

lemma ancestor_single_iff (hxv : x ≠ v) (hyv : y ≠ v) (hy : Live sm y) :
    Ancestor ((sm.rewire kbID v root .single).markDeleting [v]) x y ↔ Ancestor sm x y := by
  have hlink : ∀ {p c}, ParentOf ((sm.rewire kbID v root .single).markDeleting [v]) p c ↔
      (∃ n, sm.versions p = some n) ∧
        ∃ m, sm.versions c = some m ∧ sm.newParent kbID v root .single c m = p :=
    parentOf_marked_iff hroot rfl
  constructor
  · intro hpath
    -- A new link is an old one, or leads past the version cut out.
    have hstep : ∀ {p c}, ParentOf ((sm.rewire kbID v root .single).markDeleting [v]) p c →
        Ancestor sm p c := by
      intro p c hparent
      obtain ⟨⟨n, hn⟩, m, hm, hnew⟩ := hlink.mp hparent
      simp only [newParent] at hnew
      by_cases hchild : c ∈ sm.childrenOf kbID v
      · rw [if_pos hchild] at hnew
        obtain ⟨heq, -⟩ := spliceParent_present (hnew ▸ Nat.ne_of_gt (hwf.pos hn))
        have hup : ParentOf sm p v := ⟨⟨n, hn⟩, root, hroot, heq ▸ hnew⟩
        exact .tail (.single hup) ((hchain.mem_childrenOf_iff hwf hroot hown).mp hchild)
      · rw [if_neg hchild] at hnew
        exact .single ⟨⟨n, hn⟩, m, hm, hnew⟩
    clear hyv hy
    induction hpath with
    | single hparent => exact hstep hparent
    | tail _ hparent ih => exact ih.trans (hstep hparent)
  · intro hanc
    induction y using Nat.strongRecOn with
    | ind y ih =>
      obtain ⟨p, hpath, hparent⟩ := TransGen.tail'_iff.mp hanc
      have hp := hchain.live_of_parentOf hparent hy
      by_cases hpv : p = v
      · subst hpv
        obtain heq | ⟨q, hpath', hup⟩ := ReflTransGen.cases_tail_iff _ _ _ |>.mp hpath
        · exact absurd heq.symm hxv
        have hsplice := hchain.spliceParent_of_live hwf hroot hown hup hp
        have hchild := (hchain.mem_childrenOf_iff hwf hroot hown).mpr hparent
        have hnew : ParentOf ((sm.rewire kbID p root .single).markDeleting [p]) q y := by
          obtain ⟨-, m, hm, -⟩ := hparent
          refine hlink.mpr ⟨hup.1, m, hm, ?_⟩
          simp only [newParent, if_pos hchild, hsplice]
        have hqp := hwf.lt_of_parentOf hup
        have hqy := Nat.lt_trans hqp (hwf.lt_of_parentOf hparent)
        obtain heq | hanc' := reflTransGen_iff_eq_or_transGen.mp hpath'
        · exact .single (heq ▸ hnew)
        · have hq := hchain.live_of_parentOf hup hp
          exact .tail (ih q hqy (Nat.ne_of_lt hqp) hq hanc') hnew
      · have hnew : ParentOf ((sm.rewire kbID v root .single).markDeleting [v]) p y := by
          obtain ⟨hn, m, hm, hmp⟩ := hparent
          refine hlink.mpr ⟨hn, m, hm, ?_⟩
          have hchild : y ∉ sm.childrenOf kbID v := by
            intro hin
            obtain ⟨-, -, m', hm', hmp'⟩ := mem_childrenOf.mp hin
            rw [hm, some.injEq] at hm'
            exact hpv (hmp.symm.trans (hm' ▸ hmp'))
          simp only [newParent, if_neg hchild, hmp]
        obtain heq | hanc' := reflTransGen_iff_eq_or_transGen.mp hpath
        · exact .single (heq ▸ hnew)
        · exact .tail (ih p (hwf.lt_of_parentOf hparent) hpv hp hanc') hnew

variable (htargets : sm.versionDeleteTargets kbID v .ancestors = .ok targets)

include htargets

/-- Cutting off the ancestors leaves the others one above the other as they were. -/
lemma ancestor_ancestors_iff (hx : x ∉ targets) :
    Ancestor ((sm.rewire kbID v root .ancestors).markDeleting targets) x y ↔ Ancestor sm x y := by
  have hlink : ∀ {p c}, ParentOf ((sm.rewire kbID v root .ancestors).markDeleting targets) p c ↔
      c ≠ v ∧ ParentOf sm p c := by
    intro p c
    rw [parentOf_marked_iff hroot htargets]
    simp only [newParent]
    constructor
    · rintro ⟨⟨n, hn⟩, m, hm, hnew⟩
      have hc : c ≠ v := by
        intro hc
        rw [if_pos hc] at hnew
        exact Nat.lt_irrefl 0 (hnew ▸ hwf.pos hn)
      rw [if_neg hc] at hnew
      exact ⟨hc, ⟨n, hn⟩, m, hm, hnew⟩
    · rintro ⟨hc, hn, m, hm, hnew⟩
      exact ⟨hn, m, hm, by rw [if_neg hc, hnew]⟩
  constructor
  · intro hpath
    induction hpath with
    | single hparent => exact .single (hlink.mp hparent).2
    | tail _ hparent ih => exact ih.tail (hlink.mp hparent).2
  · intro hanc
    -- A way down from a version that stays does not lead through the target.
    have hbelow : ∀ {c}, Ancestor sm x c → c ≠ v := by
      rintro c hanc rfl
      exact hx (hchain.ancestor_mem_targets hwf ⟨root, hroot, hown⟩ htargets hanc)
    induction hanc with
    | single hparent => exact .single (hlink.mpr ⟨hbelow (.single hparent), hparent⟩)
    | tail hpath hparent ih => exact ih.tail (hlink.mpr ⟨hbelow (hpath.tail hparent), hparent⟩)

/-- With nothing beside the way down to the target, an `ANCESTORS` deletion marks only
ancestors. -/
lemma ancestor_of_newlyMarked (hside : NoSide sm v) (hx : Live sm x) (hin : x ∈ targets) :
    Ancestor sm x v := by
  rw [hchain.mem_ancestorTargets_iff hwf ⟨root, hroot, hown⟩ htargets] at hin
  obtain ⟨⟨a, hanc, hpath⟩, hnot⟩ := hin
  induction hpath with
  | refl => exact hanc
  | tail hpath hparent ih =>
  have hp := hchain.live_of_parentOf hparent hx
  have hpnot := fun hdown => hnot (ReflTransGen.tail hdown hparent)
  obtain rfl | hdone := hside _ _ (ih hp hpnot) hp hparent hx
  · exact absurd .refl hnot
  · exact hdone

end

variable {mode : VersionDeleteMode}

/-- Whatever the mode, the live versions that stay are one above the other as they were. -/
lemma ancestor_marked_iff (hchain : Chained sm) (hwf : WellFormed sm)
    (hroot : sm.versions v = some root) (hown : root.kbID = kbID)
    (htargets : sm.versionDeleteTargets kbID v mode = .ok targets)
    (hx : Live ((sm.rewire kbID v root mode).markDeleting targets) x)
    (hy : Live ((sm.rewire kbID v root mode).markDeleting targets) y) :
    Ancestor ((sm.rewire kbID v root mode).markDeleting targets) x y ↔ Ancestor sm x y := by
  rw [live_marked_iff hroot htargets] at hx hy
  cases mode with
  | other code => cases htargets
  | subtree =>
    have hlink : ParentOf ((sm.rewire kbID v root .subtree).markDeleting targets) = ParentOf sm := by
      funext p c
      exact propext (parentOf_marked_iff hroot htargets)
    rw [Ancestor, hlink, Ancestor]
  | single =>
    cases htargets
    exact hchain.ancestor_single_iff hwf hroot hown (fun h => hx.2 (List.mem_singleton.mpr h))
      (fun h => hy.2 (List.mem_singleton.mpr h)) hy.1
  | ancestors => exact hchain.ancestor_ancestors_iff hwf hroot hown htargets hx.2

end Chained

/-- In every state that commands lead to, an accepted deletion does as asked exactly if its
target was not being deleted already, or, for the `ANCESTORS` mode, no live version hangs off
an ancestor of the target beside the way down to it. -/
theorem markVersionDeleting_as_asked_iff (limit : Nat) (env : Env) (cmds : List Command)
    (now : Int) (kbID : String) (v : Nat) (mode : VersionDeleteMode)
    (hok : ((replay limit env cmds).apply now (.markVersionDeleting kbID v mode)).2.err = none) :
    DeletesAsAsked (replay limit env cmds)
        ((replay limit env cmds).apply now (.markVersionDeleting kbID v mode)).1 v mode ↔
      Live (replay limit env cmds) v ∨
        mode = .ancestors ∧ Chained.NoSide (replay limit env cmds) v := by
  obtain ⟨hwf, -⟩ := replay_wellFormed limit env cmds
  have hchain := replay_chained limit env cmds
  generalize replay limit env cmds = sm at hok hwf hchain ⊢
  simp only [apply] at hok ⊢
  obtain ⟨e, hreject⟩ | ⟨kb, root, targets, -, hroot, hown, htargets, -, -, hresult⟩ :=
    sm.applyMarkVersionDeleting_cases kbID v mode
  · rw [hreject] at hok
    cases hok
  rw [hresult]
  have hnewly : ∀ x, NewlyMarked sm ((sm.rewire kbID v root mode).markDeleting targets) x ↔
      Live sm x ∧ x ∈ targets := fun x => newlyMarked_iff hroot htargets
  constructor
  · -- A target that was being deleted already is not newly marked.
    rintro ⟨hmarks, -, -⟩
    by_cases hv : Live sm v
    · exact .inl hv
    refine .inr ?_
    cases mode with
    | other code => cases htargets
    | single => exact absurd ((hnewly v).mp ((hmarks v).mpr rfl)).1 hv
    | subtree => exact absurd ((hnewly v).mp ((hmarks v).mpr (.inl rfl))).1 hv
    | ancestors =>
    refine ⟨rfl, ?_⟩
    intro a x hanc _ hparent hx
    refine .inr (hmarks x ((hnewly x).mpr ⟨hx, ?_⟩))
    rw [hchain.mem_ancestorTargets_iff hwf ⟨root, hroot, hown⟩ htargets]
    refine ⟨⟨a, hanc, .single hparent⟩, fun hdown => hv ?_⟩
    obtain rfl | hbelow := reflTransGen_iff_eq_or_transGen.mp hdown
    · exact hx
    · exact hchain.live_of_ancestor hbelow hx
  · intro hcond
    refine ⟨?_, ?_, fun x y => hchain.ancestor_marked_iff hwf hroot hown htargets⟩
    · cases mode with
      | other code => cases htargets
      | single =>
        have hv := hcond.resolve_right fun h => VersionDeleteMode.noConfusion h.1
        cases htargets
        intro x
        rw [hnewly, List.mem_singleton]
        exact ⟨fun h => h.2, fun h => ⟨h ▸ hv, h⟩⟩
      | subtree =>
        have hv := hcond.resolve_right fun h => VersionDeleteMode.noConfusion h.1
        intro x
        cases htargets
        rw [hnewly, hchain.mem_collectVersionSubtree_iff hwf ⟨root, hroot, hown⟩,
          reflTransGen_iff_eq_or_transGen]
        constructor
        · rintro ⟨hx, rfl | hbelow⟩
          · exact .inl rfl
          · exact .inr ⟨hx, hbelow⟩
        · rintro (rfl | ⟨hx, hbelow⟩)
          · exact ⟨hv, .inl rfl⟩
          · exact ⟨hx, .inr hbelow⟩
      | ancestors =>
        have hside : Chained.NoSide sm v := by
          obtain hv | ⟨-, hside⟩ := hcond
          · exact hchain.noSide_of_live hwf hv
          · exact hside
        intro x hx
        obtain ⟨hlive, hin⟩ := (hnewly x).mp hx
        exact hchain.ancestor_of_newlyMarked hwf hroot hown htargets hside hlive hin
    · intro x
      rw [hnewly, live_marked_iff hroot htargets, not_and]
      exact and_congr_right fun hlive => ⟨fun hout _ => hout, fun hout => hout hlive⟩

/-- A chain of three versions, all of them written and indexed. -/
def chainOfThree : List Command :=
  [.createKB { kbID := "kb" }, .createVersion "kb" 0 "", .markDataDurable 1,
    .updateVersionStatus 1 .ready 0, .createVersion "kb" 1 "", .markDataDurable 2,
    .updateVersionStatus 2 .ready 0, .createVersion "kb" 2 "", .markDataDurable 3,
    .updateVersionStatus 3 .ready 0]

theorem markVersionDeleting_as_asked_middle :
    ((replay 8 (nodeAt 0 "epoch") chainOfThree).apply 0
        (.markVersionDeleting "kb" 2 .single)).2.err = none ∧
      DeletesAsAsked (replay 8 (nodeAt 0 "epoch") chainOfThree)
        ((replay 8 (nodeAt 0 "epoch") chainOfThree).apply 0
          (.markVersionDeleting "kb" 2 .single)).1 2 .single := by
  have hok : ((replay 8 (nodeAt 0 "epoch") chainOfThree).apply 0
      (.markVersionDeleting "kb" 2 .single)).2.err = none := by
    decide +kernel
  have hlive : ((replay 8 (nodeAt 0 "epoch") chainOfThree).versions 2).any
      (fun m => m.deleting = false) = true := by
    decide +kernel
  rw [any_eq_true] at hlive
  obtain ⟨m, hm, hdel⟩ := hlive
  exact ⟨hok, (markVersionDeleting_as_asked_iff 8 (nodeAt 0 "epoch") chainOfThree 0 "kb" 2 .single
    hok).mpr (.inl ⟨m, hm, of_decide_eq_true hdel⟩)⟩

/-- The ancestors of a version that was already deleted alone are deleted with the rest of the
chain: the third version, which stayed, is no ancestor of the second. -/
theorem markVersionDeleting_sweeps_chain : ∃ sm,
    sm = replay 8 (nodeAt 0 "epoch") (chainOfThree ++ [Command.markVersionDeleting "kb" 2 .single]) ∧
      (sm.apply 0 (.markVersionDeleting "kb" 2 .ancestors)).2.err = none ∧
      NewlyMarked sm (sm.apply 0 (.markVersionDeleting "kb" 2 .ancestors)).1 3 ∧
      ¬ Ancestor sm 3 2 := by
  refine ⟨_, rfl, by decide +kernel, ⟨?_, ?_⟩, ?_⟩
  · have hlive : ((replay 8 (nodeAt 0 "epoch")
        (chainOfThree ++ [Command.markVersionDeleting "kb" 2 .single])).versions 3).any
        (fun m => m.deleting = false) = true := by
      decide +kernel
    rw [any_eq_true] at hlive
    obtain ⟨m, hm, hdel⟩ := hlive
    exact ⟨m, hm, of_decide_eq_true hdel⟩
  · rintro ⟨m, hm, hdel⟩
    have hmarked : (((replay 8 (nodeAt 0 "epoch")
        (chainOfThree ++ [Command.markVersionDeleting "kb" 2 .single])).apply 0
        (.markVersionDeleting "kb" 2 .ancestors)).1.versions 3).all
        (fun m => m.deleting = true) = true := by
      decide +kernel
    rw [hm, all_some, hdel] at hmarked
    cases hmarked
  · intro hanc
    have hlt := (replay_wellFormed _ _ _).1.lt_of_ancestor hanc
    omega

end stratum.metadata
