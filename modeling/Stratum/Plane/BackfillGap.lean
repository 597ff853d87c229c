import Stratum.Metadata.Linear
import Stratum.Plane.Backfill

namespace stratum.plane

open stratum.lib stratum.metadata stratum.nodestate Finset Option StateMachine

section Complete

variable (owner : Nat → String) (p : Peers) (sm : StateMachine) (s : Local)
  (sourceAddr kbID : String) (versionID : Nat) (o : Outcomes)

/-- The liveness of the gap, as `backfillTo` reads it. -/
def gapLiveness : Option (Except Error (List Nat × Nat)) :=
  p.readLiveness sm kbID s.account.cursor (versionID - 1)

def gapSource : String := p.pickBackfillSource (versionID - 1) sourceAddr

/-- The liveness of the gap was asked for and could not be read. -/
def unreadable : Bool :=
  match gapLiveness p sm s kbID versionID with
  | some (.error _) => true
  | _ => false

/-- However its calls end, a backfill that returns without an error has brought every version of
the knowledge base that the cursor passes once the target has landed. -/
def Complete : Prop :=
  ∀ o s', backfillTo p o sm s sourceAddr kbID versionID = (s', none) →
    ∀ v ∈ sm.versionsByKB kbID, s.account.cursor < v → v < versionID →
      v ≤ (s'.account.advance versionID).cursor → v ∈ s'.held

def foreign : Finset Nat :=
  ((gapBelow s.account.cursor versionID).filter
    fun u => u < sm.nextVersionID ∧ owner u ≠ kbID).toFinset

/-- What brings a version of the gap, or holds the cursor below it. Without a cursor nothing is
brought. An id of another knowledge base counts as a deleted version once the liveness is read:
what is above it is brought by no one, and the cursor passes it with the transfer, unless the
transfer cannot be made. -/
def Brings (v : Nat) : Prop :=
  if s.account.cursor = 0 then s.account.Stops {versionID} v
  else if (p.liveness = .readable ∧ (sm.kbs kbID).isSome) ∧
      (foreign owner sm s kbID versionID).Nonempty then
    (s.tombstoned versionID = true ∨
      p.pickTransferSource versionID (gapSource p sourceAddr versionID) = none) ∨
    (s.tombstoned v = false ∧ p.holds (gapSource p sourceAddr versionID) v = true) ∧
      ∀ u ∈ foreign owner sm s kbID versionID, v < u
  else
    (s.tombstoned v = false ∧
      (unreadable p sm s kbID versionID = true ∨
        p.holds (gapSource p sourceAddr versionID) v = true)) ∨
    s.account.Stops (admitted s (gapBelow s.account.cursor versionID) ∪ {versionID}) v

/-- What a backfill that returned without an error has done. -/
inductive Backfilled (s' : Local) : Prop
  | nothing (hgap : s.account.cursor = 0 ∨ versionID ≤ s.account.cursor + 1) (heq : s' = s)
  | replayed (hcursor : s.account.cursor ≠ 0) (hfetch : o.changesInRange.isSome)
      (hkept : ∀ v ∈ gapBelow s.account.cursor versionID,
        deletedIn (gapLiveness p sm s kbID versionID) v = false)
      (hran : Ran s s' (admitted s (gapBelow s.account.cursor versionID))
        (admitted s (gapBelow s.account.cursor versionID)))
  | pulled (hcursor : s.account.cursor ≠ 0) (done : Finset Nat)
      (hdone : done ⊆ admitted s (gapBelow s.account.cursor versionID))
      (hkept : (∃ v ∈ gapBelow s.account.cursor versionID,
        deletedIn (gapLiveness p sm s kbID versionID) v = true) → done = ∅)
      (hfetch : o.changesInRange = none → done = ∅)
      (hread : unreadable p sm s kbID versionID = false)
      (hpulled : Pulled p s s' (gapSource p sourceAddr versionID) s.account.cursor versionID
        (deletedIn (gapLiveness p sm s kbID versionID)) done done
        (gapBelow s.account.cursor versionID))

end Complete

section Returned

variable {p : Peers} {o : Outcomes} {sm : StateMachine} {s s' : Local}
  {sourceAddr kbID : String} {versionID : Nat}

lemma backfilled_of_records {s₁ : Local} {done : Finset Nat} (hcursor : s.account.cursor ≠ 0)
    (hran : Ran s s₁ done done)
    (hdone : done ⊆ admitted s (gapBelow s.account.cursor versionID))
    (hkept : (∃ v ∈ gapBelow s.account.cursor versionID,
      deletedIn (gapLiveness p sm s kbID versionID) v = true) → done = ∅)
    (hfetch : o.changesInRange = none → done = ∅)
    (hrun : backfillByRecords p o (gapSource p sourceAddr versionID) kbID s.account.cursor versionID
      (gapLiveness p sm s kbID versionID) s₁ = (s', none)) :
    Backfilled p sm s sourceAddr kbID versionID o s' := by
  unfold backfillByRecords at hrun
  split at hrun
  · cases hrun
  next hread =>
  refine .pulled hcursor done hdone hkept hfetch ?_ (pullGap_pulled hran hrun)
  unfold unreadable
  split
  · next e he => exact absurd he (hread e)
  · rfl

lemma backfilled (hrun : backfillTo p o sm s sourceAddr kbID versionID = (s', none)) :
    Backfilled p sm s sourceAddr kbID versionID o s' := by
  unfold backfillTo at hrun
  by_cases hgap : s.account.cursor = 0 ∨ versionID ≤ s.account.cursor + 1
  · rw [if_pos hgap] at hrun
    cases hrun
    exact .nothing hgap rfl
  have hcursor : s.account.cursor ≠ 0 := fun heq => hgap (.inl heq)
  rw [if_neg hgap] at hrun
  -- Each way out of the delta path but a failed transaction leaves the state as it was.
  have hunchanged (h : backfillByRecords p o (gapSource p sourceAddr versionID) kbID
      s.account.cursor versionID (gapLiveness p sm s kbID versionID) s = (s', none)) :
      Backfilled p sm s sourceAddr kbID versionID o s' :=
    backfilled_of_records hcursor (Ran.refl s) (empty_subset _) (fun _ => rfl) (fun _ => rfl) h
  cases hfetch : o.changesInRange with
  | none =>
    rw [hfetch] at hrun
    exact hunchanged hrun
  | some fetch =>
  rw [hfetch] at hrun
  dsimp only at hrun
  unfold backfillByChanges at hrun
  cases hdeltas : fetch (p.pickBackfillSource (versionID - 1) sourceAddr) with
  | error e =>
    rw [hdeltas] at hrun
    exact hunchanged hrun
  | ok deltas =>
  rw [hdeltas] at hrun
  dsimp only at hrun
  cases hrefused : (gapBelow s.account.cursor versionID).findSome?
      (notReplayed deltas (deletedIn (p.readLiveness sm kbID s.account.cursor (versionID - 1))))
    with
  | some reason =>
    rw [hrefused] at hrun
    exact hunchanged hrun
  | none =>
    rw [hrefused] at hrun
    have hkept : ∀ v ∈ gapBelow s.account.cursor versionID,
        deletedIn (gapLiveness p sm s kbID versionID) v = false := by
      intro v hv
      have hv := List.findSome?_eq_none_iff.mp hrefused v hv
      unfold notReplayed at hv
      split at hv
      · cases hv
      split at hv
      · cases hv
      · next hdeleted => exact Bool.eq_false_iff.mpr hdeleted
    cases hreplay : applyDeltas o kbID deltas (gapBelow s.account.cursor versionID) s with
    | mk s₁ err =>
      rw [hreplay] at hrun
      obtain ⟨⟨done, hsub, hdone⟩, hall⟩ := applyDeltas_ran (Ran.refl s) hreplay
      cases err with
      | none =>
        cases hrun
        exact .replayed hcursor (by rw [hfetch]; rfl) hkept
          ((hall rfl).congr (empty_union _) (empty_union _))
      | some e =>
      refine backfilled_of_records hcursor
        (hdone.congr (empty_union _) (empty_union _)) hsub ?_ ?_ hrun
      · rintro ⟨v, hv, hdeleted⟩
        rw [hkept v hv] at hdeleted
        cases hdeleted
      · rw [hfetch]
        exact nofun

/-- The cursor passes a version with the target unless the accounts stop it below. -/
lemma Ran.passes_iff {accounted landed : Finset Nat} {v : Nat} (hran : Ran s s' accounted landed)
    (hlt : s.account.cursor < v) :
    v ≤ (s'.account.advance versionID).cursor ↔ ¬s.account.Stops (accounted ∪ {versionID}) v := by
  rw [← not_lt]
  exact not_congr ((hran.cursor {versionID} v).trans (and_iff_right hlt))

lemma deletedIn_of_unread (hread : ¬(p.liveness = .readable ∧ (sm.kbs kbID).isSome)) (v : Nat) :
    deletedIn (gapLiveness p sm s kbID versionID) v = false := by
  unfold gapLiveness Peers.readLiveness
  cases hliveness : p.liveness with
  | unwired | unreadable => rfl
  | readable =>
  have hnone : sm.kbs kbID = none := by
    by_contra hsome
    exact hread ⟨hliveness, isSome_iff_ne_none.mpr hsome⟩
  simp [versionLiveness, hnone, deletedIn]

lemma unreadable_of_read (hread : p.liveness = .readable ∧ (sm.kbs kbID).isSome) :
    unreadable p sm s kbID versionID = false := by
  obtain ⟨kb, hkb⟩ := isSome_iff_exists.mp hread.2
  simp [unreadable, gapLiveness, Peers.readLiveness, hread.1, versionLiveness, hkb]

lemma deletedIn_of_unreadable (hread : unreadable p sm s kbID versionID = true) (v : Nat) :
    deletedIn (gapLiveness p sm s kbID versionID) v = false := by
  apply deletedIn_of_unread
  intro h
  rw [unreadable_of_read h] at hread
  cases hread

end Returned

lemma Backfilled.held_subset {p : Peers} {o : Outcomes} {sm : StateMachine} {s s' : Local}
    {sourceAddr kbID : String} {versionID : Nat}
    (hrun : Backfilled p sm s sourceAddr kbID versionID o s') : s.held ⊆ s'.held := by
  cases hrun with
  | nothing _ heq => rw [heq]
  | replayed _ _ _ hran => rw [hran.held]; exact subset_union_left
  | pulled _ _ _ _ _ _ hpulled =>
    cases hpulled with
    | through _ hran | transferred _ _ _ _ _ _ _ _ _ hran =>
      rw [hran.held]; exact subset_union_left

section Liveness

variable {owner : Nat → String} {p : Peers} {sm : StateMachine} {s s' : Local}
  {sourceAddr kbID : String} {versionID : Nat} (hwf : WellFormed sm) (hasc : Ascending sm)
  (howner : ∀ v m, sm.versions v = some m → owner v = m.kbID)
  (hkept : ∀ v, s.account.cursor < v → v < versionID → v < sm.nextVersionID → owner v = kbID →
    (sm.versions v).isSome)

include hwf howner hkept in
lemma mem_versionsByKB_iff {v : Nat} (hlt : s.account.cursor < v) (htarget : v < versionID)
    (hnext : v < sm.nextVersionID) : v ∈ sm.versionsByKB kbID ↔ owner v = kbID := by
  constructor
  · intro hv
    obtain ⟨m, hm, hkb⟩ := hwf.present hv
    rw [howner v m hm, hkb]
  · intro hkb
    obtain ⟨m, hm⟩ := isSome_iff_exists.mp (hkept v hlt htarget hnext hkb)
    rw [← hkb, howner v m hm]
    exact hwf.listed hm

include hwf hasc howner hkept in
/-- With no version of the knowledge base gone, what reads as deleted are the other ids. -/
lemma deletedIn_iff (hread : p.liveness = .readable ∧ (sm.kbs kbID).isSome) {v : Nat}
    (hv : v ∈ gapBelow s.account.cursor versionID) :
    deletedIn (gapLiveness p sm s kbID versionID) v = true ↔
      v ∈ foreign owner sm s kbID versionID := by
  obtain ⟨hlt, htarget⟩ := mem_gapBelow.mp hv
  obtain ⟨kb, hkb⟩ := isSome_iff_exists.mp hread.2
  have halive : v ∈ aliveInRange (some s.account.cursor) (some (versionID - 1))
      (sm.versionsByKB kbID) ↔ v ∈ sm.versionsByKB kbID := by
    rw [mem_aliveInRange (hasc kbID)]
    exact and_iff_left ⟨decide_eq_false (by omega), decide_eq_false (by omega)⟩
  have hdeleted : deletedIn (gapLiveness p sm s kbID versionID) v = true ↔
      v < sm.nextVersionID ∧ v ∉ sm.versionsByKB kbID := by
    simp only [deletedIn, gapLiveness, Peers.readLiveness, hread.1, versionLiveness,
      hkb, Bool.and_eq_true, decide_eq_true_eq, halive]
    exact and_congr_left fun _ => by omega
  rw [hdeleted, foreign, List.mem_toFinset, List.mem_filter, decide_eq_true_eq, and_iff_right hv]
  exact and_congr_right fun hnext =>
    not_congr (mem_versionsByKB_iff hwf howner hkept hlt htarget hnext)

include hwf hasc howner hkept in
lemma exists_deletedIn_iff : (∃ v ∈ gapBelow s.account.cursor versionID,
      deletedIn (gapLiveness p sm s kbID versionID) v = true) ↔
    (p.liveness = .readable ∧ (sm.kbs kbID).isSome) ∧
      (foreign owner sm s kbID versionID).Nonempty := by
  constructor
  · rintro ⟨v, hv, hdeleted⟩
    have hread : p.liveness = .readable ∧ (sm.kbs kbID).isSome := by
      by_contra hread
      rw [deletedIn_of_unread hread] at hdeleted
      cases hdeleted
    exact ⟨hread, v, (deletedIn_iff hwf hasc howner hkept hread hv).mp hdeleted⟩
  · rintro ⟨hread, v, hv⟩
    have hgap := (List.mem_filter.mp (List.mem_toFinset.mp hv)).1
    exact ⟨v, hgap, (deletedIn_iff hwf hasc howner hkept hread hgap).mpr hv⟩

include hwf hasc howner hkept in
/-- What brings a version, brings it in every backfill that returns. -/
lemma held_of_brings {o : Outcomes} {v : Nat} (hlt : s.account.cursor < v) (htarget : v < versionID)
    (hbrings : Brings owner p sm s sourceAddr kbID versionID v)
    (hrun : Backfilled p sm s sourceAddr kbID versionID o s')
    (hpassed : v ≤ (s'.account.advance versionID).cursor) : v ∈ s'.held := by
  have hgap : v ∈ gapBelow s.account.cursor versionID := mem_gapBelow.mpr ⟨hlt, htarget⟩
  have hexists := exists_deletedIn_iff (p := p) hwf hasc howner hkept
  unfold Brings at hbrings
  cases hrun with
  | nothing hcursor heq =>
    subst heq
    obtain hzero | hnear := hcursor
    · rw [if_pos hzero] at hbrings
      rw [(Ran.refl s').passes_iff hlt] at hpassed
      exact absurd hbrings hpassed
    · omega
  | replayed hcursor _ hnone hran =>
    rw [if_neg hcursor, if_neg] at hbrings
    · rw [hran.passes_iff hlt] at hpassed
      obtain ⟨htomb, -⟩ := hbrings.resolve_right hpassed
      rw [hran.held]
      exact mem_union_right _ (mem_admitted.mpr ⟨hgap, htomb⟩)
    rw [← hexists]
    rintro ⟨w, hw, hdeleted⟩
    rw [hnone w hw] at hdeleted
    cases hdeleted
  | pulled hcursor done hdone _ _ hread hpulled =>
    rw [if_neg hcursor] at hbrings
    cases hpulled with
    | through hnone hran =>
      rw [if_neg, hread] at hbrings
      · rw [hran.passes_iff hlt, union_eq_right.mpr hdone] at hpassed
        obtain ⟨htomb, hholds⟩ := hbrings.resolve_right hpassed
        rw [hran.held]
        refine mem_union_right _ (mem_union_right _ ?_)
        exact mem_filter.mpr ⟨mem_admitted.mpr ⟨hgap, htomb⟩,
          hholds.resolve_left Bool.false_ne_true⟩
      · rw [← hexists]
        rintro ⟨w, hw, hdeleted⟩
        rw [hnone w hw] at hdeleted
        cases hdeleted
    | transferred pre post d holder heq hpre hdeleted hholder htomb hran =>
      have hd : d ∈ gapBelow s.account.cursor versionID := by
        rw [heq]
        exact List.mem_append_right _ List.mem_cons_self
      have hforeign := hexists.mp ⟨d, hd, hdeleted⟩
      rw [if_pos hforeign, htomb, hholder] at hbrings
      obtain ⟨⟨htombv, hholds⟩, hbelow⟩ := hbrings.resolve_left (by simp)
      have hvd := hbelow d ((deletedIn_iff hwf hasc howner hkept hforeign.1 hd).mp hdeleted)
      have hvpre := (lt_of_gapBelow_eq heq hgap).mpr hvd
      rw [hran.held]
      refine mem_union_right _ (mem_union_left _ (mem_union_right _ ?_))
      exact mem_filter.mpr ⟨mem_admitted.mpr ⟨hvpre, htombv⟩, hholds⟩

/-- Calls that all end well, without a change log. -/
def calm : Outcomes where
  changesInRange := none
  pullVersionData _ _ := none
  writeLocalTransaction _ _ := none

/-- Calls that all end well, with a change log that has every version. -/
def recorded : Outcomes :=
  { calm with changesInRange := some fun _ => .ok fun _ => some {} }

lemma backfillTo_recorded (hcursor : ¬(s.account.cursor = 0 ∨ versionID ≤ s.account.cursor + 1))
    (hread : unreadable p sm s kbID versionID = true) :
    ∃ s', backfillTo p recorded sm s sourceAddr kbID versionID = (s', none) := by
  obtain ⟨s', hs'⟩ : ∃ s', applyDeltas recorded kbID (fun _ => some {})
      (gapBelow s.account.cursor versionID) s = (s', none) := applyDeltas_returns fun _ _ => rfl
  refine ⟨s', ?_⟩
  have hnone : (gapBelow s.account.cursor versionID).findSome? (notReplayed (fun _ => some {})
      (deletedIn (p.readLiveness sm kbID s.account.cursor (versionID - 1)))) = none := by
    rw [List.findSome?_eq_none_iff]
    intro v _
    have hdeleted := deletedIn_of_unreadable hread v
    unfold gapLiveness at hdeleted
    simp [notReplayed, hdeleted]
  unfold backfillTo
  rw [if_neg hcursor]
  simp only [recorded, backfillByChanges] at hs' ⊢
  rw [hnone]
  rw [hs']

lemma backfillTo_calm (hcursor : ¬(s.account.cursor = 0 ∨ versionID ≤ s.account.cursor + 1))
    (hread : unreadable p sm s kbID versionID = false)
    (htransfer : (∃ v ∈ gapBelow s.account.cursor versionID,
        deletedIn (gapLiveness p sm s kbID versionID) v = true) →
      s.tombstoned versionID = false ∧
        (p.pickTransferSource versionID (gapSource p sourceAddr versionID)).isSome) :
    ∃ s', backfillTo p calm sm s sourceAddr kbID versionID = (s', none) := by
  unfold backfillTo
  rw [if_neg hcursor]
  change ∃ s', backfillByRecords p calm (gapSource p sourceAddr versionID) kbID s.account.cursor
    versionID (gapLiveness p sm s kbID versionID) s = (s', none)
  unfold backfillByRecords
  split
  · next e he => simp [unreadable, he] at hread
  · exact pullGap_returns (fun _ _ => rfl) htransfer

lemma not_stops_of_marked {a : Account} {A : Finset Nat} {v t : Nat} (hlt : a.cursor < v)
    (hle : v ≤ t) (hmarked : Finset.Icc (a.cursor + 1) t ⊆ A) : ¬a.Stops A v := by
  intro hstops
  have hin (w : Nat) (hlo : a.cursor < w) (hhi : w ≤ t) : w ∈ A :=
    hmarked (mem_Icc.mpr ⟨hlo, hhi⟩)
  obtain ⟨g, -, hgap, hgt, hgv⟩ :=
    hstops v (mem_union_right _ (hin v hlt hle)) (le_refl v)
  exact hgap (mem_union_right _ (hin g hgt (by omega)))

include hwf hasc howner hkept in
/-- A version that backfills always bring where the cursor passes it was there before, or is
brought. -/
lemma brings_of_complete (hcomplete : Complete p sm s sourceAddr kbID versionID) {v : Nat}
    (hlive : v ∈ sm.versionsByKB kbID) (hlt : s.account.cursor < v) (htarget : v < versionID) :
    v ∈ s.held ∨ Brings owner p sm s sourceAddr kbID versionID v := by
  refine or_iff_not_imp_left.mpr fun hheld => ?_
  have hgap : v ∈ gapBelow s.account.cursor versionID := mem_gapBelow.mpr ⟨hlt, htarget⟩
  have hexists := exists_deletedIn_iff (p := p) hwf hasc howner hkept
  unfold Brings
  split
  · next hzero =>
    -- Without a cursor the backfill returns at once.
    by_contra hstops
    refine hheld (hcomplete calm s ?_ v hlive hlt htarget ?_)
    · rw [backfillTo, if_pos (.inl hzero)]
    · rwa [(Ran.refl s).passes_iff hlt, empty_union]
  have hopen : ¬(s.account.cursor = 0 ∨ versionID ≤ s.account.cursor + 1) := by omega
  split
  · next hforeign =>
    refine or_iff_not_imp_left.mpr fun htransfer => ?_
    obtain ⟨htomb, hholder⟩ := not_or.mp htransfer
    obtain ⟨s', hrun⟩ := backfillTo_calm hopen
      (unreadable_of_read hforeign.1) fun _ =>
        ⟨Bool.eq_false_iff.mpr htomb, isSome_iff_ne_none.mpr hholder⟩
    obtain ⟨w, hw, hdeleted⟩ := hexists.mpr hforeign
    cases backfilled hrun with
    | nothing hnone => exact absurd hnone hopen
    | replayed _ _ hnone =>
      rw [hnone w hw] at hdeleted
      cases hdeleted
    | pulled _ done _ _ hfetch _ hpulled =>
    cases hpulled with
    | through hnone =>
      rw [hnone w hw] at hdeleted
      cases hdeleted
    | transferred pre post d holder heq hpre hd _ _ hran =>
    have hpassed : v ≤ (s'.account.advance versionID).cursor := by
      rw [hran.passes_iff hlt]
      refine not_stops_of_marked hlt (le_of_lt htarget) ?_
      exact subset_union_right.trans subset_union_left
    have hin := hcomplete calm s' hrun v hlive hlt htarget hpassed
    rw [hran.held, hfetch rfl, empty_union, mem_union, mem_union] at hin
    obtain hin | hin | hin := hin
    · exact absurd hin hheld
    · obtain ⟨hadmitted, hholds⟩ := mem_filter.mp hin
      obtain ⟨hvpre, htombv⟩ := mem_admitted.mp hadmitted
      have hvd := (lt_of_gapBelow_eq heq hgap).mp hvpre
      refine ⟨⟨htombv, hholds⟩, fun u hu => ?_⟩
      have hugap := (List.mem_filter.mp (List.mem_toFinset.mp hu)).1
      have hudeleted :=
        (deletedIn_iff hwf hasc howner hkept hforeign.1 hugap).mpr hu
      -- `d` is the first of the gap that reads as deleted.
      have hud : ¬u < d := by
        intro hlt'
        rw [hpre u ((lt_of_gapBelow_eq heq hugap).mpr hlt')] at hudeleted
        cases hudeleted
      omega
    · split at hin
      · have := mem_singleton.mp hin
        omega
      · exact absurd hin (notMem_empty v)
  · refine or_iff_not_imp_right.mpr fun hstops => ?_
    have hnone : ¬∃ w ∈ gapBelow s.account.cursor versionID,
        deletedIn (gapLiveness p sm s kbID versionID) w = true := by rwa [hexists]
    cases hread : unreadable p sm s kbID versionID with
    | true =>
      obtain ⟨s', hrun⟩ := backfillTo_recorded hopen hread
      cases backfilled hrun with
      | nothing hnear => exact absurd hnear hopen
      | replayed _ _ _ hran =>
        have hin := hcomplete recorded s' hrun v hlive hlt htarget
          ((hran.passes_iff hlt).mpr hstops)
        rw [hran.held] at hin
        exact ⟨(mem_admitted.mp ((mem_union.mp hin).resolve_left hheld)).2, .inl rfl⟩
      | pulled _ _ _ _ _ hread' =>
        rw [hread] at hread'
        cases hread'
    | false =>
      obtain ⟨s', hrun⟩ := backfillTo_calm hopen hread
        fun h => absurd h hnone
      cases backfilled hrun with
      | nothing hnear => exact absurd hnear hopen
      | replayed _ hfetch => cases hfetch
      | pulled _ done _ _ hfetch _ hpulled =>
      cases hpulled with
      | transferred pre post d _ heq _ hd =>
        refine absurd ⟨d, ?_, hd⟩ hnone
        rw [heq]
        exact List.mem_append_right _ List.mem_cons_self
      | through _ hran =>
      rw [hfetch rfl, empty_union, empty_union] at hran
      have hin := hcomplete calm s' hrun v hlive hlt htarget ((hran.passes_iff hlt).mpr hstops)
      rw [hran.held] at hin
      obtain ⟨hadmitted, hholds⟩ :=
        mem_filter.mp ((mem_union.mp hin).resolve_left hheld)
      exact ⟨(mem_admitted.mp hadmitted).2, .inr hholds⟩

end Liveness

/-- The ids of all knowledge bases come from one counter; `owner` says which one each went to.
Where no version of the knowledge base in the gap has been deleted, backfills bring every version
of it the cursor passes exactly if each of them was there before or is brought. -/
theorem backfillTo_complete_iff {limit : Nat} {epoch : String} {sm : StateMachine}
    (hreach : Reachable step (newStateMachine limit epoch) sm) (owner : Nat → String)
    (howner : ∀ v m, sm.versions v = some m → owner v = m.kbID) (p : Peers) (s : Local)
    (sourceAddr kbID : String) (versionID : Nat)
    (hkept : ∀ v, s.account.cursor < v → v < versionID → v < sm.nextVersionID → owner v = kbID →
      (sm.versions v).isSome) :
    Complete p sm s sourceAddr kbID versionID ↔
      ∀ v ∈ sm.versionsByKB kbID, s.account.cursor < v → v < versionID →
        v ∈ s.held ∨ Brings owner p sm s sourceAddr kbID versionID v := by
  obtain ⟨hwf, hasc⟩ := wellFormed_ascending hreach
  constructor
  · intro hcomplete v hlive hlt htarget
    exact brings_of_complete hwf hasc howner hkept hcomplete hlive hlt htarget
  · intro h o s' hrun v hlive hlt htarget hpassed
    have hrun := backfilled hrun
    obtain hheld | hbrings := h v hlive hlt htarget
    · exact hrun.held_subset hheld
    · exact held_of_brings hwf hasc howner hkept hlt htarget hbrings hrun hpassed

def behind : Local where
  account := { cursor := 1, heldAbove := ∅, announcedAbove := ∅ }
  held := {1}
  tombstoned _ := false

/-- A control layer that answers, and a source that holds everything. -/
def openPeers : Peers where
  liveness := .readable
  resolveReplicas := none
  localVersionOf := none
  holds _ _ := true

def ownIDs : List (Int × Command) :=
  [(0, .createKB { kbID := "kb" }), (0, .createVersion "kb" 0 ""), (0, .markDataDurable 1),
    (0, .createVersion "kb" 1 ""), (0, .markDataDurable 2), (0, .createVersion "kb" 2 ""),
    (0, .markDataDurable 3), (0, .createVersion "kb" 3 "")]

/-- The second of the four ids went to another knowledge base. -/
def sharedIDs : List (Int × Command) :=
  [(0, .createKB { kbID := "kb" }), (0, .createKB { kbID := "other" }),
    (0, .createVersion "kb" 0 ""), (0, .markDataDurable 1), (0, .createVersion "other" 0 ""),
    (0, .createVersion "kb" 1 ""), (0, .markDataDurable 3), (0, .createVersion "kb" 3 "")]

theorem backfillTo_complete_own : ∃ sm,
    Reachable step (newStateMachine 8 "epoch") sm ∧
      sm.versionsByKB "kb" = [1, 2, 3, 4] ∧ Complete openPeers sm behind "peer" "kb" 4 := by
  obtain ⟨sm, hreach, hlist, hnext, hkb, hpresent⟩ : ∃ sm : StateMachine,
      Reachable step (newStateMachine 8 "epoch") sm ∧
        sm.versionsByKB "kb" = [1, 2, 3, 4] ∧ sm.nextVersionID = 5 ∧
        (∀ v ∈ List.range 5, (sm.versions v).all (fun m => m.kbID = "kb") = true) ∧
        (∀ v ∈ List.range 5, 1 < v → (sm.versions v).isSome = true) :=
    Reach.exists_decide ownIDs (by decide +kernel)
  obtain ⟨hwf, -⟩ := wellFormed_ascending hreach
  refine ⟨sm, hreach, hlist, ?_⟩
  refine (backfillTo_complete_iff hreach (fun _ => "kb") ?_ openPeers behind "peer" "kb" 4
    ?_).mpr ?_
  · intro v m hm
    have hall := hkb v (List.mem_range.mpr (hnext ▸ hwf.lt_next hm))
    rw [hm] at hall
    exact (of_decide_eq_true hall).symm
  · intro v hlt htarget _ _
    exact hpresent v (List.mem_range.mpr (by omega)) hlt
  intro v _ _ _
  have hforeign : foreign (fun _ => "kb") sm behind "kb" 4 = ∅ := by simp [foreign]
  refine .inr ?_
  unfold Brings
  rw [if_neg (by decide), hforeign, if_neg (by simp)]
  exact .inl ⟨rfl, .inr rfl⟩

/-- An id of another knowledge base between two versions of this one reads as a deleted version:
the target is transferred in the place of the live third version, and the cursor passes it. -/
theorem backfillTo_passes_missing : ∃ sm,
    Reachable step (newStateMachine 8 "epoch") sm ∧
      sm.versionsByKB "kb" = [1, 3, 4] ∧ sm.versionsByKB "other" = [2] ∧ sm.nextVersionID = 5 ∧
      (backfillTo openPeers calm sm behind "peer" "kb" 4).2 = none ∧
      (backfillTo openPeers calm sm behind "peer" "kb" 4).1.held = {1, 4} ∧
      ((backfillTo openPeers calm sm behind "peer" "kb" 4).1.account.advance 4).cursor = 4 :=
  Reach.exists_decide sharedIDs (by decide +kernel)

end stratum.plane
