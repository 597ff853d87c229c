import Stratum.Metadata.Reads
import Stratum.Nodestate.Data

namespace stratum.plane

open stratum.metadata stratum.nodestate Finset Account

/-- The changes of one version as a peer's log has them. -/
structure VersionDelta where
  parentVersionID : Nat := 0
  changes : List DocChange := []
deriving DecidableEq

/-- A node's standing with one knowledge base: its cursor and accounts, the versions whose data
it holds, and the versions its tombstone table refuses. -/
structure Local where
  account : Account
  held : Finset Nat
  tombstoned : Nat → Bool

namespace Local

def dataLanded (s : Local) (v : Nat) : Local := { s with account := s.account.advance v }

/-- A version comes in to its end, which moves the cursor; its data is stored if there was any
in what came. -/
def receive (s : Local) (v : Nat) (carried : Bool) : Local :=
  { s with
    held := if carried then insert v s.held else s.held
    account := s.account.advance v }

def markVersionsHandled (s : Local) (first last : Nat) : Local :=
  { s with account := s.account.markHandled first last }

end Local

/-- Whether the control layer can be asked which versions are alive. -/
inductive LivenessReader
  | unwired
  | unreadable (e : Error)
  | readable
deriving DecidableEq

/-- Who a backfill can ask: the liveness reader, the replicas and their cursors, and which
versions each peer holds in full. A pull from a peer that does not hold the version can end well
all the same: where no digest reader is wired an empty stream is taken at face value, and where
one is wired it is only asked about an empty stream, not about a part of the version. -/
structure Peers where
  liveness : LivenessReader
  resolveReplicas : Option (Except Error (List String))
  localVersionOf : Option (String → Except Error Nat)
  holds : String → Nat → Bool

/-- How the calls of a backfill end: the answer of a peer's change log if one is wired, the
pulls, and the local transactions. -/
structure Outcomes where
  changesInRange : Option (String → Except Error (Nat → Option VersionDelta))
  pullVersionData : String → Nat → Option Error
  writeLocalTransaction : Nat → VersionDelta → Option Error

namespace Peers

def reaches (cursorOf : String → Except Error Nat) (need : Nat) (peer : String) : Bool :=
  match cursorOf peer with
  | .error _ => false
  | .ok cursor => need ≤ cursor

def pickBackfillSource (p : Peers) (need : Nat) (fallback : String) : String :=
  match p.localVersionOf, p.resolveReplicas with
  | some cursorOf, some (.ok peers) =>
    (peers.find? fun peer => peer ≠ fallback && reaches cursorOf need peer).getD fallback
  | _, _ => fallback

def pickTransferSource (p : Peers) (need : Nat) (also : String) : Option String :=
  match p.localVersionOf with
  | none => if also = "" then none else some also
  | some cursorOf =>
    let peers := match p.resolveReplicas with
      | some (.ok peers) => peers
      | _ => []
    (peers ++ [also]).find? fun peer => peer ≠ "" && reaches cursorOf need peer

def readLiveness (p : Peers) (sm : StateMachine) (kbID : String) (fromExclusive toInclusive : Nat) :
    Option (Except Error (List Nat × Nat)) :=
  match p.liveness with
  | .unwired => none
  | .unreadable e => some (.error e)
  | .readable => some (sm.versionLiveness kbID (some fromExclusive) (some toInclusive))

end Peers

/-- An id that was handed out and is not alive in the knowledge base. -/
def deletedIn (liveness : Option (Except Error (List Nat × Nat))) (v : Nat) : Bool :=
  match liveness with
  | some (.ok (alive, lastAllocated)) => v ≤ lastAllocated && v ∉ alive
  | _ => false

/-- `ApplyBackfillChanges` for each version in turn. -/
def applyDeltas (o : Outcomes) (kbID : String) (deltas : Nat → Option VersionDelta) :
    List Nat → Local → Local × Option Error
  | [], s => (s, none)
  | v :: vs, s =>
    if s.tombstoned v then applyDeltas o kbID deltas vs s
    else
      match o.writeLocalTransaction v ((deltas v).getD {}) with
      | some e =>
        (s, some { e with detail := s!"plane: backfill apply {kbID} v{v}: " ++ e.detail })
      | none => applyDeltas o kbID deltas vs (s.receive v true)

/-- Why a version keeps a range from being replayed. -/
def notReplayed (deltas : Nat → Option VersionDelta) (deleted : Nat → Bool) (v : Nat) :
    Option String :=
  if (deltas v).isNone then some s!"no record for v{v}: "
  else if deleted v then some s!"v{v} no longer exists: "
  else none

def errBackfillGapIncomplete : String :=
  "backfill: the gap cannot be replayed from the source's recorded changes"

/-- `backfillByChanges`: the whole range is refused if one of its versions cannot be replayed. -/
def backfillByChanges (o : Outcomes) (fetch : String → Except Error (Nat → Option VersionDelta))
    (source kbID : String) (cursor versionID : Nat) (deleted : Nat → Bool) (gap : List Nat)
    (s : Local) : Local × Option Error :=
  let range := s!"plane: delta backfill {kbID} ({cursor},{versionID - 1}] from {source}: "
  match fetch source with
  | .error e => (s, some { e with detail := range ++ e.detail })
  | .ok deltas =>
    match gap.findSome? (notReplayed deltas deleted) with
    | some reason => (s, some { detail := range ++ reason ++ errBackfillGapIncomplete })
    | none => applyDeltas o kbID deltas gap s

/-- `transferFullState`: one whole version in the place of the gap. -/
def transferFullState (p : Peers) (o : Outcomes) (holder kbID : String)
    (cursor versionID deletedVersion : Nat) (s : Local) : Local × Option Error :=
  if s.tombstoned versionID then
    (s, some { detail := s!"plane: backfill {kbID} from {holder}: the snapshot version v{versionID} "
      ++ "is itself known deleted here" })
  else
    match o.pullVersionData holder versionID with
    | some e =>
      (s, some { e with
        detail := s!"plane: backfill {kbID} from {holder}: v{deletedVersion} was deleted "
          ++ s!"(local cursor {cursor}) and the full-state transfer of v{versionID} failed: "
          ++ e.detail })
    | none =>
      ((s.receive versionID (p.holds holder versionID)).markVersionsHandled (cursor + 1) versionID,
        none)

/-- The loop over the gap: a version taken for deleted ends it with a full-state transfer. -/
def pullGap (p : Peers) (o : Outcomes) (source kbID : String) (cursor versionID : Nat)
    (deleted : Nat → Bool) : List Nat → Local → Local × Option Error
  | [], s => (s, none)
  | v :: vs, s =>
    if deleted v then
      match p.pickTransferSource versionID source with
      | none =>
        (s, some (Sentinel.indexNotReady.wrap
          (s!"plane: backfill {kbID}: v{v} was deleted and no replica holds v{versionID} "
            ++ "to transfer its state from")))
      | some holder => transferFullState p o holder kbID cursor versionID v s
    else if s.tombstoned v then pullGap p o source kbID cursor versionID deleted vs s
    else
      match o.pullVersionData source v with
      | some e =>
        (s, some { e with
          detail := s!"plane: backfill {kbID} v{v} from {source} (local cursor {cursor}): "
            ++ e.detail })
      | none =>
        pullGap p o source kbID cursor versionID deleted vs
          ((s.receive v (p.holds source v)).dataLanded v)

/-- The ids strictly between the cursor and a version. -/
def gapBelow (cursor versionID : Nat) : List Nat :=
  List.range' (cursor + 1) (versionID - (cursor + 1))

/-- The full-record path of `backfillTo`, which cannot do without the liveness of the gap. -/
def backfillByRecords (p : Peers) (o : Outcomes) (source kbID : String) (cursor versionID : Nat)
    (liveness : Option (Except Error (List Nat × Nat))) (s : Local) : Local × Option Error :=
  match liveness with
  | some (.error e) =>
    (s, some { e with detail := s!"plane: backfill {kbID}: read deleted versions: " ++ e.detail })
  | _ => pullGap p o source kbID cursor versionID (deletedIn liveness) (gapBelow cursor versionID) s

/-- `backfillTo`: closes the gap below a version before it is applied. -/
def backfillTo (p : Peers) (o : Outcomes) (sm : StateMachine) (s : Local)
    (sourceAddr kbID : String) (versionID : Nat) : Local × Option Error :=
  let cursor := s.account.cursor
  if cursor = 0 ∨ versionID ≤ cursor + 1 then (s, none)
  else
    let source := p.pickBackfillSource (versionID - 1) sourceAddr
    let liveness := p.readLiveness sm kbID cursor (versionID - 1)
    let gap := gapBelow cursor versionID
    -- Any failure of the delta path leaves the gap to the full records.
    let byChanges : Local × Option Error := match o.changesInRange with
      | none => (s, some {})
      | some fetch =>
        backfillByChanges o fetch source kbID cursor versionID (deletedIn liveness) gap s
    match byChanges with
    | (s, none) => (s, none)
    | (s, some _) => backfillByRecords p o source kbID cursor versionID liveness s

/-- What a run of landings and marks did: the versions it accounted for, and those it brought. -/
structure Ran (s s' : Local) (accounted landed : Finset Nat) : Prop where
  held : s'.held = s.held ∪ landed
  tombstoned : s'.tombstoned = s.tombstoned
  cursor : ∀ more v, (s'.account.account more).cursor < v ↔
    s.account.cursor < v ∧ s.account.Stops (accounted ∪ more) v

namespace Ran

variable {s : Local}

lemma refl (s : Local) : Ran s s ∅ ∅ where
  held := by simp
  tombstoned := rfl
  cursor more v := by rw [empty_union]; exact cursor_account_lt

end Ran

/-- Accounts taken one after the other stop the cursor where their union does. -/
lemma stops_account {a a' : Account} {A : Finset Nat}
    (h : ∀ more v, (a'.account more).cursor < v ↔ a.cursor < v ∧ a.Stops (A ∪ more) v)
    (B more : Finset Nat) (v : Nat) :
    ((a'.account B).account more).cursor < v ↔ a.cursor < v ∧ a.Stops (A ∪ B ∪ more) v := by
  rw [cursor_account_account_lt, ← cursor_account_lt, h, union_assoc]

namespace Ran

variable {s s' : Local} {accounted landed : Finset Nat}

lemma mark (h : Ran s s' accounted landed) (A : Finset Nat) :
    Ran s { s' with account := s'.account.account A } (accounted ∪ A) landed where
  __ := h
  cursor := stops_account h.cursor A

lemma receive (h : Ran s s' accounted landed) (v : Nat) (carried : Bool) :
    Ran s (s'.receive v carried) (accounted ∪ {v})
      (landed ∪ if carried then {v} else ∅) where
  held := by
    cases carried with
    | false =>
      rw [if_neg Bool.false_ne_true, union_empty]
      exact h.held
    | true =>
      rw [if_pos rfl, ← union_assoc, ← h.held, union_comm]
      rfl
  tombstoned := h.tombstoned
  cursor := stops_account h.cursor {v}

lemma congr {accounted' landed' : Finset Nat} (h : Ran s s' accounted landed)
    (haccounted : accounted = accounted') (hlanded : landed = landed') :
    Ran s s' accounted' landed' := by
  subst haccounted hlanded
  exact h

end Ran

/-- The versions of a list that the tombstone table lets in. -/
def admitted (s : Local) (vs : List Nat) : Finset Nat :=
  (vs.filter fun v => s.tombstoned v = false).toFinset

variable {s : Local} {v : Nat} {vs : List Nat} {deltas : Nat → Option VersionDelta}

lemma mem_admitted : v ∈ admitted s vs ↔ v ∈ vs ∧ s.tombstoned v = false := by simp [admitted]

lemma admitted_nil (s : Local) : admitted s [] = ∅ := rfl

lemma admitted_cons_of_tombstoned (vs : List Nat) (h : s.tombstoned v = true) :
    admitted s (v :: vs) = admitted s vs := by
  simp [admitted, h]

lemma admitted_cons (vs : List Nat) (h : s.tombstoned v = false) :
    admitted s (v :: vs) = {v} ∪ admitted s vs := by
  simp [admitted, h]

/-- The versions of a list that come in and that the source holds. -/
def Peers.carried (p : Peers) (source : String) (s : Local) (vs : List Nat) : Finset Nat :=
  (admitted s vs).filter fun v => p.holds source v = true

lemma carried_nil (p : Peers) (source : String) (s : Local) : p.carried source s [] = ∅ := rfl

lemma carried_cons_of_tombstoned (p : Peers) (source : String) (vs : List Nat)
    (h : s.tombstoned v = true) : p.carried source s (v :: vs) = p.carried source s vs := by
  rw [Peers.carried, admitted_cons_of_tombstoned vs h, Peers.carried]

lemma carried_cons (p : Peers) (source : String) (vs : List Nat) (h : s.tombstoned v = false) :
    p.carried source s (v :: vs) =
      (if p.holds source v then {v} else ∅) ∪ p.carried source s vs := by
  rw [Peers.carried, admitted_cons vs h, filter_union, filter_singleton]
  rfl

section Runs

variable {p : Peers} {o : Outcomes} {s s₀ s' : Local} {accounted landed : Finset Nat}
  {kbID source : String} {cursor versionID : Nat} {deleted : Nat → Bool}

/-- However far the replay of the changes comes, it brings versions of the list only; if it
comes through, all that are let in. -/
lemma applyDeltas_ran {err : Option Error} (hran : Ran s s₀ accounted landed)
    (hrun : applyDeltas o kbID deltas vs s₀ = (s', err)) :
    (∃ done ⊆ admitted s vs, Ran s s' (accounted ∪ done) (landed ∪ done)) ∧
      (err = none → Ran s s' (accounted ∪ admitted s vs) (landed ∪ admitted s vs)) := by
  induction vs generalizing s₀ accounted landed with
  | nil =>
    cases hrun
    have hdone := hran.congr (union_empty _).symm (union_empty _).symm
    exact ⟨⟨∅, empty_subset _, hdone⟩, fun _ => hdone⟩
  | cons v vs ih =>
  unfold applyDeltas at hrun
  cases htomb : s₀.tombstoned v with
  | true =>
    rw [if_pos htomb] at hrun
    rw [hran.tombstoned] at htomb
    rw [admitted_cons_of_tombstoned vs htomb]
    exact ih hran hrun
  | false =>
    rw [if_neg (by simp [htomb])] at hrun
    rw [hran.tombstoned] at htomb
    rw [admitted_cons vs htomb]
    split at hrun
    · cases hrun
      refine ⟨⟨∅, empty_subset _, ?_⟩, nofun⟩
      exact hran.congr (union_empty _).symm (union_empty _).symm
    obtain ⟨⟨done, hsub, hdone⟩, hall⟩ := ih (hran.receive v true) hrun
    refine ⟨⟨{v} ∪ done, union_subset_union (Finset.Subset.refl _) hsub, ?_⟩,
      fun herr => ?_⟩
    · exact hdone.congr (union_assoc _ _ _) (union_assoc _ _ _)
    · exact (hall herr).congr (union_assoc _ _ _) (union_assoc _ _ _)

/-- What a loop over the gap has done when it came through: every version that is let in came,
or the ones before the first that was taken for deleted, and the whole target. -/
inductive Pulled (p : Peers) (s s' : Local) (source : String) (cursor versionID : Nat)
    (deleted : Nat → Bool) (accounted landed : Finset Nat) (vs : List Nat) : Prop
  | through (hkept : ∀ v ∈ vs, deleted v = false)
      (hran : Ran s s' (accounted ∪ admitted s vs) (landed ∪ p.carried source s vs))
  | transferred (pre post : List Nat) (d : Nat) (holder : String) (hvs : vs = pre ++ d :: post)
      (hpre : ∀ v ∈ pre, deleted v = false) (hdeleted : deleted d = true)
      (hholder : p.pickTransferSource versionID source = some holder)
      (htarget : s.tombstoned versionID = false)
      (hran : Ran s s'
        (accounted ∪ admitted s pre ∪ {versionID} ∪ Finset.Icc (cursor + 1) versionID)
        (landed ∪ p.carried source s pre ∪ if p.holds holder versionID then {versionID} else ∅))

lemma pullGap_pulled (hran : Ran s s₀ accounted landed)
    (hrun : pullGap p o source kbID cursor versionID deleted vs s₀ = (s', none)) :
    Pulled p s s' source cursor versionID deleted accounted landed vs := by
  induction vs generalizing s₀ accounted landed with
  | nil =>
    cases hrun
    exact .through (by simp) (hran.congr (union_empty _).symm (union_empty _).symm)
  | cons v vs ih =>
  unfold pullGap at hrun
  cases hdeleted : deleted v with
  | true =>
    rw [if_pos hdeleted] at hrun
    split at hrun
    · cases hrun
    next holder hholder =>
    unfold transferFullState at hrun
    cases htomb : s₀.tombstoned versionID with
    | true =>
      rw [if_pos htomb] at hrun
      cases hrun
    | false =>
    rw [if_neg (by simp [htomb])] at hrun
    split at hrun
    · cases hrun
    cases hrun
    rw [hran.tombstoned] at htomb
    refine .transferred [] vs v holder rfl (by simp) hdeleted hholder htomb ?_
    refine ((hran.receive versionID (p.holds holder versionID)).mark
      (Finset.Icc (cursor + 1) versionID)).congr ?_ ?_
    · rw [admitted_nil, union_empty]
    · rw [carried_nil, union_empty]
  | false =>
    rw [if_neg (by simp [hdeleted])] at hrun
    cases htomb : s₀.tombstoned v with
    | true =>
      rw [if_pos htomb] at hrun
      rw [hran.tombstoned] at htomb
      cases ih hran hrun with
      | through hkept hall =>
        refine .through (List.forall_mem_cons.mpr ⟨hdeleted, hkept⟩) ?_
        rwa [admitted_cons_of_tombstoned vs htomb, carried_cons_of_tombstoned p source vs htomb]
      | transferred pre post d holder hvs hpre hd hholder htarget hall =>
      subst hvs
      refine .transferred (v :: pre) post d holder rfl
        (List.forall_mem_cons.mpr ⟨hdeleted, hpre⟩) hd hholder htarget ?_
      rwa [admitted_cons_of_tombstoned pre htomb, carried_cons_of_tombstoned p source pre htomb]
    | false =>
      rw [if_neg (by simp [htomb])] at hrun
      rw [hran.tombstoned] at htomb
      split at hrun
      · cases hrun
      -- The puller and `dataLanded` both move the cursor; the second time changes nothing.
      have hreceived := ((hran.receive v (p.holds source v)).mark {v}).congr
        (by rw [union_assoc, union_idempotent]) rfl
      cases ih hreceived hrun with
      | through hkept hall =>
        refine .through (List.forall_mem_cons.mpr ⟨hdeleted, hkept⟩) ?_
        rw [admitted_cons vs htomb, carried_cons p source vs htomb]
        exact hall.congr (union_assoc _ _ _) (union_assoc _ _ _)
      | transferred pre post d holder hvs hpre hd hholder htarget hall =>
      subst hvs
      refine .transferred (v :: pre) post d holder rfl
        (List.forall_mem_cons.mpr ⟨hdeleted, hpre⟩) hd hholder htarget ?_
      rw [admitted_cons pre htomb, carried_cons p source pre htomb]
      exact hall.congr (by simp only [union_assoc]) (by simp only [union_assoc])

/-- With pulls that end well the loop comes through, unless it needs a transfer it cannot make. -/
lemma pullGap_returns (hpull : ∀ peer v, o.pullVersionData peer v = none)
    (htransfer : (∃ v ∈ vs, deleted v = true) → s.tombstoned versionID = false ∧
      (p.pickTransferSource versionID source).isSome) :
    ∃ s', pullGap p o source kbID cursor versionID deleted vs s = (s', none) := by
  induction vs generalizing s with
  | nil => exact ⟨s, rfl⟩
  | cons v vs ih =>
  unfold pullGap
  cases hdeleted : deleted v with
  | true =>
    obtain ⟨htomb, hholder⟩ := htransfer ⟨v, List.mem_cons_self, hdeleted⟩
    obtain ⟨holder, hholder⟩ := Option.isSome_iff_exists.mp hholder
    rw [if_pos rfl, hholder]
    dsimp only
    rw [transferFullState, if_neg (by simp [htomb]), hpull]
    exact ⟨_, rfl⟩
  | false =>
    rw [if_neg Bool.false_ne_true]
    have hrest : (∃ w ∈ vs, deleted w = true) →
        s.tombstoned versionID = false ∧ (p.pickTransferSource versionID source).isSome := by
      rintro ⟨w, hw, hd⟩
      exact htransfer ⟨w, List.mem_cons_of_mem v hw, hd⟩
    split
    · exact ih hrest
    · rw [hpull]
      exact ih hrest

lemma applyDeltas_returns (hwrite : ∀ v delta, o.writeLocalTransaction v delta = none) :
    ∃ s', applyDeltas o kbID deltas vs s = (s', none) := by
  induction vs generalizing s with
  | nil => exact ⟨s, rfl⟩
  | cons v vs ih =>
  unfold applyDeltas
  split
  · exact ih
  · rw [hwrite]
    exact ih

end Runs

lemma mem_gapBelow {cursor versionID : Nat} :
    v ∈ gapBelow cursor versionID ↔ cursor < v ∧ v < versionID := by
  rw [gapBelow, List.mem_range'_1]
  omega

lemma lt_of_gapBelow_eq {cursor versionID d : Nat} {pre post : List Nat}
    (heq : gapBelow cursor versionID = pre ++ d :: post) (hv : v ∈ gapBelow cursor versionID) :
    v ∈ pre ↔ v < d := by
  have hasc : (gapBelow cursor versionID).Pairwise (· < ·) := List.pairwise_lt_range'
  rw [heq] at hasc hv
  obtain ⟨-, hpost, hcross⟩ := List.pairwise_append.mp hasc
  constructor
  · exact fun hpre => hcross v hpre d List.mem_cons_self
  · intro hlt
    obtain hpre | hrest := List.mem_append.mp hv
    · exact hpre
    obtain rfl | hmem := List.mem_cons.mp hrest
    · exact absurd hlt (lt_irrefl v)
    · have := (List.pairwise_cons.mp hpost).1 v hmem
      omega

end stratum.plane
