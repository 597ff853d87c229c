import Stratum.Sync.Copy

namespace stratum.plane

open stratum.coordinator stratum.sync Finset

/-- The durable threshold for `n` replicas. -/
def quorumSize (n : Nat) : Nat := if n = 0 then 0 else (n + 1) / 2 + (n + 1) % 2

lemma quorumSize_le (n : Nat) : quorumSize n ≤ n := by
  unfold quorumSize
  split <;> omega

lemma quorumSize_mono {m n : Nat} (hle : m ≤ n) : quorumSize m ≤ quorumSize n := by
  unfold quorumSize
  split <;> split <;> omega

lemma two_le_quorumSize {n : Nat} (hn : 0 < n) : 2 ≤ quorumSize (1 + n) := by
  unfold quorumSize
  split <;> omega

/-- How a push to one replica goes: no connection or stream, a stream that breaks after some
records, or one that is sent to its end, whose answer may come too late or not at all. -/
inductive Transport
  | unreachable (e : Error)
  | cut (sent : Nat) (e : Error)
  | complete (answered : Bool)
deriving DecidableEq

/-- `PushVersion`: the receiver's stores afterwards, and the error the pusher sees. -/
def pushVersion (h : PushHandler) (target : String) (src st : Stores) (kbID : String)
    (versionID : Nat) (scan range : Listing) : Transport → Stores × Option Error
  | .unreachable e => (st, some { e with detail := s!"sync: dial replica {target}: " ++ e.detail })
  | .cut sent e =>
    ((h.pushVersionData st ((exportVersion src kbID versionID scan range).1.take sent)
        (some e)).1.stores,
      some { e with detail := s!"sync: export version {versionID} to {target}: " ++ e.detail })
  | .complete answered =>
    match exportVersion src kbID versionID scan range with
    | (entries, some e) =>
      ((h.pushVersionData st entries (some {})).1.stores,
        some { e with detail := s!"sync: export version {versionID} to {target}: " ++ e.detail })
    | (entries, none) =>
      match h.pushVersionData st entries none with
      | (r, .error e) =>
        (r.stores, some { e with detail := s!"sync: close PushVersionData to {target}: " ++ e.detail })
      | (r, .ok _) =>
        (r.stores,
          if answered then none
          else some { detail := s!"sync: close PushVersionData to {target}: no answer" })

/-- What a writing node replicates to: the replicas configured beside it, whether a pusher and a
resolver are wired, what the resolver answers, and the service of each replica. -/
structure Replication where
  replicas : Finset String
  wired : Bool
  resolved : Except Error (Finset String)
  handler : String → PushHandler
  resolved_subset : ∀ {targets : Finset String}, resolved = .ok targets → targets ⊆ replicas

namespace Replication

def targets (c : Replication) : Finset String :=
  if c.wired then
    match c.resolved with
    | .error _ => ∅
    | .ok targets => targets
  else ∅

/-- `fanOut`, where `acked` are the replicas whose push came back in time. An empty list of
targets is logged as a warning or not, and answered alike. -/
def fanOut (c : Replication) (kbID : String) (versionID : Nat) (acked : String → Bool) :
    Option Error :=
  if c.wired then
    match c.resolved with
    | .error e =>
      some { e with
        detail := s!"plane: fan-out for version {versionID}: resolve replicas: " ++ e.detail }
    | .ok targets =>
      if targets = ∅ then none
      else
        let final := 1 + (targets.filter fun target => acked target = true).card
        let total := 1 + targets.card
        let needed := quorumSize total
        if final < needed then
          some { detail := s!"plane: version {versionID} of {kbID} reached {final}/{total} "
            ++ s!"acknowledgements, below the quorum of {needed}" }
        else none
  else none

/-- What the writing node tells the control layer. -/
inductive Report
  | dataDurable (kbID : String) (versionID : Nat) (digest : String)
  | versionFailure (kbID : String) (versionID : Nat) (detail : String)
deriving DecidableEq

def finishVersionWrite (c : Replication) (svc : Services) (kbID : String) (versionID : Nat)
    (docIDs : Finset String) (acked : String → Bool) : Report × Option Error :=
  match c.fanOut kbID versionID acked with
  | some e => (.versionFailure kbID versionID ("replication failed: " ++ e.detail), some e)
  | none => (.dataDurable kbID versionID (svc.computeDocIDSetHash docIDs), none)

section Push

variable (c : Replication) (src : Stores) (kbID : String) (v : Nat) (scan range : Listing)
  (before : String → Stores) (transport : String → Transport)

/-- The stores of a replica once the pushes have come as far as the report. -/
def after (target : String) : Stores :=
  if target ∈ c.targets then
    (pushVersion (c.handler target) target src (before target) kbID v scan range
      (transport target)).1
  else before target

def acked (target : String) : Bool :=
  (pushVersion (c.handler target) target src (before target) kbID v scan range
    (transport target)).2.isNone

/-- The nodes with a complete copy, the writer included. -/
def copies : Nat :=
  1 + (c.replicas.filter fun target =>
    HoldsCopy src (c.after src kbID v scan range before transport target) kbID v).card

/-- A replica that answers success without keeping a complete copy, whatever else it holds. -/
def Forgets (target : String) : Prop :=
  ¬ HoldsCopy src
    ((delivered ((c.handler target).accepted 0 (exportVersion src kbID v scan range).1)).land .empty)
    kbID v
  deriving Decidable

/-- A report stands for a majority of the configured replicas: the version has documents, the
writer can export them, and it is the only replica, or the resolver fails, or it lists enough of
the replicas that their majority is one of all of them, and none of those forgets. -/
def Sound : Prop :=
  src.versionDocList.listDocIDs kbID v = ∅ ∨
    if c.wired then
      match c.resolved with
      | .error _ => True
      | .ok targets =>
        if targets = ∅ then c.replicas = ∅
        else (exportVersion src kbID v scan range).2 ≠ none ∨
          quorumSize (1 + targets.card) = quorumSize (1 + c.replicas.card) ∧
            ∀ target ∈ targets, ¬ c.Forgets src kbID v scan range target
    else c.replicas = ∅

end Push

section Lemmas

variable {c : Replication} {src : Stores} {kbID : String} {v : Nat} {scan range : Listing}
  {before : String → Stores} {transport : String → Transport} {target : String}

/-- Only a complete stream is acknowledged, and it leaves what the replica accepts. -/
lemma of_acked (hacked : c.acked src kbID v scan range before transport target = true) :
    (exportVersion src kbID v scan range).2 = none ∧
      (pushVersion (c.handler target) target src (before target) kbID v scan range
        (transport target)).1 =
        (delivered ((c.handler target).accepted 0 (exportVersion src kbID v scan range).1)).land
          (before target) := by
  have hstores := @PushHandler.pushVersionData_stores (c.handler target)
    (exportVersion src kbID v scan range).1 (before target) none
  unfold acked at hacked
  cases htransport : transport target with
  | unreachable | cut =>
    rw [htransport] at hacked
    cases hacked
  | complete answered =>
  rw [htransport] at hacked
  unfold pushVersion at hacked ⊢
  cases hexport : exportVersion src kbID v scan range with
  | mk entries err =>
    rw [hexport] at hacked hstores
    cases err with
    | some e => cases hacked
    | none =>
    dsimp only at hacked hstores ⊢
    cases hpush : (c.handler target).pushVersionData (before target) entries none with
    | mk r result =>
      rw [hpush] at hacked hstores
      cases result with
      | error e => cases hacked
      | ok response => exact ⟨rfl, hstores⟩

lemma acked_complete (hok : (exportVersion src kbID v scan range).2 = none)
    (htransport : transport target = .complete true) :
    c.acked src kbID v scan range before transport target = true := by
  have happlies : ∀ entry ∈ (exportVersion src kbID v scan range).1, entry.applies = true :=
    fun entry hentry => (of_mem_exportVersion hok hentry).2.1
  obtain ⟨r, response, hpush⟩ :=
    pushVersionData_of_applies (c.handler target) (before target) happlies
  unfold acked
  rw [htransport]
  unfold pushVersion
  cases hexport : exportVersion src kbID v scan range with
  | mk entries err =>
    rw [hexport] at hok hpush
    subst hok
    dsimp only
    rw [hpush]
    rfl

variable {targets : Finset String}

section

variable (hwired : c.wired = true) (hresolved : c.resolved = .ok targets)

include hwired hresolved

lemma fanOut_of_targets (hne : targets ≠ ∅) (acked : String → Bool) : c.fanOut kbID v acked = none ↔
      quorumSize (1 + targets.card) ≤ 1 + (targets.filter fun t => acked t = true).card := by
  unfold fanOut
  rw [if_pos hwired, hresolved]
  dsimp only
  rw [if_neg hne]
  split
  · simp only [reduceCtorEq, false_iff]
    omega
  · simp only [true_iff]
    omega

lemma targets_of_resolved : c.targets = targets := by
  unfold Replication.targets
  rw [if_pos hwired, hresolved]

lemma copies_ge (hkeeps : ∀ target ∈ targets, ¬ c.Forgets src kbID v scan range target) :
    1 + (targets.filter fun t => c.acked src kbID v scan range before transport t = true).card ≤
      c.copies src kbID v scan range before transport := by
  apply Nat.add_le_add_left
  apply card_le_card
  intro target htarget
  obtain ⟨hin, hacked⟩ := mem_filter.mp htarget
  refine mem_filter.mpr ⟨c.resolved_subset hresolved hin, ?_⟩
  unfold after
  rw [targets_of_resolved hwired hresolved, if_pos hin, (of_acked hacked).2]
  exact (not_not.mp (hkeeps target hin)).land (before target)

end

/-- The pushes to some of the replicas come through, the others get no connection. -/
def reaching (reached : Finset String) (target : String) : Transport :=
  if target ∈ reached then .complete true else .unreachable {}

variable {reached : Finset String} (hsub : reached ⊆ c.targets)

include hsub

lemma copies_reaching (hrep : c.targets ⊆ c.replicas)
    (hok : (exportVersion src kbID v scan range).2 = none)
    (hdocs : src.versionDocList.listDocIDs kbID v ≠ ∅) :
    c.copies src kbID v scan range (fun _ => .empty) (reaching reached) =
      1 + (reached.filter fun t => ¬ c.Forgets src kbID v scan range t).card := by
  unfold copies
  congr 2
  ext target
  rw [mem_filter, mem_filter]
  unfold after
  by_cases hreached : target ∈ reached
  · have hacked : c.acked src kbID v scan range (fun _ => .empty) (reaching reached) target =
        true := acked_complete hok (by rw [reaching, if_pos hreached])
    rw [if_pos (hsub hreached), (of_acked hacked).2]
    simp only [hreached, hrep (hsub hreached), Forgets, not_not]
  have hempty : ∀ h : PushHandler, (pushVersion h target src .empty kbID v scan range
      (reaching reached target)).1 = .empty := by
    intro h
    rw [reaching, if_neg hreached]
    rfl
  simp only [hempty, hreached, ite_self, false_and, iff_false, not_and]
  exact fun _ => not_holdsCopy_empty hdocs

lemma filter_acked_reaching (hok : (exportVersion src kbID v scan range).2 = none) :
    (c.targets.filter fun t =>
      c.acked src kbID v scan range (fun _ => .empty) (reaching reached) t = true) = reached := by
  ext target
  rw [mem_filter]
  by_cases hreached : target ∈ reached
  · simp only [hreached, hsub hreached, true_and, iff_true]
    exact acked_complete hok (by rw [reaching, if_pos hreached])
  · simp [hreached, acked, reaching, pushVersion]

end Lemmas

section Majority

variable (c : Replication) (svc : Services) (src : Stores) (kbID : String) (v : Nat)
  (scan range : Listing)

def Reports (before : String → Stores) (transport : String → Transport) : Prop :=
  (c.finishVersionWrite svc kbID v (src.versionDocList.listDocIDs kbID v)
    (c.acked src kbID v scan range before transport)).1 =
      .dataDurable kbID v (svc.computeDocIDSetHash (src.versionDocList.listDocIDs kbID v))

variable {c svc src kbID v scan range}

lemma reports_iff {before : String → Stores} {transport : String → Transport} :
    c.Reports svc src kbID v scan range before transport ↔
      c.fanOut kbID v (c.acked src kbID v scan range before transport) = none := by
  unfold Reports finishVersionWrite
  cases c.fanOut kbID v (c.acked src kbID v scan range before transport) <;> simp

/-- Where nothing is pushed and nobody is asked, the report stands for the writer alone. -/
lemma replicas_eq_empty (htargets : c.targets = ∅)
    (hdocs : src.versionDocList.listDocIDs kbID v ≠ ∅)
    (hmajority : quorumSize (1 + c.replicas.card) ≤
      c.copies src kbID v scan range (fun _ => .empty) (reaching ∅)) : c.replicas = ∅ := by
  have hone : c.copies src kbID v scan range (fun _ => .empty) (reaching ∅) = 1 := by
    unfold copies after
    rw [htargets]
    simp [not_holdsCopy_empty hdocs]
  by_contra hne
  have htwo := two_le_quorumSize (card_pos.mpr (nonempty_of_ne_empty hne))
  omega

/-- With targets to push to, the replicas that can be made to acknowledge decide. -/
lemma sound_of_majority {targets : Finset String} (hwired : c.wired = true)
    (hresolved : c.resolved = .ok targets) (hne : targets ≠ ∅)
    (hok : (exportVersion src kbID v scan range).2 = none)
    (hdocs : src.versionDocList.listDocIDs kbID v ≠ ∅)
    (hmajority : ∀ before transport, c.Reports svc src kbID v scan range before transport →
      quorumSize (1 + c.replicas.card) ≤ c.copies src kbID v scan range before transport) :
    quorumSize (1 + targets.card) = quorumSize (1 + c.replicas.card) ∧
      ∀ target ∈ targets, ¬ c.Forgets src kbID v scan range target := by
  have hrep := c.resolved_subset hresolved
  have htargets := targets_of_resolved hwired hresolved
  have hle : quorumSize (1 + targets.card) ≤ quorumSize (1 + c.replicas.card) :=
    quorumSize_mono (Nat.add_le_add_left (card_le_card hrep) 1)
  have htwo := two_le_quorumSize (card_pos.mpr (nonempty_of_ne_empty hne))
  -- One replica less than the quorum, the forgetful one among them, is enough for a report.
  have hreached (reached : Finset String) (hsub : reached ⊆ targets)
      (hcard : reached.card = quorumSize (1 + targets.card) - 1) :
      quorumSize (1 + c.replicas.card) ≤
        1 + (reached.filter fun t => ¬ c.Forgets src kbID v scan range t).card := by
    rw [← htargets] at hsub hrep
    rw [← copies_reaching hsub hrep hok hdocs]
    apply hmajority
    rw [reports_iff, fanOut_of_targets hwired hresolved hne, ← htargets,
      filter_acked_reaching hsub hok, htargets]
    omega
  have hsize := quorumSize_le (1 + targets.card)
  constructor
  · obtain ⟨reached, hsub, hcard⟩ :=
      exists_subset_card_eq (show quorumSize (1 + targets.card) - 1 ≤ targets.card by omega)
    have hquorum := hreached reached hsub hcard
    have hfilter := card_filter_le reached fun t => ¬ c.Forgets src kbID v scan range t
    omega
  · intro target htarget hforgets
    obtain ⟨reached, hmem, hsub, hcard⟩ :=
      exists_subsuperset_card_eq (singleton_subset_iff.mpr htarget)
        (show ({target} : Finset String).card ≤ quorumSize (1 + targets.card) - 1 by
          rw [card_singleton]; omega)
        (show quorumSize (1 + targets.card) - 1 ≤ targets.card by omega)
    have hquorum := hreached reached hsub hcard
    have hfilter : (reached.filter fun t => ¬ c.Forgets src kbID v scan range t).card <
        reached.card := by
      apply card_lt_card
      refine filter_ssubset.mpr ⟨target, hmem (mem_singleton_self target), ?_⟩
      exact fun hkeeps => hkeeps hforgets
    omega

/-- A writer's durable report means, whatever its replicas held before and however its pushes
go, that a majority of the configured replicas has a complete copy, exactly if the version has
no documents or the lookup and the replicas' tombstone tables are as `Sound` says. -/
theorem durable_majority_iff (c : Replication) (svc : Services) (src : Stores) (kbID : String)
    (v : Nat) (scan range : Listing) :
    (∀ before transport, c.Reports svc src kbID v scan range before transport →
      quorumSize (1 + c.replicas.card) ≤ c.copies src kbID v scan range before transport) ↔
    c.Sound src kbID v scan range := by
  by_cases hdocs : src.versionDocList.listDocIDs kbID v = ∅
  · refine iff_of_true (fun before transport _ => ?_) (.inl hdocs)
    have hall : c.copies src kbID v scan range before transport = 1 + c.replicas.card := by
      unfold copies
      simp only [HoldsCopy.of_empty hdocs, filter_true]
    rw [hall]
    exact quorumSize_le _
  unfold Sound
  rw [or_iff_right hdocs]
  by_cases hwired : c.wired = true
  · rw [if_pos hwired]
    cases hresolved : c.resolved with
    | error e =>
      refine iff_of_true (fun before transport hreports => ?_) trivial
      rw [reports_iff, fanOut, if_pos hwired, hresolved] at hreports
      cases hreports
    | ok targets =>
    dsimp only
    by_cases hne : targets = ∅
    · rw [if_pos hne]
      constructor
      · intro hmajority
        refine replicas_eq_empty (by rw [targets_of_resolved hwired hresolved, hne]) hdocs
          (hmajority _ _ ?_)
        rw [reports_iff, fanOut, if_pos hwired, hresolved]
        dsimp only
        rw [if_pos hne]
      · intro hempty before transport _
        rw [hempty]
        exact Nat.le_add_right 1 _
    rw [if_neg hne]
    constructor
    · intro hmajority
      by_cases hok : (exportVersion src kbID v scan range).2 = none
      · exact .inr (sound_of_majority hwired hresolved hne hok hdocs hmajority)
      · exact .inl hok
    · intro hsound before transport hreports
      rw [reports_iff, fanOut_of_targets hwired hresolved hne] at hreports
      obtain hbroken | ⟨hquorum, hkeeps⟩ := hsound
      · have hnone : (targets.filter fun t =>
            c.acked src kbID v scan range before transport t = true) = ∅ :=
          filter_eq_empty_iff.mpr fun t _ hacked => hbroken (of_acked hacked).1
        have htwo :=
          two_le_quorumSize (card_pos.mpr (nonempty_of_ne_empty hne))
        rw [hnone, card_empty] at hreports
        omega
      · rw [← hquorum]
        exact hreports.trans (copies_ge hwired hresolved hkeeps)
  · rw [if_neg hwired]
    have htargets : c.targets = ∅ := by rw [targets, if_neg hwired]
    constructor
    · intro hmajority
      refine replicas_eq_empty htargets hdocs (hmajority _ _ ?_)
      rw [reports_iff, fanOut, if_neg hwired]
    · intro hempty before transport _
      rw [hempty]
      exact Nat.le_add_right 1 _

end Majority

end Replication

/-- Documents are not cut, and their digest is not looked at. -/
def uncut : Services where
  split _ _ _ := []
  computeDocIDSetHash _ := ""

variable {replicas targets : Finset String}

lemma no_targets_subset (hresolved : (Except.ok ∅ : Except Error (Finset String)) = .ok targets) :
    targets ⊆ replicas := by
  cases hresolved
  exact empty_subset _

lemma all_targets_subset
    (hresolved : (Except.ok replicas : Except Error (Finset String)) = .ok targets) :
    targets ⊆ replicas := by
  cases hresolved
  exact Finset.Subset.refl _

/-- A writer with two more replicas whose resolver lists none of them. -/
def lostLookup : Replication where
  replicas := {"b", "c"}
  wired := true
  resolved := .ok ∅
  handler _ := {}
  resolved_subset := no_targets_subset

/-- A writer with two more replicas that take the version for deleted. -/
def tombstonedReplicas : Replication where
  replicas := {"b", "c"}
  wired := true
  resolved := .ok {"b", "c"}
  handler _ := { tombstones := some fun _ _ => true }
  resolved_subset := all_targets_subset

/-- Two of three replicas are needed. The writer reports the version when nobody was asked, and
when one replica answered that drained the stream; it is the only one with a copy. -/
theorem durable_without_majority :
    quorumSize (1 + lostLookup.replicas.card) = 2 ∧
    (lostLookup.Reports uncut updatedSource "kb" 2 keyOrder keyOrder (fun _ => .empty)
        (Replication.reaching ∅) ∧
      lostLookup.copies updatedSource "kb" 2 keyOrder keyOrder (fun _ => .empty)
        (Replication.reaching ∅) = 1) ∧
    quorumSize (1 + tombstonedReplicas.replicas.card) = 2 ∧
    tombstonedReplicas.Reports uncut updatedSource "kb" 2 keyOrder keyOrder (fun _ => .empty)
        (Replication.reaching {"b"}) ∧
      tombstonedReplicas.copies updatedSource "kb" 2 keyOrder keyOrder (fun _ => .empty)
        (Replication.reaching {"b"}) = 1 := by
  have hexport := exportVersion_single updatedSource 2 2 (.content "y") keyOrder keyOrder
    (by decide) (by decide) (by decide) (by decide)
  have hok : (exportVersion updatedSource "kb" 2 keyOrder keyOrder).2 = none := by rw [hexport]
  have hdocs : updatedSource.versionDocList.listDocIDs "kb" 2 ≠ ∅ := by decide
  have hsub : ({"b"} : Finset String) ⊆ tombstonedReplicas.targets := by decide
  have hforgets : tombstonedReplicas.Forgets updatedSource "kb" 2 keyOrder keyOrder "b" := by
    unfold Replication.Forgets
    rw [hexport]
    decide
  have hresolved : tombstonedReplicas.resolved = .ok tombstonedReplicas.targets := rfl
  refine ⟨by decide, ⟨rfl, by decide⟩, by decide, ?_, ?_⟩
  · rw [Replication.reports_iff, Replication.fanOut_of_targets rfl hresolved (by decide),
      Replication.filter_acked_reaching hsub hok]
    decide
  · rw [Replication.copies_reaching hsub (by decide) hok hdocs]
    simp [hforgets]

end stratum.plane
