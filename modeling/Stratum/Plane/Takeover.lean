import Stratum.Plane.FanOut

namespace stratum.plane

open stratum.coordinator stratum.versiondoc stratum.sync Finset

/-- `VersionPresence`, answered from the document list; a node without storage cannot answer. -/
def versionPresence (stores : Option Stores) (kbID : String) (versionID : Nat) :
    Except Error Bool :=
  match stores with
  | none => .error { detail := "sync: VersionPresence: this node holds no storage" }
  | some st => .ok (0 < (st.versionDocList.listDocIDs kbID versionID).card)

def maxTakeoverAttempts : Nat := 8

/-- The attempts the watch is armed with again, unless it has spent them. -/
def retryTakeover (attempts : Nat) : Option Nat :=
  if maxTakeoverAttempts ≤ attempts + 1 then none else some (attempts + 1)

/-- What one check of a watch finds: whether it is still the watch of the version, the data
status if it can be read, the resolver's answer, what the peers answer, the digest, and the
error of the report. -/
structure Check where
  pending : Bool := true
  dataStatus : Option DataStatus := none
  resolved : Except Error (Finset String)
  presence : String → Except Error Bool
  digest : Except Error String
  reportError : Option Error := none
  attempts : Nat := 0

/-- A peer counts if it answers that it holds the version. -/
def Check.holds (check : Check) (peer : String) : Bool :=
  match check.presence peer with
  | .error _ => false
  | .ok holds => holds

/-- `attemptTakeover`: the digest it reports the version durable with, and the attempts it arms
the watch with again. -/
def attemptTakeover (check : Check) : Option String × Option Nat :=
  if check.pending = false then (none, none)
  else if check.dataStatus.any (· ≠ .pending) then (none, none)
  else
    match check.resolved with
    | .error _ => (none, retryTakeover check.attempts)
    | .ok peers =>
      let acks := 1 + (peers.filter fun peer => check.holds peer = true).card
      let quorum := quorumSize (peers.card + 1)
      if acks < quorum then (none, retryTakeover check.attempts)
      else
        match check.digest with
        | .error _ => (none, retryTakeover check.attempts)
        | .ok digest =>
          (some digest,
            match check.reportError with
            | none => none
            | some e => if e.is .versionNotFound then none else retryTakeover check.attempts)

/-- The check reports the version as the cluster stands: peers that can be reached answer from
their stores. -/
structure Check.Reports (check : Check) (stores : String → Stores) (kbID : String) (v : Nat)
    (peers : Finset String) : Prop where
  resolved : check.resolved = .ok peers
  presence : ∀ peer ∈ peers, ∀ holds, check.presence peer = .ok holds →
    versionPresence (some (stores peer)) kbID v = .ok holds
  reported : (attemptTakeover check).1.isSome

lemma attemptTakeover_quorum {check : Check} {peers : Finset String}
    (hresolved : check.resolved = .ok peers) (hreported : (attemptTakeover check).1.isSome) :
    quorumSize (peers.card + 1) ≤ 1 + (peers.filter fun peer => check.holds peer = true).card := by
  unfold attemptTakeover at hreported
  rw [hresolved] at hreported
  dsimp only at hreported
  split at hreported
  · cases hreported
  split at hreported
  · cases hreported
  split at hreported
  · cases hreported
  · omega

/-- The nodes of the cluster with a complete copy. -/
def holders (src : Stores) (stores : String → Stores) (kbID : String) (v : Nat)
    (nodes : Finset String) : Finset String :=
  nodes.filter fun node => HoldsCopy src (stores node) kbID v

/-- The version has documents, the watching node has a complete copy, and so has every node
that lists any document of it. -/
structure NoPartialCopy (src : Stores) (stores : String → Stores) (self kbID : String) (v : Nat) :
    Prop where
  documents : src.versionDocList.listDocIDs kbID v ≠ ∅
  own : HoldsCopy src (stores self) kbID v
  peers : ∀ peer ≠ self, (stores peer).versionDocList.listDocIDs kbID v ≠ ∅ →
    HoldsCopy src (stores peer) kbID v

lemma versionPresence_eq_true {st : Stores} {kbID : String} {v : Nat} :
    versionPresence (some st) kbID v = .ok true ↔ st.versionDocList.listDocIDs kbID v ≠ ∅ := by
  simp [versionPresence, nonempty_iff_ne_empty]

section Safety

variable {src : Stores} {stores : String → Stores} {self kbID : String} {v : Nat}

/-- Every peer of the set lists a document, is reached and says so. -/
def answering (stores : String → Stores) (kbID : String) (v : Nat) (peers : Finset String) :
    Check where
  resolved := .ok peers
  presence peer := versionPresence (some (stores peer)) kbID v
  digest := .ok ""

lemma answering_reports {peers : Finset String}
    (hpeers : ∀ peer ∈ peers, (stores peer).versionDocList.listDocIDs kbID v ≠ ∅) :
    (answering stores kbID v peers).Reports stores kbID v peers := by
  refine ⟨rfl, fun peer _ holds hholds => hholds, ?_⟩
  have hall : (peers.filter fun peer => (answering stores kbID v peers).holds peer = true) =
      peers := by
    refine filter_true_of_mem fun peer hpeer => ?_
    have hpresent : (answering stores kbID v peers).presence peer = .ok true :=
      versionPresence_eq_true.mpr (hpeers peer hpeer)
    unfold Check.holds
    rw [hpresent]
  have hsize := quorumSize_le (peers.card + 1)
  unfold attemptTakeover
  dsimp only [answering] at hall ⊢
  rw [hall, if_neg (by omega)]
  rfl

/-- A takeover reports only what a quorum holds completely, for every set of replicas and
whichever of them answer, and a complete copy is always announced as present, exactly if the
version has documents and no node has a part of it only. -/
theorem takeover_safe_iff (src : Stores) (stores : String → Stores) (self kbID : String) (v : Nat) :
    ((∀ (check : Check) (peers : Finset String), self ∉ peers →
        check.Reports stores kbID v peers →
        quorumSize (peers.card + 1) ≤ (holders src stores kbID v (insert self peers)).card) ∧
      ∀ st, HoldsCopy src st kbID v → versionPresence (some st) kbID v = .ok true) ↔
    NoPartialCopy src stores self kbID v := by
  constructor
  · rintro ⟨hquorum, hpresent⟩
    refine ⟨?_, ?_, fun peer hpeer hlisted => ?_⟩
    · intro hempty
      have hown := hpresent src (.refl src kbID v)
      exact versionPresence_eq_true.mp hown hempty
    · have hone := hquorum (answering stores kbID v ∅) ∅ (by simp) (answering_reports (by simp))
      obtain ⟨node, hnode⟩ := card_pos.mp (lt_of_lt_of_le (by decide) hone)
      obtain ⟨hin, hholds⟩ := mem_filter.mp hnode
      obtain rfl : node = self := by simpa using hin
      exact hholds
    have htwo := hquorum (answering stores kbID v {peer}) {peer}
      (by simpa using Ne.symm hpeer) (answering_reports (by simpa using hlisted))
    have hsize : quorumSize (({peer} : Finset String).card + 1) = 2 := by
      rw [card_singleton]
      decide
    have hpair : (insert self {peer} : Finset String).card = 2 := card_pair (Ne.symm hpeer)
    rw [hsize] at htwo
    have hall := eq_of_subset_of_card_le
      (filter_subset (fun node => HoldsCopy src (stores node) kbID v)
        (insert self {peer})) (by rw [hpair]; exact htwo)
    have hmem : peer ∈ holders src stores kbID v (insert self {peer}) := by
      unfold holders
      rw [hall]
      simp
    exact (mem_filter.mp hmem).2
  · rintro ⟨hdocs, hown, hpeers⟩
    refine ⟨fun check peers hself hreports => ?_, fun st hholds => ?_⟩
    · refine (attemptTakeover_quorum hreports.resolved hreports.reported).trans ?_
      have hsub : insert self (peers.filter fun peer => check.holds peer = true) ⊆
          holders src stores kbID v (insert self peers) := by
        intro node hnode
        obtain rfl | hnode := mem_insert.mp hnode
        · exact mem_filter.mpr ⟨mem_insert_self _ _, hown⟩
        obtain ⟨hin, hholds⟩ := mem_filter.mp hnode
        refine mem_filter.mpr ⟨mem_insert_of_mem hin, ?_⟩
        have hne : node ≠ self := fun heq => hself (heq ▸ hin)
        unfold Check.holds at hholds
        split at hholds
        · cases hholds
        next hpresence =>
        cases hholds
        exact hpeers node hne
          (versionPresence_eq_true.mp (hreports.presence node hin true hpresence))
      have hnot : self ∉ peers.filter fun peer => check.holds peer = true :=
        fun hin => hself (mem_filter.mp hin).1
      have hcard := card_le_card hsub
      rw [card_insert_of_notMem hnot] at hcard
      omega
    · rw [versionPresence_eq_true]
      intro hempty
      have hdocsub := hholds.docs
      rw [hempty] at hdocsub
      exact hdocs (subset_empty.mp hdocsub)

end Safety

/-- The writer `a` with a complete copy, and a replica `b` to which the first record of its push
came through. -/
def cutPush (node : String) : Stores :=
  if node = "a" then updatedSource
  else
    (PushHandler.pushVersionData {} .empty
      [{ entryType := .versionDocList, kbID := "kb", docID := "a", versionID := 2 }]
      (some {})).1.stores

/-- The first record of a version makes a replica answer that it holds it, and a report follows
with one copy of the two needed; a version without documents is held by everyone and announced
as present by no one. -/
theorem takeover_counts_partial :
    ((exportVersion updatedSource "kb" 2 keyOrder keyOrder).1.take 1 =
        [{ entryType := .versionDocList, kbID := "kb", docID := "a", versionID := 2 }] ∧
      (answering cutPush "kb" 2 {"b"}).Reports cutPush "kb" 2 {"b"} ∧
      quorumSize 2 = 2 ∧ (holders updatedSource cutPush "kb" 2 {"a", "b"}).card = 1) ∧
    HoldsCopy .empty .empty "kb" 1 ∧ versionPresence (some .empty) "kb" 1 = .ok false := by
  have hexport := exportVersion_single updatedSource 2 2 (.content "y") keyOrder keyOrder
    (by decide) (by decide) (by decide) (by decide)
  refine ⟨⟨by rw [hexport]; rfl, answering_reports (by decide), by decide, by decide⟩, by decide, ?_⟩
  simp [versionPresence, Stores.empty, VersionDocList.empty, VersionDocList.listDocIDs]

end stratum.plane
