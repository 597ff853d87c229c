import Stratum.Coordinator.Dropper
import Stratum.Metadata.Apply

namespace stratum.coordinator

open stratum.metadata

/-- `DropVersionStorage`: the chunks the version was the last referent of, its records, its
document set. The records go as they are, whoever still reads them. -/
def dropVersionStorage (sm : StateMachine) (st : Stores) (kbID : String) (versionID : Nat) :
    Stores × Option Error :=
  match reclaimVersionChunks sm st kbID versionID with
  | (st, some e) =>
    (st, some { e with
      detail := s!"coordinator: DropVersionStorage: chunk reclaim {kbID} v{versionID}: " ++ e.detail })
  | (st, none) =>
    ({ st with
        docStore := st.docStore.deleteByVersion kbID versionID
        versionDocList := st.versionDocList.deleteByVersion kbID versionID }, none)

lemma dropVersionStorage_docStore (sm : StateMachine) (st : Stores) (kbID : String)
    (versionID : Nat) : (dropVersionStorage sm st kbID versionID).1.docStore = st.docStore ∨
      (versionID ≠ 0 ∧ (dropVersionStorage sm st kbID versionID).1.docStore =
        st.docStore.deleteByVersion kbID versionID) := by
  unfold dropVersionStorage
  obtain ⟨hdocs, -⟩ := reclaimVersionChunks_records sm st kbID versionID
  cases hchunks : reclaimVersionChunks sm st kbID versionID with
  | mk st' err =>
    rw [hchunks] at hdocs
    dsimp only at hdocs
    cases err with
    | some e => exact .inl hdocs
    | none =>
      refine .inr ⟨?_, by simp only [hdocs]⟩
      rintro rfl
      simp [reclaimVersionChunks] at hchunks

variable {sm : StateMachine} (st : Stores) {kbID : String} {versionID : Nat} {live : List Nat}

/-- Where the live versions can be listed, chunks are reclaimed without an error. -/
lemma reclaimVersionChunks_ok (hlive : liveVersionIDs sm kbID versionID = .ok live)
    (hne : versionID ≠ 0) : (reclaimVersionChunks sm st kbID versionID).2 = none := by
  unfold reclaimVersionChunks
  rw [if_neg hne]
  dsimp only
  split
  · rfl
  · rw [hlive]

lemma dropVersionStorage_ok (hlive : liveVersionIDs sm kbID versionID = .ok live)
    (hne : versionID ≠ 0) : (dropVersionStorage sm st kbID versionID).1.docStore =
      st.docStore.deleteByVersion kbID versionID := by
  have hok := reclaimVersionChunks_ok st hlive hne
  obtain ⟨hdocs, -⟩ := reclaimVersionChunks_records sm st kbID versionID
  unfold dropVersionStorage
  cases hchunks : reclaimVersionChunks sm st kbID versionID with
  | mk st' err =>
    rw [hchunks] at hok hdocs
    dsimp only at hok hdocs
    subst hok
    simp only [hdocs]

end stratum.coordinator

namespace stratum.plane

open stratum.lib stratum.metadata stratum.coordinator stratum.docstore

/-- Where a node's own reclaim of a deleted version stands. -/
inductive TombstoneState
  | pending
  | done
deriving DecidableEq

/-- A node of a deployment: a control node has no stores. -/
structure Node where
  stores : Option Stores
  tombstones : String × Nat → Option TombstoneState

namespace Node

/-- A repeated notice does not reopen a finished entry. -/
def note (n : Node) (kbID : String) (versionID : Nat) : Node :=
  match n.tombstones (kbID, versionID) with
  | some _ => n
  | none =>
    { n with tombstones := Function.update n.tombstones (kbID, versionID) (some .pending) }

def markDone (n : Node) (kbID : String) (versionID : Nat) : Node :=
  match n.tombstones (kbID, versionID) with
  | none => n
  | some _ =>
    { n with tombstones := Function.update n.tombstones (kbID, versionID) (some .done) }

/-- `DropVersionStorage` on this node; without stores there is nothing to drop. -/
def drop (sm : StateMachine) (n : Node) (kbID : String) (versionID : Nat) : Node × Option Error :=
  match n.stores with
  | none => (n, none)
  | some st =>
    let (st, err) := dropVersionStorage sm st kbID versionID
    ({ n with stores := some st }, err)

/-- The handler of `DeleteVersionData`: the deletion is recorded before the bytes go. -/
def deleteVersionData (sm : StateMachine) (n : Node) (kbID : String) (versionID : Nat) :
    Node × Option Error :=
  match (n.note kbID versionID).drop sm kbID versionID with
  | (n, some e) => (n, some e)
  | (n, none) => (n.markDone kbID versionID, none)

/-- One entry of `RetryPendingDeletions`. -/
def retryPendingDeletion (sm : StateMachine) (n : Node) (kbID : String) (versionID : Nat) : Node :=
  if n.tombstones (kbID, versionID) = some .pending then
    match n.drop sm kbID versionID with
    | (n, some _) => n
    | (n, none) => n.markDone kbID versionID
  else n

/-- The paths by which a node reclaims a version: as the one that broadcasts it, as a
receiver, or by its own retry. -/
inductive Path
  | broadcast
  | deleteVersionData
  | retry
deriving DecidableEq

def reclaim (sm : StateMachine) (kbID : String) (versionID : Nat) (n : Node) : Path → Node
  | .broadcast => (n.drop sm kbID versionID).1
  | .deleteVersionData => (n.deleteVersionData sm kbID versionID).1
  | .retry => n.retryPendingDeletion sm kbID versionID

def reclaimAll (sm : StateMachine) (kbID : String) (versionID : Nat) (n : Node)
    (paths : List Path) : Node :=
  paths.foldl (reclaim sm kbID versionID) n

end Node

/-- A version other than the reclaimed one that is in the metadata and not being deleted. -/
def Survives (sm : StateMachine) (kbID : String) (versionID w : Nat) : Prop :=
  ∃ live, liveVersionIDs sm kbID versionID = .ok live ∧ w ∈ live

namespace Node

/-- What a document reads as on the node; a control node reads nothing. -/
def readAt (n : Node) (kbID docID : String) (w : Nat) : Option (Except Error String) :=
  n.stores.map fun st => st.docStore.readAt kbID docID w

variable {kbID : String} {v : Nat} {n : Node}

@[simp]
lemma note_stores : (n.note kbID v).stores = n.stores := by
  unfold note
  split <;> rfl

@[simp]
lemma markDone_stores : (n.markDone kbID v).stores = n.stores := by
  unfold markDone
  split <;> rfl

lemma drop_stores (sm : StateMachine) (n : Node) (kbID : String) (v : Nat) :
    (n.drop sm kbID v).1.stores = n.stores.map fun st => (dropVersionStorage sm st kbID v).1 := by
  unfold drop
  cases hstores : n.stores with
  | none => exact hstores
  | some st => rfl

lemma deleteVersionData_stores (sm : StateMachine) (n : Node) (kbID : String) (v : Nat) :
    (n.deleteVersionData sm kbID v).1.stores =
      n.stores.map fun st => (dropVersionStorage sm st kbID v).1 := by
  have hdrop := drop_stores sm (n.note kbID v) kbID v
  rw [note_stores] at hdrop
  unfold deleteVersionData
  cases hresult : (n.note kbID v).drop sm kbID v with
  | mk n' err =>
    rw [hresult] at hdrop
    cases err with
    | some e => exact hdrop
    | none => exact markDone_stores.trans hdrop

lemma reclaim_stores (sm : StateMachine) (kbID : String) (v : Nat) (n : Node) (path : Path) :
    (n.reclaim sm kbID v path).stores = n.stores ∨
      (n.reclaim sm kbID v path).stores =
        n.stores.map fun st => (dropVersionStorage sm st kbID v).1 := by
  cases path with
  | broadcast => exact .inr (drop_stores sm n kbID v)
  | deleteVersionData => exact .inr (deleteVersionData_stores sm n kbID v)
  | retry =>
  unfold reclaim retryPendingDeletion
  dsimp only
  split
  · refine .inr ?_
    have hdrop := drop_stores sm n kbID v
    cases hresult : n.drop sm kbID v with
    | mk n' err =>
      rw [hresult] at hdrop
      cases err with
      | some e => exact hdrop
      | none => exact markDone_stores.trans hdrop
  · exact .inl rfl

/-- Stores whose records are those of the first, the version's own perhaps gone. -/
def Dropped (kbID : String) (v : Nat) (st st' : Stores) : Prop :=
  st'.docStore = st.docStore ∨ (v ≠ 0 ∧ st'.docStore = st.docStore.deleteByVersion kbID v)

lemma Dropped.trans {st st' st'' : Stores} (h : Dropped kbID v st st')
    (h' : Dropped kbID v st' st'') : Dropped kbID v st st'' := by
  obtain hsame | ⟨hne, hcut⟩ := h
  · rwa [Dropped, hsame] at h'
  obtain hsame' | ⟨-, hcut'⟩ := h'
  · exact .inr ⟨hne, hsame'.trans hcut⟩
  · refine .inr ⟨hne, ?_⟩
    rw [hcut', hcut, DocStore.deleteByVersion_again]

/-- However often and by whatever paths a node reclaims the version. -/
lemma reclaimAll_dropped (sm : StateMachine) (kbID : String) (v : Nat) (paths : List Path)
    (n : Node) : (n.stores = none ∧ (n.reclaimAll sm kbID v paths).stores = none) ∨
      ∃ st st', n.stores = some st ∧ (n.reclaimAll sm kbID v paths).stores = some st' ∧
        Dropped kbID v st st' := by
  induction paths generalizing n with
  | nil =>
    cases hstores : n.stores with
    | none => exact .inl ⟨rfl, hstores⟩
    | some st => exact .inr ⟨st, st, rfl, hstores, .inl rfl⟩
  | cons path paths ih =>
  have hrest := ih (n.reclaim sm kbID v path)
  obtain hsame | hdrop := reclaim_stores sm kbID v n path
  · rwa [hsame] at hrest
  rw [hdrop] at hrest
  cases hstores : n.stores with
  | none =>
    rw [hstores] at hrest
    obtain ⟨-, hnone⟩ | ⟨st, st', hst, -⟩ := hrest
    · exact .inl ⟨rfl, hnone⟩
    · cases hst
  | some st =>
    rw [hstores] at hrest
    obtain ⟨hst, -⟩ | ⟨st₁, st', hst, hst', hdropped⟩ := hrest
    · cases hst
    cases hst
    refine .inr ⟨st, st', rfl, hst', Dropped.trans ?_ hdropped⟩
    exact dropVersionStorage_docStore sm st kbID v

lemma latest_dropped {f : Nat → Option Value} {w : Nat} (hne : v ≠ 0)
    (hkey : latestKey f w = some v) : latest (Function.update f v none) w = latest f (v - 1) := by
  obtain ⟨k, rfl⟩ := Nat.exists_eq_succ_of_ne_zero hne
  exact latest_update_none_of_key hkey

end Node

/-- A node's reclaim of a version, by every path and any number of times, leaves what the
surviving versions read unchanged exactly if none of them reads a record of the version that
differs from the one below it. -/
theorem reclaim_frame_iff (sm : StateMachine) (n : Node) (kbID : String) (v : Nat) :
    (∀ paths docID w, Survives sm kbID v w →
        (n.reclaimAll sm kbID v paths).readAt kbID docID w = n.readAt kbID docID w) ↔
      ∀ st ∈ n.stores, ∀ docID w, Survives sm kbID v w →
        st.docStore.visibleVersionOf kbID docID w = some v →
        st.docStore.db kbID docID v = latest (st.docStore.db kbID docID) (v - 1) := by
  constructor
  · intro hframe st hst docID w hsurvives hkey
    by_cases hne : v = 0
    · subst hne
      rw [latest_of_key (latestKey_of_le hkey (Nat.le_refl 0) (Nat.zero_le w))]
    have hread := hframe [.broadcast] docID w hsurvives
    obtain ⟨live, hlive, -⟩ := hsurvives
    have hst : n.stores = some st := hst
    have hdrop : ((n.reclaimAll sm kbID v [.broadcast]).stores) =
        some (dropVersionStorage sm st kbID v).1 := by
      have hstores := Node.drop_stores sm n kbID v
      rwa [hst] at hstores
    simp only [Node.readAt, hdrop, hst, Option.map_some, Option.some.injEq] at hread
    rw [DocStore.readAt_eq_iff, dropVersionStorage_ok st hlive hne,
      DocStore.deleteByVersion_self, Node.latest_dropped hne hkey, latest_of_key hkey] at hread
    exact hread.symm
  · intro hcond paths docID w hsurvives
    obtain ⟨hnone, hnone'⟩ | ⟨st, st', hst, hst', hdropped⟩ :=
      Node.reclaimAll_dropped sm kbID v paths n
    · simp only [Node.readAt, hnone, hnone']
    simp only [Node.readAt, hst, hst', Option.map_some, Option.some.injEq]
    obtain hsame | ⟨hne, hcut⟩ := hdropped
    · rw [hsame]
    rw [DocStore.readAt_eq_iff, hcut, DocStore.deleteByVersion_self]
    by_cases hkey : latestKey (st.docStore.db kbID docID) w = some v
    · rw [Node.latest_dropped hne hkey, latest_of_key hkey]
      exact (hcond st hst docID w hsurvives hkey).symm
    · exact latest_update_none hkey

/-- Three versions of a chain after the second was marked for deletion alone. -/
def splicedMetadata : StateMachine :=
  ([.createKB { kbID := "kb" }, .createVersion "kb" 0 "", .markDataDurable 1,
    .createVersion "kb" 1 "", .markDataDurable 2, .updateVersionStatus 2 .ready 0,
    .createVersion "kb" 2 "", .markDataDurable 3, .updateVersionStatus 3 .ready 0,
    .markVersionDeleting "kb" 2 .single] : List Command).foldl
    (fun sm cmd => (sm.apply 0 cmd).1) (newStateMachine 8 "epoch")

/-- A storage node with the document as the first version added it and the second changed it. -/
def storageNode : Node where
  stores := some { Stores.empty with
    docStore := (DocStore.empty.write "kb" "d" 1 (some "a")).write "kb" "d" 2 (some "b") }
  tombstones _ := none

/-- The deletion of the second version makes the third read the first one's content. -/
theorem reclaim_uncovers : Survives splicedMetadata "kb" 2 3 ∧
    storageNode.readAt "kb" "d" 3 = some (.ok "b") ∧
    (storageNode.reclaimAll splicedMetadata "kb" 2 [.deleteVersionData]).readAt "kb" "d" 3 =
      some (.ok "a") := by
  refine ⟨⟨[1, 3], ?_, ?_⟩, ?_, ?_⟩
  · decide +kernel
  · decide
  all_goals decide +kernel

end stratum.plane
