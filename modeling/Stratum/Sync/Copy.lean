import Stratum.Sync.Push

namespace stratum.sync

open stratum.coordinator stratum.docstore stratum.versiondoc stratum.chunkdoc

/-- A node has a version's whole record set as the source has it: the document set, the records
written at the version, the chunk mappings of the documents and the vectors of those chunks. -/
@[mk_iff]
structure HoldsCopy (src st : Stores) (kbID : String) (v : Nat) : Prop where
  docs : src.versionDocList.listDocIDs kbID v ⊆ st.versionDocList.listDocIDs kbID v
  records : ∀ docID ∈ src.versionDocList.listDocIDs kbID v, ∀ x ∈ src.docStore.db kbID docID v,
    st.docStore.db kbID docID v = some x
  pairs : ∀ p ∈ src.chunkDocMapper.pairs kbID, p.2 ∈ src.versionDocList.listDocIDs kbID v →
    p ∈ st.chunkDocMapper.pairs kbID
  vectors : ∀ c ∈ src.chunkDocMapper.listChunkIDsByDocs kbID
      (src.versionDocList.listDocIDs kbID v), c ∈ src.chunkStore.vectors kbID →
    c ∈ st.chunkStore.vectors kbID

instance (src st : Stores) (kbID : String) (v : Nat) : Decidable (HoldsCopy src st kbID v) :=
  decidable_of_iff' _ (holdsCopy_iff ..)

variable {src st : Stores} {kbID : String} {v : Nat}

lemma HoldsCopy.refl (src : Stores) (kbID : String) (v : Nat) : HoldsCopy src src kbID v :=
  ⟨Finset.Subset.refl _, fun _ _ _ hx => hx, fun _ hp _ => hp, fun _ _ hc => hc⟩

lemma HoldsCopy.of_empty (hempty : src.versionDocList.listDocIDs kbID v = ∅) :
    HoldsCopy src st kbID v := by
  refine ⟨?_, ?_, ?_, ?_⟩
  all_goals simp [hempty]

lemma not_holdsCopy_empty (hne : src.versionDocList.listDocIDs kbID v ≠ ∅) :
    ¬ HoldsCopy src .empty kbID v := fun h => hne (Finset.subset_empty.mp h.docs)

lemma HoldsCopy.land {x : Delivery} (h : HoldsCopy src (x.land .empty) kbID v) (st : Stores) :
    HoldsCopy src (x.land st) kbID v := by
  constructor
  · intro docID hdocID
    have hin := h.docs hdocID
    simp only [Delivery.land, Stores.empty, VersionDocList.empty, Finset.empty_union] at hin
    exact Finset.mem_union_right _ hin
  · intro docID hdocID y hy
    have hin := h.records docID hdocID y hy
    simp only [Delivery.land, Stores.empty, DocStore.empty, Option.or_none] at hin
    simp only [Delivery.land, hin, Option.some_or]
  · intro p hp hdoc
    have hin := h.pairs p hp hdoc
    simp only [Delivery.land, Stores.empty, ChunkDocMapper.empty, Finset.empty_union] at hin
    exact Finset.mem_union_right _ hin
  intro c hc hvector
  have hin := h.vectors c hc hvector
  simp only [Delivery.land, Stores.empty, ChunkStore.empty, Finset.empty_union] at hin
  exact Finset.mem_union_right _ hin

lemma receive_of_applies {h : PushHandler} {r : Receiving} {entries : List SyncEntry}
    (happlies : ∀ entry ∈ entries, entry.applies = true) : (h.receive r entries).2 = none := by
  induction entries generalizing r with
  | nil => rfl
  | cons entry entries ih =>
  have hrest := fun e he => happlies e (List.mem_cons_of_mem entry he)
  rw [PushHandler.receive]
  split
  · exact ih hrest
  · rw [applyEntry_of_applies _ (happlies entry List.mem_cons_self)]
    exact ih hrest

/-- A handler answers a complete stream of records that can be applied, deleted or not. -/
lemma pushVersionData_of_applies (h : PushHandler) (stores : Stores) {entries : List SyncEntry}
    (happlies : ∀ entry ∈ entries, entry.applies = true) :
    ∃ r response, h.pushVersionData stores entries none = (r, .ok response) := by
  have hnone := @receive_of_applies h { stores } entries happlies
  unfold PushHandler.pushVersionData
  cases hreceive : h.receive { stores } entries with
  | mk r err =>
    rw [hreceive] at hnone
    cases hnone
    dsimp only
    split
    all_goals exact ⟨_, _, rfl⟩

end stratum.sync
