import Stratum.Coordinator.Write

namespace stratum.coordinator

open stratum.metadata stratum.docstore stratum.chunkdoc List

/-- The versions a query can still name, the one being reclaimed excepted. -/
def liveVersionIDs (sm : StateMachine) (kbID : String) (exceptVersionID : Nat) :
    Except Error (List Nat) :=
  match sm.listVersions kbID with
  | .error e => .error e
  | .ok versions =>
    .ok ((versions.filter fun v => ¬ v.deleting ∧ v.versionID ≠ exceptVersionID).map (·.versionID))

/-- Whether a document resolves to some content in one of the versions. -/
def docReadableFromAny (ds : DocStore) (kbID : String) (live : List Nat) (docID : String) : Bool :=
  live.any fun v =>
    match ds.readAt kbID docID v with
    | .error _ => false
    | .ok content => content ≠ ""

/-- A chunk is an orphan if it has documents and none of them is readable any more. -/
def isOrphanChunk (st : Stores) (kbID : String) (live : List Nat) (chunkID : String) : Bool :=
  let docIDs := st.chunkDocMapper.listDocIDs kbID chunkID
  docIDs.Nonempty ∧ ∀ docID ∈ docIDs, docReadableFromAny st.docStore kbID live docID = false

/-- Reclaims the chunks whose last live referent the version was. Whether a chunk is an
orphan depends on its own pairs only, so the source's loop removes the orphans as a set. -/
def reclaimVersionChunks (sm : StateMachine) (st : Stores) (kbID : String) (versionID : Nat) :
    Stores × Option Error :=
  if versionID = 0 then
    (st, some { detail := s!"chunk-gc: reclaim version chunks {kbID}: invalid version id {versionID}" })
  else
    let docIDs := st.versionDocList.listDocIDs kbID versionID
    let chunkIDs := st.chunkDocMapper.listChunkIDsByDocs kbID docIDs
    if chunkIDs = ∅ then (st, none)
    else
      match liveVersionIDs sm kbID versionID with
      | .error e =>
        (st, some { e with
          detail := s!"chunk-gc: live versions of {kbID} while reclaiming v{versionID}" })
      | .ok live =>
        let orphans := chunkIDs.filter fun chunkID => isOrphanChunk st kbID live chunkID
        ({ st with
            chunkDocMapper := st.chunkDocMapper.deleteChunks kbID orphans
            chunkStore := st.chunkStore.deleteChunks kbID orphans }, none)

/-- The smallest version above `versionID` that is not being deleted, or `0`. -/
def visibilityAnchor (sm : StateMachine) (kbID : String) (versionID : Nat) : Except Error Nat :=
  match sm.listVersions kbID with
  | .error e => .error { e with detail := s!"list versions of {kbID}" }
  | .ok versions =>
    .ok (versions.foldl (fun anchor v =>
      if v.deleting ∨ v.versionID ≤ versionID then anchor
      else if anchor = 0 ∨ v.versionID < anchor then v.versionID else anchor) 0)

/-- `LocalVersionDropper.DropVersion`: the chunks the version was the last referent of, its
document set, then the records no surviving later version reads. -/
def dropVersion (sm : StateMachine) (st : Stores) (kbID : String) (versionID : Nat) :
    Stores × Option Error :=
  match reclaimVersionChunks sm st kbID versionID with
  | (st, some e) => (st, some { e with detail := "ReclaimVersionChunks: " ++ e.detail })
  | (st, none) =>
    let st := { st with versionDocList := st.versionDocList.deleteByVersion kbID versionID }
    match visibilityAnchor sm kbID versionID with
    | .error e => (st, some e)
    | .ok anchor =>
      ({ st with
          docStore := st.docStore.deleteByVersionExceptVisibleFrom kbID versionID anchor }, none)

variable (sm : StateMachine) (st : Stores) (kbID : String) (versionID : Nat)

lemma reclaimVersionChunks_records :
    (reclaimVersionChunks sm st kbID versionID).1.docStore = st.docStore ∧
      (reclaimVersionChunks sm st kbID versionID).1.versionDocList = st.versionDocList := by
  unfold reclaimVersionChunks
  dsimp only
  split
  · exact ⟨rfl, rfl⟩
  split
  · exact ⟨rfl, rfl⟩
  · split <;> exact ⟨rfl, rfl⟩

variable (kbID' : String)

lemma reclaimVersionChunks_pairs :
    (reclaimVersionChunks sm st kbID versionID).1.chunkDocMapper.pairs kbID' ⊆
      st.chunkDocMapper.pairs kbID' := by
  unfold reclaimVersionChunks
  dsimp only
  split
  · exact Finset.Subset.refl _
  split
  · exact Finset.Subset.refl _
  split
  · exact Finset.Subset.refl _
  dsimp only [ChunkDocMapper.deleteChunks]
  by_cases hkb : kbID' = kbID
  · subst hkb
    rw [Function.update_self]
    exact Finset.filter_subset _ _
  · rw [Function.update_of_ne hkb]

lemma dropVersion_pairs : (dropVersion sm st kbID versionID).1.chunkDocMapper.pairs kbID' ⊆
      st.chunkDocMapper.pairs kbID' := by
  unfold dropVersion
  have hsub := reclaimVersionChunks_pairs sm st kbID versionID kbID'
  cases hchunks : reclaimVersionChunks sm st kbID versionID with
  | mk st' err =>
    rw [hchunks] at hsub
    cases err with
    | some e => exact hsub
    | none =>
      dsimp only
      split <;> exact hsub

lemma foldl_visibilityAnchor (versions : List VersionMeta) (start : Nat) :
    let anchor := versions.foldl (fun anchor v =>
      if v.deleting ∨ v.versionID ≤ versionID then anchor
      else if anchor = 0 ∨ v.versionID < anchor then v.versionID else anchor) start
    (anchor = start ∨ versionID < anchor ∧
        ∃ v ∈ versions, v.deleting = false ∧ v.versionID = anchor) ∧
      (start ≠ 0 → anchor ≠ 0 ∧ anchor ≤ start) ∧
      ∀ v ∈ versions, v.deleting = false → versionID < v.versionID →
        anchor ≠ 0 ∧ anchor ≤ v.versionID := by
  induction versions generalizing start with
  | nil => exact ⟨.inl rfl, fun h => ⟨h, le_rfl⟩, nofun⟩
  | cons v versions ih =>
  rw [foldl_cons]
  by_cases hskip : v.deleting = true ∨ v.versionID ≤ versionID
  · rw [if_pos hskip]
    obtain ⟨hfound, hle, hall⟩ := ih start
    refine ⟨hfound.imp_right (And.imp_right fun ⟨u, hu, h⟩ => ⟨u, .tail v hu, h⟩), hle, ?_⟩
    intro u hu hdel hlt
    obtain rfl | hu := mem_cons.mp hu
    · obtain hdel' | hle' := hskip
      · rw [hdel] at hdel'
        cases hdel'
      · omega
    · exact hall u hu hdel hlt
  rw [if_neg hskip]
  obtain ⟨hdel, hv⟩ := not_or.mp hskip
  by_cases hless : start = 0 ∨ v.versionID < start
  · rw [if_pos hless]
    obtain ⟨hfound, hle, hall⟩ := ih v.versionID
    have hbest := hle (by omega)
    refine ⟨.inr ?_, fun hne => ⟨hbest.1, by omega⟩, ?_⟩
    · obtain heq | ⟨habove, u, hu, h⟩ := hfound
      · exact ⟨by omega, v, mem_cons_self, Bool.not_eq_true _ ▸ hdel, heq.symm⟩
      · exact ⟨habove, u, .tail v hu, h⟩
    intro u hu hdel hlt
    obtain rfl | hu := mem_cons.mp hu
    · exact hbest
    · exact hall u hu hdel hlt
  · rw [if_neg hless]
    obtain ⟨hfound, hle, hall⟩ := ih start
    have hbest := hle (by omega)
    refine ⟨hfound.imp_right (And.imp_right fun ⟨u, hu, h⟩ => ⟨u, .tail v hu, h⟩), hle, ?_⟩
    intro u hu hdel hlt
    obtain rfl | hu := mem_cons.mp hu
    · exact ⟨hbest.1, by omega⟩
    · exact hall u hu hdel hlt

/-- The versions of a knowledge base that are not being deleted. -/
def surviving (sm : StateMachine) (kbID : String) : Set Nat :=
  {w | w ∈ sm.versionsByKB kbID ∧ (sm.version w).deleting = false}

lemma visibilityAnchor_isAnchor {sm : StateMachine} {kbID : String} {versionID anchor : Nat}
    (hanchor : visibilityAnchor sm kbID versionID = .ok anchor)
    (hid : ∀ w ∈ sm.versionsByKB kbID, (sm.version w).versionID = w) :
    DocStore.IsAnchor (surviving sm kbID) versionID anchor := by
  unfold visibilityAnchor StateMachine.listVersions at hanchor
  cases hkb : sm.kbs kbID with
  | none =>
    rw [hkb] at hanchor
    cases hanchor
  | some kb =>
  rw [hkb] at hanchor
  cases hanchor
  obtain ⟨hfound, -, hall⟩ :=
    foldl_visibilityAnchor versionID ((sm.versionsByKB kbID).map sm.version) 0
  have hleast : ∀ w ∈ surviving sm kbID, versionID < w → _ := fun w hw hlt =>
    hid w hw.1 ▸ hall _ (mem_map_of_mem hw.1) hw.2 ((hid w hw.1).symm ▸ hlt)
  obtain hzero | ⟨habove, v, hv, hdel, heq⟩ := hfound
  · refine .inl ⟨hzero, fun w hw => ?_⟩
    by_contra hlt
    exact (hleast w hw (by omega)).1 hzero
  obtain ⟨w, hw, rfl⟩ := mem_map.mp hv
  refine .inr ⟨habove, ?_, fun u hu hlt => (hleast u hu hlt).2⟩
  rw [← heq, hid w hw]
  exact ⟨hw, hdel⟩

lemma dropVersion_records :
    ((dropVersion sm st kbID versionID).1.versionDocList = st.versionDocList ∨
      (dropVersion sm st kbID versionID).1.versionDocList =
        st.versionDocList.deleteByVersion kbID versionID) ∧
    ((dropVersion sm st kbID versionID).1.docStore = st.docStore ∨
      ∃ anchor, visibilityAnchor sm kbID versionID = .ok anchor ∧
        (dropVersion sm st kbID versionID).1.docStore =
          st.docStore.deleteByVersionExceptVisibleFrom kbID versionID anchor) := by
  unfold dropVersion
  obtain ⟨hdocs, hlist⟩ := reclaimVersionChunks_records sm st kbID versionID
  cases hchunks : reclaimVersionChunks sm st kbID versionID with
  | mk st' err =>
    rw [hchunks] at hdocs hlist
    cases err with
    | some e => exact ⟨.inl hlist, .inl hdocs⟩
    | none =>
    dsimp only
    cases hanchor : visibilityAnchor sm kbID versionID with
    | error e => exact ⟨.inr (by rw [hlist]), .inl hdocs⟩
    | ok anchor => exact ⟨.inr (by rw [hlist]), .inr ⟨anchor, rfl, by rw [hdocs]⟩⟩

end stratum.coordinator
