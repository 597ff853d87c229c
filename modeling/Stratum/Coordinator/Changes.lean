import Stratum.Coordinator.Write

namespace stratum

open stratum.docstore

/-- The value a change stores: an added or updated document's content, a deleted one's
tombstone. -/
def DocChange.value (change : DocChange) : Option String :=
  match change.op with
  | .add | .update => some change.content
  | .delete => none

variable {change : DocChange}

lemma DocChange.encodeValue_value_eq_content {text : String} :
    encodeValue change.value = .content text ↔ change.op ≠ .delete ∧ change.content = text := by
  unfold DocChange.value
  cases change.op <;> simp [encodeValue]

end stratum

namespace stratum.coordinator

open stratum.docstore

/-- The last change to a document in a list of changes. -/
def lastChange (changes : List DocChange) (docID : String) : Option DocChange :=
  (changes.filter (·.docID = docID)).getLast?

variable {changes : List DocChange} {docID : String}

@[simp]
lemma lastChange_nil : lastChange [] docID = none := rfl

lemma lastChange_append (xs ys : List DocChange) (docID : String) :
    lastChange (xs ++ ys) docID = (lastChange ys docID).or (lastChange xs docID) := by
  simp [lastChange]

lemma lastChange_singleton (change : DocChange) (docID : String) :
    lastChange [change] docID = if change.docID = docID then some change else none := by
  by_cases hdoc : change.docID = docID <;> simp [lastChange]

lemma lastChange_mem (hlast : lastChange changes docID = some change) :
    change ∈ changes ∧ change.docID = docID := by
  have hmem := List.mem_of_getLast? hlast
  simpa using hmem

lemma lastChange_eq_none_iff :
    lastChange changes docID = none ↔ ∀ change ∈ changes, change.docID ≠ docID := by
  simp [lastChange]

lemma lastChange_of_mem (hnodup : (changes.map (·.docID)).Nodup) (hmem : change ∈ changes) :
    lastChange changes change.docID = some change := by
  cases hlast : lastChange changes change.docID with
  | none => exact absurd rfl (lastChange_eq_none_iff.mp hlast change hmem)
  | some other =>
    obtain ⟨hother, hdoc⟩ := lastChange_mem hlast
    rw [List.inj_on_of_nodup_map hnodup hother hmem hdoc]

/-- A document is in the set after a change list if its last change keeps it, or if it was
there and is not changed. -/
lemma mem_applyChanges (docs : Finset String) (changes : List DocChange) (docID : String) :
    docID ∈ applyChanges docs changes ↔
      match lastChange changes docID with
      | none => docID ∈ docs
      | some change => change.op ≠ .delete := by
  induction changes using List.reverseRecOn with
  | nil => simp [applyChanges]
  | append_singleton changes change ih =>
  have hsnoc : applyChanges docs (changes ++ [change]) =
      applyChanges (applyChanges docs changes) [change] := List.foldl_append
  rw [hsnoc, lastChange_append, lastChange_singleton]
  generalize applyChanges docs changes = before at ih ⊢
  by_cases hdoc : change.docID = docID
  · subst hdoc
    cases hop : change.op <;> simp [applyChanges, hop]
  · have hne : docID ≠ change.docID := Ne.symm hdoc
    cases hop : change.op <;> simp [applyChanges, hop, hdoc, hne, ih]

lemma applyChanges_mono {docs docs' : Finset String} (hsub : docs ⊆ docs')
    (changes : List DocChange) : applyChanges docs changes ⊆ applyChanges docs' changes := by
  intro docID hmem
  rw [mem_applyChanges] at hmem ⊢
  split at hmem
  · exact hsub hmem
  · exact hmem

/-- The document set of a whole history of changes. -/
def docSet (changes : List DocChange) : Finset String := applyChanges ∅ changes

lemma docSet_append (xs ys : List DocChange) : docSet (xs ++ ys) = applyChanges (docSet xs) ys := by
  simp [docSet, applyChanges]

lemma mem_docSet : docID ∈ docSet changes ↔
    ∃ change, lastChange changes docID = some change ∧ change.op ≠ .delete := by
  rw [docSet, mem_applyChanges]
  cases lastChange changes docID with
  | none | some => simp

section Writes

variable (svc : Services) (kbID : String) (versionID : Nat) (kbMeta : KnowledgeBaseMeta)

lemma writeOneChange_docStore (st : Stores) (change : DocChange) :
    (writeOneChange svc kbID versionID kbMeta st change).docStore =
      st.docStore.write kbID change.docID versionID change.value := by
  unfold writeOneChange DocChange.value writeDocument
  cases change.op with
  | add | update =>
    dsimp only
    split <;> rfl
  | delete => rfl

lemma writeOneChange_versionDocList (st : Stores) (change : DocChange) :
    (writeOneChange svc kbID versionID kbMeta st change).versionDocList = st.versionDocList := by
  unfold writeOneChange writeDocument
  cases change.op with
  | add | update =>
    dsimp only
    split <;> rfl
  | delete => rfl

lemma writeDocuments_versionDocList (st : Stores) (changes : List DocChange) :
    (writeDocuments svc kbID versionID kbMeta st changes).versionDocList = st.versionDocList := by
  induction changes generalizing st with
  | nil => rfl
  | cons change changes ih =>
    rw [writeDocuments, List.foldl_cons, ← writeDocuments, ih, writeOneChange_versionDocList]

lemma mem_writeOneChange_pairs {st : Stores} {kbID' : String}
    (hp : p ∈ (writeOneChange svc kbID versionID kbMeta st change).chunkDocMapper.pairs kbID') :
    p ∈ st.chunkDocMapper.pairs kbID' ∨ (kbID' = kbID ∧ change.op ≠ .delete ∧
      change.docID = p.2 ∧ p.1 ∈ ((svc.split change.content kbMeta.chunking
        kbMeta.embedConfig.modelID).map (·.chunkID)).toFinset) := by
  have hdocument : p ∈ (writeDocument svc kbID versionID kbMeta st change).chunkDocMapper.pairs
      kbID' → p ∈ st.chunkDocMapper.pairs kbID' ∨ (kbID' = kbID ∧ change.docID = p.2 ∧
      p.1 ∈ ((svc.split change.content kbMeta.chunking
        kbMeta.embedConfig.modelID).map (·.chunkID)).toFinset) := by
    unfold writeDocument
    dsimp only
    split
    · exact .inl
    intro hin
    dsimp only [chunkdoc.ChunkDocMapper.writeMany] at hin
    by_cases hkb : kbID' = kbID
    · subst hkb
      rw [Function.update_self, Finset.mem_union, Finset.mem_image] at hin
      obtain hold | ⟨c, hc, rfl⟩ := hin
      · exact .inl hold
      · exact .inr ⟨rfl, rfl, hc⟩
    · rw [Function.update_of_ne hkb] at hin
      exact .inl hin
  unfold writeOneChange at hp
  cases hop : change.op with
  | add | update =>
    rw [hop] at hp
    obtain hold | ⟨hkb, hdoc, hc⟩ := hdocument hp
    · exact .inl hold
    · exact .inr ⟨hkb, by simp, hdoc, hc⟩
  | delete =>
    rw [hop] at hp
    exact .inl hp

lemma mem_writeDocuments_pairs {st : Stores} {changes : List DocChange} {kbID' : String}
    (hp : p ∈ (writeDocuments svc kbID versionID kbMeta st changes).chunkDocMapper.pairs kbID') :
    p ∈ st.chunkDocMapper.pairs kbID' ∨ (kbID' = kbID ∧ ∃ change ∈ changes, change.op ≠ .delete ∧
      change.docID = p.2 ∧ p.1 ∈ ((svc.split change.content kbMeta.chunking
        kbMeta.embedConfig.modelID).map (·.chunkID)).toFinset) := by
  induction changes generalizing st with
  | nil => exact .inl hp
  | cons change changes ih =>
  obtain hold | ⟨hkb, later, hlater, hrest⟩ := ih hp
  · obtain hold | ⟨hkb, hrest⟩ := mem_writeOneChange_pairs svc kbID versionID kbMeta hold
    · exact .inl hold
    · exact .inr ⟨hkb, change, List.mem_cons_self, hrest⟩
  · exact .inr ⟨hkb, later, List.mem_cons_of_mem _ hlater, hrest⟩

lemma writeDocuments_db (st : Stores) (changes : List DocChange) (kbID' docID : String) :
    (writeDocuments svc kbID versionID kbMeta st changes).docStore.db kbID' docID =
      match lastChange changes docID with
      | none => st.docStore.db kbID' docID
      | some change =>
        if kbID' = kbID then
          Function.update (st.docStore.db kbID docID) versionID (some (encodeValue change.value))
        else st.docStore.db kbID' docID := by
  induction changes using List.reverseRecOn with
  | nil => rfl
  | append_singleton changes change ih =>
  rw [writeDocuments, List.foldl_append, List.foldl_cons, List.foldl_nil, ← writeDocuments,
    writeOneChange_docStore, lastChange_append, lastChange_singleton]
  by_cases hkb : kbID' = kbID
  · subst hkb
    by_cases hdoc : change.docID = docID
    · subst hdoc
      rw [DocStore.write_self, ih]
      cases lastChange changes change.docID with
      | none | some => simp
    · rw [DocStore.write_of_ne _ fun h => hdoc h.2.symm, ih]
      simp [hdoc]
  · rw [DocStore.write_of_ne _ fun h => hkb h.1, ih]
    cases lastChange changes docID <;> by_cases hdoc : change.docID = docID <;> simp [hdoc, hkb]

end Writes

end stratum.coordinator
