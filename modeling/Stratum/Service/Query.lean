import Mathlib.Data.Finset.Sort
import Mathlib.Data.String.Basic
import Stratum.Coordinator.Write

namespace stratum.service

open stratum.metadata stratum.coordinator stratum.chunkdoc

def maxQueryTopK : Nat := 1024

def emptyDocIDSetHash : String :=
  "e3b0c44298fc1c149afbf4c8996fb92427ae41e4649b934ca495991b7852b855"

/-- A query that names its version. -/
structure QueryRequest (σ : Type) where
  kbID : String
  versionID : Nat
  topK : Int
  threshold : σ

structure SearchResult (σ : Type) where
  chunkID : String
  score : σ
deriving DecidableEq

structure QueryResult (σ : Type) where
  docID : String
  content : String
  score : σ
deriving DecidableEq

variable {σ : Type} [LT σ] [DecidableLT σ]

/-- The hits whose scores a document is given: above the threshold, of a chunk mapped to the
document, for a document of the version's set. The version's filter has no false negatives,
so the set decides alone. -/
def docHits (mapper : ChunkDocMapper) (kbID : String) (docs : Finset String) (threshold : σ)
    (searchResults : List (SearchResult σ)) (docID : String) : List (SearchResult σ) :=
  if docID ∈ docs then
    searchResults.filter fun r => ¬ r.score < threshold ∧ docID ∈ mapper.listDocIDs kbID r.chunkID
  else []

/-- The documents with a hit, by their aggregated scores, best first. -/
def rank (mapper : ChunkDocMapper) (kbID : String) (docs : Finset String) (threshold : σ)
    (aggregate : List σ → σ) (searchResults : List (SearchResult σ)) : List (String × σ) :=
  let matched := docs.sort.filter fun docID =>
    docHits mapper kbID docs threshold searchResults docID ≠ []
  let candidates := matched.map fun docID =>
    (docID, aggregate ((docHits mapper kbID docs threshold searchResults docID).map (·.score)))
  candidates.mergeSort fun a b => ¬ a.2 < b.2

/-- The first `topK` candidates whose content can be read at the version. -/
def readTop (st : Stores) (kbID : String) (versionID topK : Nat) (candidates : List (String × σ)) :
    List (QueryResult σ) :=
  (candidates.filterMap fun (docID, score) =>
    match st.docStore.readAt kbID docID versionID with
    | .error _ => none
    | .ok content => some { docID, content, score }).take topK

/-- The version's document set, refused if it is not the committed one. -/
def lookupDocSet (svc : Services) (st : Stores) (kbID : String) (versionID : Nat)
    (digest : String) : Except Error (Finset String) :=
  let docs := st.versionDocList.listDocIDs kbID versionID
  if digest ≠ "" ∧ svc.computeDocIDSetHash docs ≠ digest then
    .error (Sentinel.indexNotReady.wrap
      s!"{kbID}: version {versionID}'s document set does not match the committed digest on this replica")
  else if docs = ∅ ∧ digest ≠ emptyDocIDSetHash then
    .error (Sentinel.indexNotReady.wrap
      (s!"{kbID}: version {versionID}'s document set is not on this replica yet "
        ++ "(its committed digest is not the empty set's)"))
  else .ok docs

/-- `Query`, from the version's metadata to the results. `searched` is what the index manager
answers for the version; `none` is that it cannot answer now. -/
def query (svc : Services) (sm : StateMachine) (st : Stores) (aggregate : List σ → σ)
    (req : QueryRequest σ) (searched : Option (Except Error (List (SearchResult σ)))) :
    Except Error (List (QueryResult σ)) :=
  let topK := req.topK
  if topK < 1 ∨ maxQueryTopK < topK then
    .error { detail := s!"query: top_k must be in [1, {maxQueryTopK}], got {topK}" }
  else
    match sm.getVersion req.kbID req.versionID with
    | .error e => .error e
    | .ok target =>
      let kbID := req.kbID
      let versionID := req.versionID
      let status := target.indexStatus.toString
      if target.dataStatus = .failedPermanent then
        .error (Sentinel.versionDataFailed.wrap
          (s!"{kbID}: version {versionID}'s data was declared lost, so it will never be queryable "
            ++ "(write it again under a new client_request_id)"))
      else if target.indexStatus = .pending ∧ target.dataStatus ≠ .durable then
        .error Sentinel.versionPending.err
      else if target.indexStatus = .failed ∨ target.indexStatus = .failedPermanent then
        .error (Sentinel.versionFailed.wrap s!"{kbID}: version {versionID}'s index is {status}")
      else
        match searched with
        | none => .error Sentinel.versionPending.err
        | some (.error e) =>
          -- Only a version that provably has no documents is answered with nothing.
          if e.is .indexNotReady ∧ target.docIDSetHash = emptyDocIDSetHash then .ok []
          else .error e
        | some (.ok searchResults) =>
          match lookupDocSet svc st kbID versionID target.docIDSetHash with
          | .error e => .error e
          | .ok docs =>
            .ok (readTop st kbID versionID topK.toNat
              (rank st.chunkDocMapper kbID docs req.threshold aggregate searchResults))

variable {svc : Services} {sm : StateMachine} {st : Stores} {aggregate : List σ → σ}
  {req : QueryRequest σ} {searchResults : List (SearchResult σ)}

lemma mem_docHits {mapper : ChunkDocMapper} {kbID : String} {docs : Finset String}
    {threshold : σ} {docID : String} {r : SearchResult σ}
    (hr : r ∈ docHits mapper kbID docs threshold searchResults docID) :
    r ∈ searchResults ∧ (r.chunkID, docID) ∈ mapper.pairs kbID := by
  unfold docHits at hr
  split at hr
  · obtain ⟨hmem, hhit⟩ := List.mem_filter.mp hr
    exact ⟨hmem, ChunkDocMapper.mem_listDocIDs.mp (of_decide_eq_true hhit).2⟩
  · exact absurd hr List.not_mem_nil

omit [LT σ] [DecidableLT σ] in
lemma readAt_of_mem_readTop {kbID : String} {versionID topK : Nat}
    {candidates : List (String × σ)} {res : QueryResult σ}
    (hres : res ∈ readTop st kbID versionID topK candidates) :
    st.docStore.readAt kbID res.docID versionID = .ok res.content := by
  obtain ⟨⟨docID, score⟩, -, hread⟩ := List.mem_filterMap.mp (List.mem_of_mem_take hres)
  dsimp only at hread
  split at hread
  · cases hread
  next hcontent =>
  cases hread
  exact hcontent

lemma query_eq_ok {out : List (QueryResult σ)}
    (hquery : query svc sm st aggregate req (some (.ok searchResults)) = .ok out) :
    ∃ kb docs, sm.kbs req.kbID = some kb ∧
      out = readTop st req.kbID req.versionID req.topK.toNat
        (rank st.chunkDocMapper req.kbID docs req.threshold aggregate searchResults) := by
  unfold query at hquery
  dsimp only at hquery
  split at hquery
  · cases hquery
  split at hquery
  · cases hquery
  next hversion =>
  obtain ⟨kb, hkb⟩ : ∃ kb, sm.kbs req.kbID = some kb := by
    unfold StateMachine.getVersion at hversion
    cases hkb : sm.kbs req.kbID with
    | none =>
      rw [hkb] at hversion
      cases hversion
    | some kb => exact ⟨kb, rfl⟩
  split at hquery
  · cases hquery
  split at hquery
  · cases hquery
  split at hquery
  · cases hquery
  split at hquery
  · cases hquery
  next docs _ =>
  cases hquery
  exact ⟨kb, docs, hkb, rfl⟩

end stratum.service
