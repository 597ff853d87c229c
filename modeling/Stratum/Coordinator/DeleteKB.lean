import Stratum.Metadata.Replay
import Stratum.Plane.Reclaim

namespace stratum.coordinator

open stratum.lib stratum.metadata stratum.docstore stratum.plane List

/-- Runs `fn` until it succeeds, at most `maxRetries` times more after a first failure. -/
def retryWithBackoff {σ : Type} (fn : σ → σ × Option Error) : Nat → σ → σ × Option Error
  | 0, s =>
    match fn s with
    | (s, none) => (s, none)
    | (s, some e) => (s, some { e with detail := "retry exhausted: " ++ e.detail })
  | maxRetries + 1, s =>
    match fn s with
    | (s, none) => (s, none)
    | (s, some _) => retryWithBackoff fn maxRetries s

/-- The control node's metadata and the storage nodes, all of them reachable. -/
structure Cluster where
  sm : StateMachine
  nodes : List Node

/-- `DropVersionData` of a control node: every storage node is told, the first failure is
reported. -/
def dropVersionData (sm : StateMachine) (nodes : List Node) (kbID : String) (versionID : Nat) :
    List Node × Option Error :=
  let answers := nodes.map fun n => n.deleteVersionData sm kbID versionID
  (answers.map Prod.fst, answers.findSome? fun answer => answer.2.map fun e =>
    { e with detail := "plane: DropVersionData: broadcast: " ++ e.detail })

/-- `BroadcastKBDropper.DropKnowledgeBase`: one reclaim for every version in the metadata; a
knowledge base the metadata does not know has nothing to reclaim. -/
def dropKnowledgeBase (sm : StateMachine) (kbID : String) (nodes : List Node) :
    List Node × Option Error :=
  match sm.listVersions kbID with
  | .error e =>
    if e.is .knowledgeBaseNotFound then (nodes, none)
    else (nodes, some { e with detail := s!"DropKnowledgeBase: list versions of {kbID}" })
  | .ok versions =>
    versions.foldl (fun (nodes, firstErr) v =>
      let (nodes, err) := dropVersionData sm nodes kbID v.versionID
      (nodes, firstErr.or err)) (nodes, none)

/-- `Execute` of the delete coordinator on a control node whose own write-ahead records
succeed: the storage nodes reclaim, then the metadata goes. -/
def execute (maxRetries : Nat) (now : Int) (c : Cluster) (kbID : String) :
    Cluster × Option Error :=
  match retryWithBackoff (dropKnowledgeBase c.sm kbID) maxRetries c.nodes with
  | (nodes, some e) =>
    ({ sm := (c.sm.apply now (.markKBDeleteFailed kbID)).1, nodes },
      some { e with detail := "DropKnowledgeBase: " ++ e.detail })
  | (nodes, none) =>
    let (sm, result) := c.sm.apply now (.removeKBMeta kbID)
    ({ sm, nodes }, result.err)

/-- Nothing of the knowledge base is left in the stores. -/
structure Erased (kbID : String) (st : Stores) : Prop where
  records : ∀ docID v, st.docStore.db kbID docID v = none
  docs : ∀ v, st.versionDocList.listDocIDs kbID v = ∅
  pairs : st.chunkDocMapper.pairs kbID = ∅
  vectors : st.chunkStore.vectors kbID = ∅

def knownVersions (sm : StateMachine) (kbID : String) : List Nat :=
  match sm.listVersions kbID with
  | .error _ => []
  | .ok versions => versions.map (·.versionID)

/-- The reclaim of version `u`, with everything older gone, takes the chunk with it: `u` lists
a document of the chunk, and no surviving version reads a text of such a document that is
recorded at `u` or later. -/
def Cleared (sm : StateMachine) (st : Stores) (kbID : String) (u : Nat) (chunkID : String) : Prop :=
  (∃ docID ∈ st.versionDocList.listDocIDs kbID u, (chunkID, docID) ∈ st.chunkDocMapper.pairs kbID) ∧
    ∀ docID, (chunkID, docID) ∈ st.chunkDocMapper.pairs kbID → ∀ w, Survives sm kbID u w →
      ∀ k, u ≤ k → st.docStore.visibleVersionOf kbID docID w = some k →
        ∀ text, st.docStore.db kbID docID k = some (.content text) → text = ""

/-- What a storage node may hold for its knowledge base to be erased by the versions the
metadata knows: records and document sets of those versions only, chunks that one of their
reclaims takes along, and vectors of mapped chunks only. -/
structure Erasable (sm : StateMachine) (kbID : String) (st : Stores) : Prop where
  records : ∀ docID v, st.docStore.db kbID docID v ≠ none → v ∈ knownVersions sm kbID
  docs : ∀ v, st.versionDocList.listDocIDs kbID v ≠ ∅ → v ∈ knownVersions sm kbID
  pairs : ∀ chunkID docID, (chunkID, docID) ∈ st.chunkDocMapper.pairs kbID →
    ∃ u ∈ knownVersions sm kbID, Cleared sm st kbID u chunkID
  vectors : ∀ chunkID ∈ st.chunkStore.vectors kbID,
    ∃ docID, (chunkID, docID) ∈ st.chunkDocMapper.pairs kbID

/-- The chunks the reclaim of a version takes along in a given state of the stores. -/
def Orphaned (st : Stores) (kbID : String) (live : List Nat) (v : Nat) (chunkID : String) : Prop :=
  chunkID ∈ st.chunkDocMapper.listChunkIDsByDocs kbID (st.versionDocList.listDocIDs kbID v) ∧
    isOrphanChunk st kbID live chunkID = true

section

variable {sm : StateMachine} {st : Stores} {kbID : String} {v : Nat} {live : List Nat}

lemma docReadableFromAny_eq_false_iff {ds : DocStore} {docID : String} :
    docReadableFromAny ds kbID live docID = false ↔
      ∀ w ∈ live, ∀ text, latest (ds.db kbID docID) w = some (.content text) → text = "" := by
  unfold docReadableFromAny
  rw [any_eq_false]
  refine forall₂_congr fun w _ => ?_
  simp only [← DocStore.readAt_eq_ok_iff]
  cases ds.readAt kbID docID w with
  | error | ok => simp

lemma isOrphanChunk_eq_true_iff {chunkID : String} : isOrphanChunk st kbID live chunkID = true ↔
      (∃ docID, (chunkID, docID) ∈ st.chunkDocMapper.pairs kbID) ∧
        ∀ docID, (chunkID, docID) ∈ st.chunkDocMapper.pairs kbID →
          docReadableFromAny st.docStore kbID live docID = false := by
  unfold isOrphanChunk
  rw [decide_eq_true_iff]
  simp [Finset.Nonempty]

lemma reclaimVersionChunks_mem (st : Stores) (hlive : liveVersionIDs sm kbID v = .ok live) (hne : v ≠ 0) :
    (∀ chunkID docID,
      (chunkID, docID) ∈ (reclaimVersionChunks sm st kbID v).1.chunkDocMapper.pairs kbID ↔
        (chunkID, docID) ∈ st.chunkDocMapper.pairs kbID ∧ ¬ Orphaned st kbID live v chunkID) ∧
    ∀ chunkID, chunkID ∈ (reclaimVersionChunks sm st kbID v).1.chunkStore.vectors kbID ↔
      chunkID ∈ st.chunkStore.vectors kbID ∧ ¬ Orphaned st kbID live v chunkID := by
  unfold reclaimVersionChunks Orphaned
  rw [if_neg hne]
  dsimp only
  split
  · next hempty =>
    rw [hempty]
    simp
  · rw [hlive]
    simp only [chunkdoc.ChunkDocMapper.deleteChunks, chunkdoc.ChunkStore.deleteChunks,
      Function.update_self, Finset.mem_filter, Finset.mem_sdiff, implies_true, and_self]

lemma dropVersionStorage_eq (hlive : liveVersionIDs sm kbID v = .ok live) (hne : v ≠ 0) :
    dropVersionStorage sm st kbID v =
      ({ (reclaimVersionChunks sm st kbID v).1 with
          docStore := st.docStore.deleteByVersion kbID v
          versionDocList := st.versionDocList.deleteByVersion kbID v }, none) := by
  have hok := reclaimVersionChunks_ok st hlive hne
  obtain ⟨hdocs, hlist⟩ := reclaimVersionChunks_records sm st kbID v
  unfold dropVersionStorage
  cases hchunks : reclaimVersionChunks sm st kbID v with
  | mk st' err =>
    rw [hchunks] at hok hdocs hlist
    dsimp only at hok hdocs hlist
    subst hok
    simp only [hdocs, hlist]

end

def dropVersions (sm : StateMachine) (kbID : String) (versions : List Nat) (st : Stores) : Stores :=
  versions.foldl (fun st v => (dropVersionStorage sm st kbID v).1) st

@[simp]
lemma dropVersions_nil (sm : StateMachine) (kbID : String) : dropVersions sm kbID [] = id := rfl

/-- How the stores stand after the reclaims of `pre`. Where the records are all of known
versions, what is left of the chunks follows from the stores at the start. -/
structure Progress (sm : StateMachine) (kbID : String) (st : Stores) (pre : List Nat)
    (st' : Stores) : Prop where
  records : ∀ docID k, st'.docStore.db kbID docID k =
    if k ∈ pre then none else st.docStore.db kbID docID k
  docs : ∀ k, st'.versionDocList.listDocIDs kbID k =
    if k ∈ pre then ∅ else st.versionDocList.listDocIDs kbID k
  pairs : (∀ docID k, st.docStore.db kbID docID k ≠ none → k ∈ knownVersions sm kbID) →
    ∀ chunkID docID, (chunkID, docID) ∈ st'.chunkDocMapper.pairs kbID ↔
      (chunkID, docID) ∈ st.chunkDocMapper.pairs kbID ∧ ∀ u ∈ pre, ¬ Cleared sm st kbID u chunkID
  vectors : (∀ docID k, st.docStore.db kbID docID k ≠ none → k ∈ knownVersions sm kbID) →
    ∀ chunkID, chunkID ∈ st'.chunkStore.vectors kbID ↔
      chunkID ∈ st.chunkStore.vectors kbID ∧ ∀ u ∈ pre, ¬ Cleared sm st kbID u chunkID

/-- What the metadata says about the versions it lists: oldest first, none of them `0`, and
the survivors of each reclaim can be told. -/
structure Listed (sm : StateMachine) (kbID : String) : Prop where
  ascending : (knownVersions sm kbID).Pairwise (· < ·)
  pos : ∀ v ∈ knownVersions sm kbID, v ≠ 0
  live : ∀ v ∈ knownVersions sm kbID, ∃ live, liveVersionIDs sm kbID v = .ok live

lemma listed_of_wellFormed {sm : StateMachine} (hwf : WellFormed sm) (hasc : Ascending sm)
    (kbID : String) : Listed sm kbID := by
  have hknown : knownVersions sm kbID = [] ∨
      (knownVersions sm kbID = sm.versionsByKB kbID ∧ ∃ vs, sm.listVersions kbID = .ok vs) := by
    unfold knownVersions StateMachine.listVersions
    cases sm.kbs kbID with
    | none => exact .inl rfl
    | some kb =>
    refine .inr ⟨?_, _, rfl⟩
    dsimp only
    rw [map_map]
    conv_rhs => rw [← map_id (sm.versionsByKB kbID)]
    refine map_congr_left fun v hv => ?_
    obtain ⟨m, hm, -⟩ := hwf.present hv
    simp [StateMachine.version, hm, hwf.id_eq hm]
  obtain hnil | ⟨heq, vs, hvs⟩ := hknown
  · constructor <;> simp [hnil]
  refine ⟨heq ▸ hasc kbID, ?_, ?_⟩
  · intro v hv
    obtain ⟨m, hm, -⟩ := hwf.present (heq ▸ hv)
    exact Nat.ne_of_gt (hwf.pos hm)
  intro v _
  unfold liveVersionIDs
  rw [hvs]
  exact ⟨_, rfl⟩

section

variable {sm : StateMachine} {st st' : Stores} {kbID : String} {pre post : List Nat} {v : Nat}

section

variable (hlisted : Listed sm kbID) (hprogress : Progress sm kbID st pre st')
  (hsplit : knownVersions sm kbID = pre ++ v :: post)

include hlisted hprogress hsplit

/-- In the middle of the reclaims, a record is left if its version is not older. -/
lemma Progress.records_from
    (hrecords : ∀ docID k, st.docStore.db kbID docID k ≠ none → k ∈ knownVersions sm kbID)
    (docID : String) : st'.docStore.db kbID docID =
      fun k => if k < v then none else st.docStore.db kbID docID k := by
  have hasc := hlisted.ascending
  rw [hsplit, pairwise_append, pairwise_cons] at hasc
  obtain ⟨-, ⟨hpost, -⟩, hpre⟩ := hasc
  funext k
  rw [hprogress.records]
  by_cases hk : k ∈ pre
  · rw [if_pos hk, if_pos (hpre k hk v mem_cons_self)]
  rw [if_neg hk]
  by_cases hlt : k < v
  · rw [if_pos hlt]
    by_contra hsome
    have hin := hrecords docID k hsome
    rw [hsplit, mem_append, mem_cons] at hin
    obtain hin | rfl | hin := hin
    · exact hk hin
    · exact lt_irrefl _ hlt
    · have hgt := hpost k hin
      omega
  · rw [if_neg hlt]

/-- The chunks that a reclaim takes along at its turn, told from the stores at the start. -/
lemma Progress.orphaned_iff
    (hrecords : ∀ docID k, st.docStore.db kbID docID k ≠ none → k ∈ knownVersions sm kbID)
    {live : List Nat} (hlive : liveVersionIDs sm kbID v = .ok live) (chunkID : String) :
    Orphaned st' kbID live v chunkID ↔
      (∀ u ∈ pre, ¬ Cleared sm st kbID u chunkID) ∧ Cleared sm st kbID v chunkID := by
  have hnew : v ∉ pre := by
    intro hin
    have hasc := hlisted.ascending
    rw [hsplit, pairwise_append] at hasc
    exact lt_irrefl v (hasc.2.2 v hin v mem_cons_self)
  have hsurvives : ∀ w, Survives sm kbID v w ↔ w ∈ live := by
    intro w
    unfold Survives
    rw [hlive]
    exact ⟨fun ⟨live', heq, hw⟩ => (Except.ok.inj heq) ▸ hw, fun hw => ⟨live, rfl, hw⟩⟩
  have hreadable : ∀ docID, docReadableFromAny st'.docStore kbID live docID = false ↔
      ∀ w, Survives sm kbID v w → ∀ k, v ≤ k →
        st.docStore.visibleVersionOf kbID docID w = some k →
        ∀ text, st.docStore.db kbID docID k = some (.content text) → text = "" := by
    intro docID
    rw [docReadableFromAny_eq_false_iff, hprogress.records_from hlisted hsplit hrecords]
    simp only [hsurvives, latest_from_eq_some_iff]
    constructor
    · intro hread w hw k hle hkey text htext
      exact hread w hw text ⟨k, hkey, hle, htext⟩
    · rintro hread w hw text ⟨k, hkey, hle, htext⟩
      exact hread w hw k hle hkey text htext
  unfold Orphaned
  rw [isOrphanChunk_eq_true_iff, chunkdoc.ChunkDocMapper.mem_listChunkIDsByDocs, hprogress.docs,
    if_neg hnew]
  simp only [hprogress.pairs hrecords, hreadable]
  constructor
  · rintro ⟨⟨docID, hdoc, hpair, hkept⟩, -, hall⟩
    exact ⟨hkept, ⟨docID, hdoc, hpair⟩, fun docID' hpair' => hall docID' ⟨hpair', hkept⟩⟩
  · rintro ⟨hkept, ⟨docID, hdoc, hpair⟩, hall⟩
    exact ⟨⟨docID, hdoc, hpair, hkept⟩, ⟨docID, hpair, hkept⟩,
      fun docID' hpair' => hall docID' hpair'.1⟩

lemma Progress.step : Progress sm kbID st (pre ++ [v]) (dropVersionStorage sm st' kbID v).1 := by
  have hin : v ∈ knownVersions sm kbID := by simp [hsplit]
  obtain ⟨live, hlive⟩ := hlisted.live v hin
  have hne := hlisted.pos v hin
  obtain ⟨hpairs, hvectors⟩ := reclaimVersionChunks_mem st' hlive hne
  rw [dropVersionStorage_eq hlive hne]
  refine ⟨?_, ?_, ?_, ?_⟩
  · intro docID k
    by_cases hk : k = v
    · simp [hk]
    · simp [hprogress.records, hk]
  · intro k
    by_cases hk : k = v
    · simp [hk]
    · rw [versiondoc.VersionDocList.listDocIDs_deleteByVersion_of_ne fun h => hk h.2]
      simp [hprogress.docs, hk]
  · intro hrecords chunkID docID
    rw [hpairs, hprogress.pairs hrecords,
      hprogress.orphaned_iff hlisted hsplit hrecords hlive, forall_mem_append]
    simp only [mem_singleton, forall_eq]
    tauto
  intro hrecords chunkID
  rw [hvectors, hprogress.vectors hrecords,
    hprogress.orphaned_iff hlisted hsplit hrecords hlive, forall_mem_append]
  simp only [mem_singleton, forall_eq]
  tauto

end

lemma Progress.run (hlisted : Listed sm kbID) (hprogress : Progress sm kbID st pre st')
    (hsplit : knownVersions sm kbID = pre ++ post) :
    Progress sm kbID st (knownVersions sm kbID) (dropVersions sm kbID post st') := by
  induction post generalizing pre st' with
  | nil =>
    rw [hsplit, append_nil]
    exact hprogress
  | cons v post ih =>
    refine ih (hprogress.step hlisted hsplit) ?_
    rw [hsplit, append_assoc, singleton_append]

/-- The reclaims of all known versions erase the knowledge base exactly if its stores are
erasable. -/
lemma erased_dropVersions_iff (hlisted : Listed sm kbID) (st : Stores) :
    Erased kbID (dropVersions sm kbID (knownVersions sm kbID) st) ↔ Erasable sm kbID st := by
  have hstart : Progress sm kbID st [] st := by constructor <;> simp
  have hprogress := hstart.run hlisted (nil_append _).symm
  constructor
  · intro herased
    have hrecords : ∀ docID k, st.docStore.db kbID docID k ≠ none → k ∈ knownVersions sm kbID := by
      intro docID k hsome
      by_contra hout
      have hleft := hprogress.records docID k
      rw [herased.records, if_neg hout] at hleft
      exact hsome hleft.symm
    have hcleared : ∀ chunkID, (∀ docID,
        (chunkID, docID) ∉ (dropVersions sm kbID (knownVersions sm kbID) st).chunkDocMapper.pairs
          kbID) := by
      intro chunkID docID
      rw [herased.pairs]
      exact Finset.notMem_empty _
    refine ⟨hrecords, ?_, ?_, ?_⟩
    · intro k hdocs
      by_contra hout
      have hleft := hprogress.docs k
      rw [herased.docs, if_neg hout] at hleft
      exact hdocs hleft.symm
    · intro chunkID docID hpair
      have hgone := hcleared chunkID docID
      rw [hprogress.pairs hrecords] at hgone
      by_contra hnone
      exact hgone ⟨hpair, fun u hu hclear => hnone ⟨u, hu, hclear⟩⟩
    intro chunkID hvector
    have hgone : chunkID ∉
        (dropVersions sm kbID (knownVersions sm kbID) st).chunkStore.vectors kbID := by
      rw [herased.vectors]
      exact Finset.notMem_empty _
    rw [hprogress.vectors hrecords] at hgone
    by_contra hnone
    refine hgone ⟨hvector, ?_⟩
    rintro u - ⟨⟨docID, -, hpair⟩, -⟩
    exact hnone ⟨docID, hpair⟩
  · rintro ⟨hrecords, hdocs, hpairs, hvectors⟩
    refine ⟨?_, ?_, ?_, ?_⟩
    · intro docID k
      rw [hprogress.records]
      by_cases hk : k ∈ knownVersions sm kbID
      · rw [if_pos hk]
      · rw [if_neg hk]
        exact not_not.mp fun hsome => hk (hrecords docID k hsome)
    · intro k
      rw [hprogress.docs]
      by_cases hk : k ∈ knownVersions sm kbID
      · rw [if_pos hk]
      · rw [if_neg hk]
        exact not_not.mp fun hsome => hk (hdocs k hsome)
    · refine Finset.eq_empty_of_forall_notMem ?_
      rintro ⟨chunkID, docID⟩ hpair
      rw [hprogress.pairs hrecords] at hpair
      obtain ⟨u, hu, hclear⟩ := hpairs chunkID docID hpair.1
      exact hpair.2 u hu hclear
    refine Finset.eq_empty_of_forall_notMem ?_
    intro chunkID hvector
    rw [hprogress.vectors hrecords] at hvector
    obtain ⟨docID, hpair⟩ := hvectors chunkID hvector.1
    obtain ⟨u, hu, hclear⟩ := hpairs chunkID docID hpair
    exact hvector.2 u hu hclear

variable {live : List Nat}

section

variable (hlive : liveVersionIDs sm kbID v = .ok live) (hne : v ≠ 0)

include hlive hne

lemma deleteVersionData_err (n : Node) : (n.deleteVersionData sm kbID v).2 = none := by
  unfold Node.deleteVersionData Node.drop
  cases (n.note kbID v).stores with
  | none => rfl
  | some st =>
    dsimp only
    rw [dropVersionStorage_eq hlive hne]

lemma dropVersionData_ok (nodes : List Node) : (dropVersionData sm nodes kbID v).2 = none ∧
      (dropVersionData sm nodes kbID v).1.map (·.stores) =
        (nodes.map (·.stores)).map (Option.map fun st => (dropVersionStorage sm st kbID v).1) := by
  refine ⟨?_, ?_⟩
  · unfold dropVersionData
    rw [findSome?_eq_none_iff]
    intro answer hanswer
    obtain ⟨n, -, rfl⟩ := mem_map.mp hanswer
    rw [deleteVersionData_err hlive hne, Option.map_none]
  · simp only [dropVersionData, map_map]
    refine map_congr_left fun n _ => ?_
    exact Node.deleteVersionData_stores sm n kbID v

end

/-- The broadcast of every known version succeeds, and each node has then reclaimed them. -/
lemma dropKnowledgeBase_ok (hlisted : Listed sm kbID) (nodes : List Node) :
    (dropKnowledgeBase sm kbID nodes).2 = none ∧
      (dropKnowledgeBase sm kbID nodes).1.map (·.stores) =
        (nodes.map (·.stores)).map (Option.map (dropVersions sm kbID (knownVersions sm kbID))) := by
  have hfold : ∀ (versions : List VersionMeta) (nodes : List Node),
      (∀ v ∈ versions, v.versionID ∈ knownVersions sm kbID) →
      let done := versions.foldl (fun (acc : List Node × Option Error) v =>
        let (nodes, err) := dropVersionData sm acc.1 kbID v.versionID
        (nodes, acc.2.or err)) (nodes, none)
      done.2 = none ∧ done.1.map (·.stores) = (nodes.map (·.stores)).map
        (Option.map (dropVersions sm kbID (versions.map (·.versionID)))) := by
    intro versions
    induction versions with
    | nil => exact fun nodes _ => ⟨rfl, by simp⟩
    | cons v versions ih =>
    intro nodes hin
    obtain ⟨hv, hin⟩ := forall_mem_cons.mp hin
    obtain ⟨live, hlive⟩ := hlisted.live _ hv
    obtain ⟨hnone, hstores⟩ := dropVersionData_ok hlive (hlisted.pos _ hv) nodes
    obtain ⟨hnone', hstores'⟩ := ih (dropVersionData sm nodes kbID v.versionID).1 hin
    rw [foldl_cons]
    simp only [hnone]
    refine ⟨hnone', hstores'.trans ?_⟩
    rw [hstores, map_map, Option.map_comp_map]
    rfl
  unfold dropKnowledgeBase knownVersions at *
  cases hversions : sm.listVersions kbID with
  | error e =>
    have hkb : e.is .knowledgeBaseNotFound = true := by
      unfold StateMachine.listVersions at hversions
      split at hversions
      · cases hversions
        rfl
      · cases hversions
    dsimp only
    rw [if_pos hkb]
    exact ⟨rfl, by simp⟩
  | ok versions =>
    simp only [hversions] at hfold
    exact hfold versions nodes fun v hv => mem_map_of_mem hv

lemma retryWithBackoff_of_none {σ : Type} {fn : σ → σ × Option Error} {s : σ}
    (hnone : (fn s).2 = none) (maxRetries : Nat) :
    retryWithBackoff fn maxRetries s = ((fn s).1, none) := by
  cases hfn : fn s with
  | mk s' err =>
    rw [hfn] at hnone
    subst hnone
    cases maxRetries <;> simp only [retryWithBackoff, hfn]

end

/-- Whatever history of commands the metadata has gone through and whatever the storage nodes
hold, a deletion that reports success erases the knowledge base from every storage node exactly
if every one of them holds only what the versions still in the metadata account for. -/
theorem execute_erases_iff (limit : Nat) (env : Env) (cmds : List Command) (nodes : List Node)
    (maxRetries : Nat) (now : Int) (kbID : String) :
    ((execute maxRetries now { sm := replay limit env cmds, nodes } kbID).2 = none →
        ∀ n ∈ (execute maxRetries now { sm := replay limit env cmds, nodes } kbID).1.nodes,
          ∀ st ∈ n.stores, Erased kbID st) ↔
      ∀ n ∈ nodes, ∀ st ∈ n.stores, Erasable (replay limit env cmds) kbID st := by
  obtain ⟨hwf, hasc⟩ := replay_wellFormed limit env cmds
  have hlisted := listed_of_wellFormed hwf hasc kbID
  obtain ⟨hnone, hstores⟩ := dropKnowledgeBase_ok hlisted nodes
  have hexecute : execute maxRetries now { sm := replay limit env cmds, nodes } kbID =
      ({ sm := ((replay limit env cmds).apply now (.removeKBMeta kbID)).1
         nodes := (dropKnowledgeBase (replay limit env cmds) kbID nodes).1 }, none) := by
    unfold execute
    rw [retryWithBackoff_of_none hnone]
    rfl
  rw [hexecute]
  simp only [forall_const]
  have hmem : ∀ P : Stores → Prop,
      (∀ n ∈ (dropKnowledgeBase (replay limit env cmds) kbID nodes).1, ∀ st ∈ n.stores, P st) ↔
        ∀ n ∈ nodes, ∀ st ∈ n.stores,
          P (dropVersions (replay limit env cmds) kbID
            (knownVersions (replay limit env cmds) kbID) st) := by
    intro P
    rw [← forall_mem_map (f := Node.stores) (P := fun stores => ∀ st ∈ stores, P st), hstores]
    simp only [forall_mem_map, Option.forall_mem_map]
  rw [hmem]
  exact forall₂_congr fun n _ => forall₂_congr fun st _ => erased_dropVersions_iff hlisted st

def oneChunk : Services where
  split text _ _ := [{ chunkID := text, content := text }]
  computeDocIDSetHash _ := ""

def discarded : List Command :=
  [.createKB { kbID := "kb" }, .createVersion "kb" 0 "", .discardVersion "kb" 1]

/-- A storage node on which the write of that version had stored its one document and got no
further. -/
def halfWritten : Node where
  stores := some (writeDocuments oneChunk "kb" 1 { kbID := "kb" } Stores.empty
    [{ op := .add, docID := "d", content := "text" }])
  tombstones _ := none

/-- The discarded version's document, its chunk mapping and its vector outlive the knowledge
base. -/
theorem execute_leaves_discarded :
    (execute 5 0 { sm := replay 8 (nodeAt 0 "epoch") discarded, nodes := [halfWritten] } "kb").2 =
        none ∧
      ((execute 5 0 { sm := replay 8 (nodeAt 0 "epoch") discarded, nodes := [halfWritten] }
        "kb").1.nodes.map fun n => n.stores.map fun st =>
          (st.docStore.db "kb" "d" 1, st.chunkDocMapper.pairs "kb", st.chunkStore.vectors "kb")) =
        [some (some (.content "text"), {("text", "d")}, {"text"})] := by
  decide +kernel

end stratum.coordinator
