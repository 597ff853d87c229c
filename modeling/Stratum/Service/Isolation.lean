import Mathlib.Algebra.GroupWithZero.Nat
import Stratum.Index.Append
import Stratum.Service.Query
import Stratum.Version.Content

namespace stratum.service

open stratum.lib stratum.metadata stratum.coordinator stratum.docstore List Function
open stratum.index.manager stratum.version Option World StateMachine

/-- What the splitter takes from a knowledge base. -/
def splitting (sm : StateMachine) (kbID : String) : Option (ChunkParams × String) :=
  (sm.kbs kbID).map fun kb => (kb.chunking, kb.embedConfig.modelID)

/-- The chunks the splitter produces from a content. -/
def chunkIDsOf (svc : Services) (params : ChunkParams × String) (content : String) :
    Finset String :=
  ((svc.split content params.1 params.2).map (·.chunkID)).toFinset

/-- Some request of the knowledge base sets the document to the content. -/
def Requested (w : World) (kbID docID content : String) : Prop :=
  ∃ job ∈ w.jobs, job.kbID = kbID ∧
    ∃ change ∈ job.changes, change.op ≠ .delete ∧ change.docID = docID ∧ change.content = content

/-- A knowledge base keeps its splitting parameters, and a request gives a document the same
chunks as every other content of it, in the same request or in an earlier one. -/
def ChunkStep (svc : Services) (w : World) : Action → Prop
  | .createKB kb =>
    ∀ params ∈ splitting w.sm kb.kbID, params = (kb.chunking, kb.embedConfig.modelID)
  | .request _ kbID _ changes _ =>
    ∀ params ∈ splitting w.sm kbID, ∀ change ∈ changes, change.op ≠ .delete →
      ∀ other ∈ changes ++ (w.jobs.filter (·.kbID = kbID)).flatMap (·.changes),
        other.op ≠ .delete → other.docID = change.docID →
        chunkIDsOf svc params change.content = chunkIDsOf svc params other.content
  | _ => True

instance (svc : Services) (w : World) (a : Action) : Decidable (ChunkStep svc w a) := by
  induction a using version.Action.casesOn <;> dsimp only [ChunkStep] <;> infer_instance

/-- Every record and every chunk mapping goes back to a request, and all requests for a
document agree on its chunks. -/
structure Mapped (svc : Services) (w : World) : Prop where
  known : ∀ job ∈ w.jobs, (splitting w.sm job.kbID).isSome
  agree : ∀ {kbID docID text text' params}, splitting w.sm kbID = some params →
    Requested w kbID docID text → Requested w kbID docID text' →
    chunkIDsOf svc params text = chunkIDsOf svc params text'
  record : ∀ {kbID docID v text}, w.stores.docStore.db kbID docID v = some (.content text) →
    Requested w kbID docID text
  pair : ∀ {kbID docID chunkID}, (chunkID, docID) ∈ w.stores.chunkDocMapper.pairs kbID →
    ∃ params text, splitting w.sm kbID = some params ∧ Requested w kbID docID text ∧
      chunkID ∈ chunkIDsOf svc params text

variable {svc : Services} {w w' : World} {kbID : String} {sm' : StateMachine} {job : Job}

namespace Mapped

lemma init (limit : Nat) (epoch : String) : Mapped svc (init limit epoch) where
  known _ hjob := absurd hjob not_mem_nil
  agree h := nomatch h
  record h := nomatch h
  pair h := nomatch h

section

variable (hmapped : Mapped svc w)

include hmapped

lemma of_sm
    (hkeep : ∀ kbID, (splitting w.sm kbID).isSome → splitting sm' kbID = splitting w.sm kbID) :
    Mapped svc { w with sm := sm' } where
  known job hjob := by
    have hsome := hmapped.known job hjob
    rw [hkeep _ hsome]
    exact hsome
  agree {kbID docID text text' params} hparams hrequested hrequested' := by
    have hsome : (splitting w.sm kbID).isSome := by
      obtain ⟨job, hjob, rfl, -⟩ := hrequested
      exact hmapped.known job hjob
    exact hmapped.agree ((hkeep _ hsome).symm.trans hparams) hrequested hrequested'
  record h := hmapped.record h
  pair h := by
    obtain ⟨params, text, hparams, hrest⟩ := hmapped.pair h
    exact ⟨params, text, (hkeep _ (by rw [hparams]; rfl)).trans hparams, hrest⟩

lemma of_stores {stores : Stores}
    (hrecord : ∀ {kbID docID v x}, stores.docStore.db kbID docID v = some x →
      w.stores.docStore.db kbID docID v = some x)
    (hpair : ∀ {kbID p}, p ∈ stores.chunkDocMapper.pairs kbID →
      p ∈ w.stores.chunkDocMapper.pairs kbID) : Mapped svc { w with stores := stores } where
  known := hmapped.known
  agree := hmapped.agree
  record h := hmapped.record (hrecord h)
  pair h := hmapped.pair (hpair h)

lemma of_kbs (hkbs : sm'.kbs = w.sm.kbs) : Mapped svc { w with sm := sm' } := by
  apply hmapped.of_sm
  intro kbID _
  simp only [splitting, hkbs]

lemma createKB {kb : KnowledgeBaseMeta} (hok : ChunkStep svc w (.createKB kb)) :
    Mapped svc { w with sm := (w.sm.apply 0 (.createKB kb)).1 } := by
  apply hmapped.of_sm
  intro kbID hsome
  by_cases hkb : kbID = kb.kbID
  · subst hkb
    obtain ⟨params, hparams⟩ := isSome_iff_exists.mp hsome
    have hsame := hok params hparams
    rw [hparams, hsame]
    simp only [splitting, apply, accept, setKB, update_self]
    rfl
  · simp [splitting, apply, accept, setKB, hkb]

lemma rollback (kbID : String) (v : Nat) :
    Mapped svc { w with sm := (w.sm.apply 0 (.rollback kbID v)).1 } := by
  simp only [apply, applyRollback]
  cases hkb : w.sm.kbs kbID with
  | none => exact hmapped
  | some kb =>
  cases w.sm.versions v with
  | none => exact hmapped
  | some m =>
  dsimp only
  split
  · exact hmapped
  split
  · exact hmapped
  apply hmapped.of_sm
  intro kbID' _
  by_cases heq : kbID' = kbID
  · subst heq
    simp only [splitting, accept, setKB, update_self, hkb]
    rfl
  · simp [splitting, accept, setKB, heq]

end

lemma requested_push (hjobs : w'.jobs = w.jobs ++ [job]) {docID text : String} :
    Requested w' kbID docID text ↔
      Requested w kbID docID text ∨ (job.kbID = kbID ∧ ∃ change ∈ job.changes,
        change.op ≠ .delete ∧ change.docID = docID ∧ change.content = text) := by
  unfold Requested
  rw [hjobs]
  simp only [mem_append, mem_singleton, or_and_right, exists_or, exists_eq_left]

variable (hmapped : Mapped svc w)

include hmapped

lemma push (hjobs : w'.jobs = w.jobs ++ [job]) (hkbs : w'.sm.kbs = w.sm.kbs)
    (hstores : w'.stores = w.stores) (hknown : (splitting w.sm job.kbID).isSome)
    (hagree : ∀ params ∈ splitting w.sm job.kbID, ∀ change ∈ job.changes, change.op ≠ .delete → ∀
      other ∈ job.changes ++ (w.jobs.filter (·.kbID = job.kbID)).flatMap (·.changes), other.op ≠
      .delete → other.docID = change.docID → chunkIDsOf svc params change.content = chunkIDsOf svc
      params other.content) : Mapped svc w' := by
  have hsplit : ∀ kbID, splitting w'.sm kbID = splitting w.sm kbID := by
    intro kbID
    simp only [splitting, hkbs]
  -- One content of the new job against any other content requested for the document.
  have hnew : ∀ {kbID docID text params}, splitting w.sm kbID = some params →
      ∀ change ∈ job.changes, job.kbID = kbID → change.op ≠ .delete → change.docID = docID →
      Requested w' kbID docID text →
      chunkIDsOf svc params change.content = chunkIDsOf svc params text := by
    intro kbID docID text params hparams change hchange hkb hop hdoc hrequested
    subst hkb hdoc
    obtain ⟨other, hjob, hkb, change', hchange', hop', hdoc', rfl⟩ |
      ⟨-, other, hother, hop', hdoc', rfl⟩ := (requested_push hjobs).mp hrequested
    · refine hagree params hparams change hchange hop change' ?_ hop' hdoc'
      refine mem_append_right _ (mem_flatMap.mpr ⟨other, ?_, hchange'⟩)
      exact mem_filter.mpr ⟨hjob, decide_eq_true hkb⟩
    · exact hagree params hparams change hchange hop other (mem_append_left _ hother) hop' hdoc'
  refine ⟨?_, ?_, ?_, ?_⟩
  · intro j hj
    rw [hsplit]
    rw [hjobs] at hj
    obtain hj | hj := mem_append.mp hj
    · exact hmapped.known j hj
    · rw [mem_singleton.mp hj]
      exact hknown
  · intro kbID docID text text' params hparams hrequested hrequested'
    rw [hsplit] at hparams
    obtain hold | ⟨hkb, change, hchange, hop, hdoc, rfl⟩ := (requested_push hjobs).mp hrequested
    · obtain hold' | ⟨hkb, change, hchange, hop, hdoc, rfl⟩ := (requested_push hjobs).mp hrequested'
      · exact hmapped.agree hparams hold hold'
      · exact (hnew hparams change hchange hkb hop hdoc hrequested).symm
    · exact hnew hparams change hchange hkb hop hdoc hrequested'
  · intro kbID docID v text hrecord
    rw [hstores] at hrecord
    exact (requested_push hjobs).mpr (.inl (hmapped.record hrecord))
  intro kbID docID chunkID hpair
  rw [hstores] at hpair
  obtain ⟨params, text, hparams, hrequested, hchunk⟩ := hmapped.pair hpair
  exact ⟨params, text, (hsplit kbID).trans hparams,
    (requested_push hjobs).mpr (.inl hrequested), hchunk⟩

lemma request {now : Int} {parent : Nat} {changes : List DocChange} {key : String}
    (hok : ChunkStep svc w (.request now kbID parent changes key)) :
    Mapped svc (w.request now kbID parent changes key) := by
  by_cases hknown : (splitting w.sm kbID).isSome
  · obtain hsame | ⟨v, -, hagain⟩ | ⟨-, -, hnew⟩ := w.request_cases now kbID parent changes key
    · rw [hsame]
      exact hmapped
    · rw [hagain]
      exact hmapped.push rfl rfl rfl hknown hok
    · rw [hnew]
      exact hmapped.push rfl rfl rfl hknown hok
  -- An unknown knowledge base is refused before anything is parked.
  have hnone : w.sm.kbs kbID = none := by
    simpa [splitting] using hknown
  have hsame : w.request now kbID parent changes key = w := by
    unfold World.request applyCreateVersion
    rw [hnone]
    split <;> rfl
  rw [hsame]
  exact hmapped

lemma documents (hjob : job ∈ w.jobs) {kbMeta : KnowledgeBaseMeta}
    (hkb : w.sm.getKB job.kbID = .ok kbMeta) {done : List DocChange}
    (hsub : ∀ change ∈ done, change ∈ job.changes) {versionDocList : versiondoc.VersionDocList}
    {landed : Nat → Bool} : Mapped svc { w with
      stores := { writeDocuments svc job.kbID job.versionID kbMeta w.stores done with
        versionDocList := versionDocList }
      landed := landed } := by
  have hparams : splitting w.sm job.kbID =
      some (kbMeta.chunking, kbMeta.embedConfig.modelID) := by
    unfold getKB at hkb
    unfold splitting
    cases hmeta : w.sm.kbs job.kbID with
    | none =>
      rw [hmeta] at hkb
      cases hkb
    | some kb =>
      rw [hmeta] at hkb
      cases hkb
      rfl
  refine ⟨hmapped.known, hmapped.agree, ?_, ?_⟩
  · intro kbID docID v text hrecord
    rw [writeDocuments_db] at hrecord
    split at hrecord
    · exact hmapped.record hrecord
    next change hlast =>
    obtain ⟨hmem, hdoc⟩ := lastChange_mem hlast
    by_cases hkbID : kbID = job.kbID
    · rw [if_pos hkbID] at hrecord
      by_cases hv : v = job.versionID
      · rw [hv, update_self, some.injEq] at hrecord
        obtain ⟨hop, htext⟩ := DocChange.encodeValue_value_eq_content.mp hrecord
        exact ⟨job, hjob, hkbID.symm, change, hsub change hmem, hop, hdoc, htext⟩
      · rw [update_of_ne hv] at hrecord
        exact hmapped.record (hkbID ▸ hrecord)
    · rw [if_neg hkbID] at hrecord
      exact hmapped.record hrecord
  · intro kbID docID chunkID hpair
    obtain hold | ⟨rfl, change, hchange, hop, hdoc, hchunk⟩ := mem_writeDocuments_pairs _ _ _ _ hpair
    · exact hmapped.pair hold
    · exact ⟨_, change.content, hparams,
        ⟨job, hjob, rfl, change, hsub change hchange, hop, hdoc, rfl⟩, hchunk⟩

lemma of_jobs {jobs : List Job}
    (hforth : ∀ job ∈ w.jobs, ∃ job' ∈ jobs, job'.creation = job.creation)
    (hback : ∀ job' ∈ jobs, ∃ job ∈ w.jobs, job'.creation = job.creation) :
    Mapped svc { w with jobs := jobs } := by
  have hrequested : ∀ {kbID docID text}, Requested { w with jobs := jobs } kbID docID text ↔
      Requested w kbID docID text := by
    intro kbID docID text
    constructor
    · rintro ⟨job', hjob', hkb, change, hchange, hrest⟩
      obtain ⟨job, hjob, hsame⟩ := hback job' hjob'
      obtain ⟨hsamekb, -, hsamechanges⟩ := Creation.mk.injEq .. ▸ hsame
      exact ⟨job, hjob, hsamekb ▸ hkb, change, hsamechanges ▸ hchange, hrest⟩
    · rintro ⟨job, hjob, hkb, change, hchange, hrest⟩
      obtain ⟨job', hjob', hsame⟩ := hforth job hjob
      obtain ⟨hsamekb, -, hsamechanges⟩ := Creation.mk.injEq .. ▸ hsame
      exact ⟨job', hjob', hsamekb ▸ hkb, change, hsamechanges ▸ hchange, hrest⟩
  refine ⟨?_, ?_, ?_, ?_⟩
  · intro job' hjob'
    obtain ⟨job, hjob, hsame⟩ := hback job' hjob'
    obtain ⟨hsamekb, -, -⟩ := Creation.mk.injEq .. ▸ hsame
    have hknown := hmapped.known job hjob
    rwa [← hsamekb] at hknown
  · intro kbID docID text text' params hparams h h'
    exact hmapped.agree hparams (hrequested.mp h) (hrequested.mp h')
  · intro kbID docID v text h
    exact hrequested.mpr (hmapped.record h)
  intro kbID docID chunkID h
  obtain ⟨params, text, hparams, htext, hchunk⟩ := hmapped.pair h
  exact ⟨params, text, hparams, hrequested.mpr htext, hchunk⟩

lemma attempt {i : Nat} (hjob : w.jobs[i]? = some job) : Mapped svc (w.attempt svc i job) := by
  have hmem := mem_of_getElem? hjob
  obtain hsame | ⟨kbMeta, hkb, hdocs | hall⟩ := w.attempt_cases svc i job
  · rw [hsame]
    exact hmapped
  · rw [hdocs]
    exact hmapped.documents hmem hkb fun _ h => h
  rw [hall]
  refine (hmapped.documents hmem hkb fun _ h => h).of_jobs ?_ ?_
  · intro j hj
    obtain ⟨k, hk⟩ := List.mem_iff_getElem?.mp hj
    by_cases hki : i = k
    · subst hki
      rw [hjob, some.injEq] at hk
      subst hk
      exact ⟨_, List.mem_set (List.getElem?_eq_some_iff.mp hjob).1 _, rfl⟩
    · refine ⟨j, List.mem_iff_getElem?.mpr ⟨k, ?_⟩, rfl⟩
      rw [getElem?_set_ne hki, hk]
  · intro j hj
    obtain hj | rfl := mem_or_eq_of_mem_set hj
    · exact ⟨j, hj, rfl⟩
    · exact ⟨job, hmem, rfl⟩

lemma step {a : Action} (hok : ChunkStep svc w a) (hstep : w.step svc a = some w') :
    Mapped svc w' := by
  cases a with
  | createKB kb =>
    cases hstep
    exact hmapped.createKB hok
  | request now kbID parent changes key =>
    cases hstep
    exact hmapped.request hok
  | writePart i done =>
    obtain ⟨job, kbMeta, hjob, hkb, hsub, rfl⟩ := step_writePart hstep
    exact hmapped.documents (mem_of_getElem? hjob) hkb hsub
  | write i =>
    obtain ⟨job, hjob, rfl⟩ := map_eq_some_iff.mp hstep
    exact hmapped.attempt hjob
  | report i =>
    obtain ⟨job, -, hstep⟩ := bind_eq_some_iff.mp hstep
    obtain ⟨digest, -, rfl⟩ := map_eq_some_iff.mp hstep
    exact hmapped.of_kbs (w.sm.apply_kbs 0 rfl)
  | indexStatus | removeVersion =>
    obtain ⟨-, ⟨⟩⟩ := ite_none_right_eq_some.mp hstep
    exact hmapped.of_kbs (w.sm.apply_kbs 0 rfl)
  | rollback kbID v =>
    cases hstep
    exact hmapped.rollback kbID v
  | deleteVersion | discard =>
    cases hstep
    exact hmapped.of_kbs (w.sm.apply_kbs 0 rfl)
  | dropVersion kbID v finished =>
    obtain ⟨-, ⟨⟩⟩ := ite_none_right_eq_some.mp hstep
    exact hmapped.of_stores reclaim_db fun h => w.reclaim_pairs kbID v finished _ h

end Mapped

/-- Every chunk whose score a returned document is given is a chunk of the content the
version reads for it, whatever index or scan the hits come from, in every history in which a
document's contents all split alike. -/
theorem query_isolated (svc : Services) (limit : Nat) (epoch : String) {w : World}
    (hreach : Reach (step svc) (ChunkStep svc) (init limit epoch) w)
    {σ : Type} [LT σ] [DecidableLT σ] (aggregate : List σ → σ) (req : QueryRequest σ)
    (searchResults : List (SearchResult σ)) {out : List (QueryResult σ)}
    (hquery : query svc w.sm w.stores aggregate req (some (.ok searchResults)) = .ok out)
    {res : QueryResult σ} (hres : res ∈ out) {r : SearchResult σ}
    (hr : r ∈ docHits w.stores.chunkDocMapper req.kbID
      (w.stores.versionDocList.listDocIDs req.kbID req.versionID) req.threshold searchResults
      res.docID) :
    w.stores.docStore.readAt req.kbID res.docID req.versionID = .ok res.content ∧
      ∃ kb, w.sm.kbs req.kbID = some kb ∧ r.chunkID ∈
        chunkIDsOf svc (kb.chunking, kb.embedConfig.modelID) res.content := by
  have hmapped : Mapped svc w :=
    hreach.invariant (Mapped svc) (Mapped.init limit epoch)
      fun _ _ _ _ hmapped hok hstep => hmapped.step hok hstep
  obtain ⟨kb, docs, hkb, rfl⟩ := query_eq_ok hquery
  have hread := readAt_of_mem_readTop hres
  refine ⟨hread, kb, hkb, ?_⟩
  have hparams : splitting w.sm req.kbID = some (kb.chunking, kb.embedConfig.modelID) := by
    rw [splitting, hkb, map_some]
  have hlatest := DocStore.readAt_eq_ok_iff.mp hread
  obtain ⟨k, -, hrecord⟩ := bind_eq_some_iff.mp hlatest
  -- The chunk was mapped for some content requested for the document, and all of them split alike.
  obtain ⟨params, text, hparams', hrequested, hchunk⟩ := hmapped.pair (mem_docHits hr).2
  cases hparams.symm.trans hparams'
  rw [hmapped.agree hparams (hmapped.record hrecord) hrequested]
  exact hchunk

/-- Two versions that add documents, the second setting the first one's document again. -/
def additions : List Action :=
  .createKB { kbID := "kb" } :: landVersion 0 1 0 [addDoc "d" "a"] ++
    landVersion 1 2 1 [updateDoc "d" "a", addDoc "e" "x"]

theorem query_isolated_additions : ∃ w out res r,
    Reach (step wholeText) (ChunkStep wholeText) (init 8 "epoch") w ∧
      query wholeText w.sm w.stores sum ⟨"kb", 1, 3, 0⟩
        (some (.ok [⟨"a", 2⟩, ⟨"x", 1⟩])) = .ok out ∧ res ∈ out ∧
      r ∈ docHits w.stores.chunkDocMapper "kb" (w.stores.versionDocList.listDocIDs "kb" 1) 0
        [⟨"a", 2⟩, ⟨"x", 1⟩] res.docID ∧
      w.stores.docStore.readAt "kb" res.docID 1 = .ok res.content ∧
      ∃ kb, w.sm.kbs "kb" = some kb ∧ r.chunkID ∈
        chunkIDsOf wholeText (kb.chunking, kb.embedConfig.modelID) res.content := by
  obtain ⟨w, hreach, hquery, hr⟩ : ∃ w,
      Reach (step wholeText) (ChunkStep wholeText) (init 8 "epoch") w ∧
        query wholeText w.sm w.stores sum ⟨"kb", 1, 3, 0⟩ (some (.ok [⟨"a", 2⟩, ⟨"x", 1⟩])) =
            .ok [⟨"d", "a", 2⟩] ∧
          (⟨"a", 2⟩ : SearchResult Nat) ∈ docHits w.stores.chunkDocMapper "kb"
            (w.stores.versionDocList.listDocIDs "kb" 1) 0 [⟨"a", 2⟩, ⟨"x", 1⟩] "d" :=
    Reach.exists_decide additions (by decide +kernel)
  have hres : (⟨"d", "a", 2⟩ : QueryResult Nat) ∈ [⟨"d", "a", 2⟩] := mem_singleton_self _
  exact ⟨w, _, _, _, hreach, hquery, hres, hr,
    query_isolated wholeText 8 "epoch" hreach sum ⟨"kb", 1, 3, 0⟩ _ hquery hres hr⟩

/-- A document updated in the second version: the index of the first, built afterwards, holds
the new chunk, and that chunk scores the document at the first version. -/
theorem query_sees_later_chunk : ∃ w,
    Reach (step wholeText) (fun _ _ => True) (init 8 "epoch") w ∧
      w.Live "kb" 1 ∧ chunksAt w.stores w.stores "kb" 1 = {"a", "b"} ∧
      (build .patient (.smooth ["a", "b"] [] 0) 1 false ⟨fun _ => none, fun _ => none⟩ "kb"
        false).1.artifact 1 = {"a", "b"} ∧
      query wholeText w.sm w.stores sum ⟨"kb", 1, 3, 0⟩ (some (.ok [⟨"b", 2⟩])) =
        .ok [⟨"d", "a", 2⟩] ∧
      (⟨"b", 2⟩ : SearchResult Nat) ∈ docHits w.stores.chunkDocMapper "kb"
        (w.stores.versionDocList.listDocIDs "kb" 1) 0 [⟨"b", 2⟩] "d" ∧
      ∀ params, "b" ∉ chunkIDsOf wholeText params "a" := by
  obtain ⟨w, hreach, hlive, hchunks, hquery, hr⟩ : ∃ w,
      Reachable (step wholeText) (init 8 "epoch") w ∧
        w.Live "kb" 1 ∧ chunksAt w.stores w.stores "kb" 1 = {"a", "b"} ∧
          query wholeText w.sm w.stores sum ⟨"kb", 1, 3, 0⟩ (some (.ok [⟨"b", 2⟩])) =
            .ok [⟨"d", "a", 2⟩] ∧
          (⟨"b", 2⟩ : SearchResult Nat) ∈ docHits w.stores.chunkDocMapper "kb"
            (w.stores.versionDocList.listDocIDs "kb" 1) 0 [⟨"b", 2⟩] "d" :=
    Reach.exists_decide (.createKB { kbID := "kb" } :: landVersion 0 1 0 [addDoc "d" "a"] ++
      landVersion 1 2 1 [updateDoc "d" "b"]) (by decide +kernel)
  refine ⟨w, hreach, hlive, hchunks, by decide +kernel, hquery, hr, ?_⟩
  intro params
  simp [chunkIDsOf, wholeText]

end stratum.service
