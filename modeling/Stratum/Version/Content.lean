import Mathlib.Data.Finset.Card
import Stratum.Version.BaseStores

namespace stratum.version

open stratum.lib stratum.metadata stratum.coordinator stratum.docstore Option Function

namespace World

instance (w : World) (kbID : String) (v : Nat) : Decidable (w.Live kbID v) :=
  decidable_of_iff
    ((w.sm.versions v).any fun m => m.kbID = kbID ∧ m.deleting = false ∧ w.landed v = true)
    (by simp [Live, any_eq_true])

/-- Storing changes at `v` shows in no later live version: each document they touch has, for
every such version that holds it, a visible record at `v` or above. -/
def Covered (w : World) (kbID : String) (v : Nat) (changes : List DocChange) : Prop :=
  ∀ u ∈ w.sm.versionsByKB kbID, v < u → w.Live kbID u → ∀ change ∈ changes,
    change.docID ∈ w.stores.versionDocList.listDocIDs kbID u →
    (w.stores.docStore.visibleVersionOf kbID change.docID u).any (v ≤ ·) = true
  deriving Decidable

/-- The documents a job's version inherits have no record between the parent and it. -/
def Inherits (w : World) (job : Job) : Prop :=
  job.parentVersionID ≠ 0 →
    ∀ docID ∈ w.stores.versionDocList.listDocIDs job.kbID job.parentVersionID,
      (∀ change ∈ job.changes, change.docID ≠ docID) →
      w.stores.docStore.visibleVersionOf job.kbID docID (job.versionID - 1) =
        w.stores.docStore.visibleVersionOf job.kbID docID job.parentVersionID
  deriving Decidable

/-- The steps under which version numbers stand for the chain: a write is not seen from later
versions, and a version's first write finds nothing between its parent and itself. -/
def ContentStep (w : World) (a : Action) : Prop :=
  w.FaithfulRequest a ∧
    match a with
    | .writePart i done => ∀ job ∈ w.jobs[i]?, w.Covered job.kbID job.versionID done
    | .write i => ∀ job ∈ w.jobs[i]?, w.Covered job.kbID job.versionID job.changes ∧
        ((w.sm.versions job.versionID).isSome → w.landed job.versionID = false → w.Inherits job)
    | _ => True

instance (w : World) (a : Action) : Decidable (w.ContentStep a) := by
  induction a using Action.casesOn <;> dsimp only [ContentStep] <;> infer_instance

end World

/-- Every live version reads each of its documents as the last change on its chain left it. -/
def Content (w : World) : Prop :=
  ∀ kbID v, w.Live kbID v → ∀ docID ∈ docSet (w.lineage v),
    ∃ change, lastChange (w.lineage v) docID = some change ∧
      latest (w.stores.docStore.db kbID docID) v = some (.content change.content)

variable {w w' : World} {svc : Services}

/-- A step after which the live versions were live before, with the same history, and find
the same records. -/
lemma Content.frame (hcontent : Content w) (hlive : ∀ kbID v, w'.Live kbID v → w.Live kbID v)
    (hlineage : ∀ kbID v, w'.Live kbID v → w'.lineage v = w.lineage v)
    (hlatest : ∀ kbID v docID, w'.Live kbID v → docID ∈ docSet (w.lineage v) →
      latest (w'.stores.docStore.db kbID docID) v = latest (w.stores.docStore.db kbID docID) v) :
    Content w' := by
  intro kbID v hv docID hdoc
  rw [hlineage kbID v hv] at hdoc ⊢
  obtain ⟨change, hlast, hread⟩ := hcontent kbID v (hlive kbID v hv) docID hdoc
  exact ⟨change, hlast, (hlatest kbID v docID hv hdoc).trans hread⟩

variable {kbID : String} {job : Job} {kbMeta : KnowledgeBaseMeta}

lemma live_of_apply (hbase : Base w) {now : Int} {cmd : Command} {v : Nat}
    (hlive : World.Live { w with sm := (w.sm.apply now cmd).1 } kbID v) : w.Live kbID v := by
  have hkept : ∀ {sm' : StateMachine}, KeptAll w.sm sm' →
      World.Live { w with sm := sm' } kbID v → w.Live kbID v := by
    intro sm' hkept
    apply World.Live.of_sm
    intro m' hm'
    obtain ⟨m, hm, hone⟩ := hkept.exists_before hm'
    exact ⟨m, hm, hone.kbID, hone.deleting⟩
  cases Effect.apply hbase.wf now cmd with
  | kept hall => exact hkept hall hlive
  | allocated now' kb parent key hparent heq =>
    rw [heq] at hlive
    obtain ⟨m, hm, hrest⟩ := hlive
    rw [StateMachine.allocateVersion_versions] at hm
    by_cases hv : v = w.sm.nextVersionID
    · have hnot := hbase.not_landed_next (le_of_eq hv.symm)
      rw [hnot] at hrest
      cases hrest.2.2
    · rw [if_neg hv] at hm
      exact ⟨m, hm, hrest⟩
  | removed u n hn hversions =>
    obtain ⟨m, hm, hrest⟩ := hlive
    rw [hversions] at hm
    by_cases hv : v = u
    · rw [hv, update_self] at hm
      cases hm
    · rw [update_of_ne hv] at hm
      exact ⟨m, hm, hrest⟩
  | removedKB kb hversions =>
    obtain ⟨m, hm, hrest⟩ := hlive
    rw [hversions] at hm
    dsimp only at hm
    by_cases hv : v ∈ w.sm.versionsByKB kb
    · rw [if_pos hv] at hm
      cases hm
    · rw [if_neg hv] at hm
      exact ⟨m, hm, hrest⟩

lemma Content.apply (hcontent : Content w) (hbase : Base w) (now : Int) (cmd : Command) :
    Content { w with sm := (w.sm.apply now cmd).1 } :=
  hcontent.frame (fun _ _ => live_of_apply hbase) (fun _ _ _ => rfl) (fun _ _ _ _ _ => rfl)

/-- Storing covered changes of a job alters nothing that a live version reads: at a record
visible from it the same value is written again. -/
lemma latest_documents (hbase : Base w) (hjob : job ∈ w.jobs) {done : List DocChange}
    (hsub : ∀ change ∈ done, change ∈ job.changes)
    (hcovered : w.Covered job.kbID job.versionID done) {docID : String} {u : Nat}
    (hlive : w.Live kbID u) (hdoc : docID ∈ docSet (w.lineage u)) :
    latest ((writeDocuments svc job.kbID job.versionID kbMeta w.stores done).docStore.db
      kbID docID) u = latest (w.stores.docStore.db kbID docID) u := by
  rw [writeDocuments_db]
  cases hlast : lastChange done docID with
  | none => rfl
  | some change =>
  dsimp only
  obtain ⟨hmem, rfl⟩ := lastChange_mem hlast
  by_cases hkb : kbID = job.kbID
  · subst hkb
    rw [if_pos rfl]
    have hagain : ∀ x, w.stores.docStore.db job.kbID change.docID job.versionID = some x →
        update (w.stores.docStore.db job.kbID change.docID) job.versionID
          (some (encodeValue change.value)) = w.stores.docStore.db job.kbID change.docID := by
      intro x hx
      obtain ⟨c, hc, -, other, hother, hdoc', rfl⟩ := hbase.record_created hx
      rw [hbase.job_created hjob, some.injEq] at hc
      subst hc
      rw [hbase.change_unique hjob hother (hsub _ hmem) hdoc'] at hx
      rw [← hx, update_eq_self]
    obtain hlt | rfl | hgt := lt_trichotomy u job.versionID
    · exact latest_update_of_gt hlt
    · rw [hagain _ (hbase.record_live hlive (hbase.job_created hjob) change (hsub _ hmem))]
    have hcov := hcovered u (hlive.listed hbase) hgt hlive change hmem (hbase.list_live hlive hdoc)
    rw [any_eq_true] at hcov
    obtain ⟨k, hkey, hle⟩ := hcov
    obtain hlt | heq := lt_or_eq_of_le (of_decide_eq_true hle)
    · exact latest_update_of_lt hkey hlt
    have hsome := (latestKey_eq_some_iff.mp hkey).2.1
    rw [← heq] at hsome
    obtain ⟨x, hx⟩ := isSome_iff_exists.mp hsome
    rw [hagain x hx]
  · rw [if_neg hkb]

/-- A version's first write: its own changes are stored at it, and what it inherits it reads
as its parent does. -/
lemma latest_first_write (hbase : Base w) (hcontent : Content w) (hjob : job ∈ w.jobs)
    {m : VersionMeta} (hm : w.sm.versions job.versionID = some m)
    (hlanded : w.landed job.versionID = false) (hinherits : w.Inherits job) {docID : String}
    (hdoc : docID ∈ docSet (w.lineage job.versionID)) :
    ∃ change, lastChange (w.lineage job.versionID) docID = some change ∧
      latest ((writeDocuments svc job.kbID job.versionID kbMeta w.stores job.changes).docStore.db
        job.kbID docID) job.versionID = some (.content change.content) := by
  have hcreated := hbase.job_created hjob
  have hlineage : w.lineage job.versionID = w.lineage job.parentVersionID ++ job.changes :=
    hbase.lineage_created hcreated
  obtain ⟨change, hlast, hop⟩ := mem_docSet.mp hdoc
  refine ⟨change, hlast, ?_⟩
  rw [hlineage, lastChange_append] at hlast
  rw [writeDocuments_db]
  cases hown : lastChange job.changes docID with
  | some own =>
    rw [hown, some_or, some.injEq] at hlast
    subst hlast
    dsimp only
    rw [if_pos rfl]
    refine latest_of_isSome ?_
    rw [update_self, DocChange.value]
    cases hchange : own.op with
    | add | update => rfl
    | delete => exact absurd hchange hop
  | none =>
    rw [hown, none_or] at hlast
    have hfree := lastChange_eq_none_iff.mp hown
    have hin : docID ∈ docSet (w.lineage job.parentVersionID) :=
      mem_docSet.mpr ⟨change, hlast, hop⟩
    have hne : job.parentVersionID ≠ 0 := by
      intro hzero
      rw [hzero, hbase.lineage_zero] at hin
      exact absurd hin (Finset.notMem_empty docID)
    have hparent := hbase.live_parent hjob hm hlanded hne
    obtain ⟨change', hlast', hread⟩ := hcontent _ _ hparent docID hin
    rw [hlast, some.injEq] at hlast'
    subst hlast'
    -- Neither the version itself nor anything down to its parent has a record of the document.
    have hnone : w.stores.docStore.db job.kbID docID job.versionID = none := by
      by_contra hsome
      obtain ⟨x, hx⟩ := ne_none_iff_exists'.mp hsome
      obtain ⟨c, hc, -, other, hother, hdoc', -⟩ := hbase.record_created hx
      rw [hcreated, some.injEq] at hc
      subst hc
      exact hfree other hother hdoc'
    obtain ⟨n, hn⟩ : ∃ n, job.versionID = n + 1 :=
      Nat.exists_eq_succ_of_ne_zero (Nat.pos_iff_ne_zero.mp (hbase.wf.pos hm))
    have hkeys := hinherits hne docID (hbase.list_live hparent hin) hfree
    rw [hn, Nat.add_sub_cancel] at hkeys
    rw [hn] at hnone ⊢
    rw [latest_succ_of_none hnone, latest]
    unfold DocStore.visibleVersionOf at hkeys
    rw [hkeys]
    exact hread

lemma Content.committed (hcontent : Content w) (hbase : Base w) {i : Nat} (hjob : job ∈ w.jobs)
    (hcovered : w.Covered job.kbID job.versionID job.changes)
    (hinherits : (w.sm.versions job.versionID).isSome → w.landed job.versionID = false → w.Inherits
      job) : Content (w.committed svc kbMeta i job) := by
  intro kbID v hlive docID hdoc
  have hdoc' : docID ∈ docSet (w.lineage v) := hdoc
  obtain hold | ⟨rfl, hlanded, m, hm, rfl⟩ := Base.live_committed hlive
  · obtain ⟨change, hlast, hread⟩ := hcontent _ _ hold docID hdoc'
    exact ⟨change, hlast,
      (latest_documents hbase hjob (fun _ h => h) hcovered hold hdoc').trans hread⟩
  · rw [hbase.kbID_of_job hjob hm]
    exact latest_first_write hbase hcontent hjob hm hlanded
      (hinherits (by rw [hm]; rfl) hlanded) hdoc'

section

variable (hcontent : Content w) (hbase : Base w)

include hcontent hbase

lemma Content.dropVersion {u : Nat} (hdel : w.Deleting kbID u) (finished : Bool) :
    Content { w with stores := w.reclaim kbID u finished } := by
  refine hcontent.frame (fun _ _ => id) (fun _ _ _ => rfl) ?_
  intro kb v docID hlive _
  have hv : w.Live kb v := hlive
  obtain hsame | ⟨anchor, hanchor, hcut⟩ := (w.reclaim_records kbID u finished).2
  · rw [hsame]
  rw [hcut]
  by_cases hkb : kb = kbID
  · subst hkb
    have hlisted := hv.listed hbase
    refine DocStore.latest_of_isAnchor (visibilityAnchor_isAnchor hanchor ?_)
      ⟨hlisted, ?_⟩ (fun heq => hdel.not_live (heq ▸ hv)) kb docID
    · intro u hu
      obtain ⟨m, hm, -⟩ := hbase.wf.present hu
      rw [StateMachine.version, hm]
      exact hbase.wf.id_eq hm
    · obtain ⟨m, hm, -, hmdel, -⟩ := hv
      rw [StateMachine.version, hm]
      exact hmdel
  · obtain hsame | ⟨heq, -⟩ :=
      DocStore.deleteByVersionExceptVisibleFrom_db w.stores.docStore kbID u anchor kb docID
    · rw [hsame]
    · exact absurd heq hkb

lemma Content.request (now : Int) (kbID : String) (parent : Nat) (changes : List DocChange)
    (key : String) : Content (w.request now kbID parent changes key) := by
  obtain hsame | ⟨v, -, hagain⟩ | ⟨-, -, hnew⟩ := w.request_cases now kbID parent changes key
  · rw [hsame]
    exact hcontent
  · rw [hagain]
    exact hcontent.frame (fun _ _ => id) (fun _ _ _ => rfl) (fun _ _ _ _ _ => rfl)
  rw [hnew]
  refine hcontent.frame (fun _ _ => (live_allocated hbase).mp) ?_ (fun _ _ _ _ _ => rfl)
  intro kb v hlive
  obtain ⟨m, hm, -⟩ := (live_allocated hbase).mp hlive
  exact update_of_ne (ne_of_lt (hbase.wf.lt_next hm)) _ _

lemma Content.step {a : Action} (hok : w.ContentStep a) (hstep : w.step svc a = some w') :
    Content w' := by
  obtain ⟨-, hok⟩ := hok
  cases a with
  | createKB | rollback | deleteVersion | discard =>
    cases hstep
    exact hcontent.apply hbase _ _
  | request now kbID parent changes key =>
    cases hstep
    exact hcontent.request hbase now kbID parent changes key
  | writePart i done =>
    obtain ⟨job, kbMeta, hjob, -, hsub, rfl⟩ := World.step_writePart hstep
    refine hcontent.frame (fun _ _ => id) (fun _ _ _ => rfl) ?_
    intro kbID v docID hlive hdoc
    exact latest_documents hbase (List.mem_of_getElem? hjob) hsub (hok job hjob) hlive hdoc
  | write i =>
    obtain ⟨job, hjob, rfl⟩ := map_eq_some_iff.mp hstep
    have hmem := List.mem_of_getElem? hjob
    obtain ⟨hcovered, hinherits⟩ := hok job hjob
    obtain hsame | ⟨kbMeta, -, hdocs | hall⟩ := w.attempt_cases svc i job
    · rw [hsame]
      exact hcontent
    · rw [hdocs]
      refine hcontent.frame (fun _ _ => id) (fun _ _ _ => rfl) ?_
      intro kbID v docID hlive hdoc
      exact latest_documents hbase hmem (fun _ h => h) hcovered hlive hdoc
    · rw [hall]
      exact hcontent.committed hbase hmem hcovered hinherits
  | report i =>
    obtain ⟨job, -, hstep⟩ := bind_eq_some_iff.mp hstep
    obtain ⟨digest, -, rfl⟩ := map_eq_some_iff.mp hstep
    exact hcontent.apply hbase _ _
  | indexStatus | removeVersion =>
    obtain ⟨-, ⟨⟩⟩ := ite_none_right_eq_some.mp hstep
    exact hcontent.apply hbase _ _
  | dropVersion kbID v finished =>
    obtain ⟨hdel, ⟨⟩⟩ := ite_none_right_eq_some.mp hstep
    exact hcontent.dropVersion hbase hdel finished

end

/-- In every state reached by covered writes, the document set stored for a live version is
the fold of the changes along its creation chain, and each of its documents reads as the last
change on that chain left it. -/
theorem version_content (svc : Services) (limit : Nat) (epoch : String) {w : World}
    (hreach : Reach (World.step svc) World.ContentStep (World.init limit epoch) w)
    {kbID : String} {v : Nat} (hlive : w.Live kbID v) :
    w.stores.versionDocList.listDocIDs kbID v = docSet (w.lineage v) ∧
      ∀ docID ∈ docSet (w.lineage v), ∃ change, lastChange (w.lineage v) docID = some change ∧
        w.stores.docStore.readAt kbID docID v = .ok change.content := by
  have hinv : Base w ∧ Content w := by
    refine hreach.invariant (fun w => Base w ∧ Content w) ⟨Base.init limit epoch, ?_⟩ ?_
    · rintro kb u ⟨m, hm, -⟩
      cases hm
    · rintro t t' a - ⟨hbase, hcontent⟩ hok hstep
      exact ⟨hbase.step hok.1 hstep, hcontent.step hbase hok hstep⟩
  obtain ⟨hbase, hcontent⟩ := hinv
  refine ⟨Finset.Subset.antisymm ?_ (hbase.list_live hlive), ?_⟩
  · intro docID hdoc
    obtain ⟨-, -, -, hmem⟩ := hbase.list_created hdoc
    exact hmem
  · intro docID hdoc
    obtain ⟨change, hlast, hread⟩ := hcontent kbID v hlive docID hdoc
    exact ⟨change, hlast, DocStore.readAt_of_latest hread⟩

/-- A splitter that keeps each text whole, with a digest that counts the documents. -/
def wholeText : Services where
  split text _ _ := [{ chunkID := text, content := text }]
  computeDocIDSetHash docIDs := toString docIDs.card

/-- A version written, reported and indexed: its request is number `i`. -/
def landVersion (i v parent : Nat) (changes : List DocChange) : List Action :=
  [.request 0 "kb" parent changes (toString v), .write i, .report i, .indexStatus v .ready 1]

def eraseVersion (v : Nat) (mode : VersionDeleteMode) : List Action :=
  [.deleteVersion "kb" v mode, .dropVersion "kb" v true, .removeVersion "kb" v]

def addDoc (docID content : String) : DocChange := { docID, op := .add, content }

def updateDoc (docID content : String) : DocChange := { docID, op := .update, content }

/-- Three versions of a chain, the second of them then deleted alone. -/
def spliced : List Action :=
  .createKB { kbID := "kb" } :: landVersion 0 1 0 [addDoc "d" "a"] ++
    landVersion 1 2 1 [updateDoc "d" "b"] ++ landVersion 2 3 2 [addDoc "e" "x"] ++
    eraseVersion 2 .single

theorem version_content_spliced : ∃ w,
    Reach (World.step wholeText) World.ContentStep (World.init 8 "epoch") w ∧ w.Live "kb" 3 ∧
      w.lineage 3 = [addDoc "d" "a", updateDoc "d" "b", addDoc "e" "x"] ∧
      w.stores.versionDocList.listDocIDs "kb" 3 = docSet (w.lineage 3) ∧
      ∀ docID ∈ docSet (w.lineage 3), ∃ change, lastChange (w.lineage 3) docID = some change ∧
        w.stores.docStore.readAt "kb" docID 3 = .ok change.content := by
  obtain ⟨w, hreach, hlive, hlineage⟩ : ∃ w,
      Reach (World.step wholeText) World.ContentStep (World.init 8 "epoch") w ∧
        w.Live "kb" 3 ∧
        w.lineage 3 = [addDoc "d" "a", updateDoc "d" "b", addDoc "e" "x"] :=
    Reach.exists_decide spliced (by decide +kernel)
  exact ⟨w, hreach, hlive, hlineage, version_content wholeText 8 "epoch" hreach hlive⟩

/-- The record version 3 kept alive outlives it: a version made from version 1 afterwards
inherits the content of the deleted version 2. -/
theorem version_content_resurrected : ∃ w,
    Reach (World.step wholeText) World.FaithfulRequest (World.init 8 "epoch") w ∧
      w.Live "kb" 4 ∧ w.lineage 4 = [addDoc "d" "a", addDoc "f" "y"] ∧
      w.stores.docStore.readAt "kb" "d" 4 = .ok "b" :=
  Reach.exists_decide (spliced ++ eraseVersion 3 .subtree ++
    landVersion 3 4 1 [addDoc "f" "y"]) (by decide +kernel)

end stratum.version
