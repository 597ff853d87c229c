import Stratum.Coordinator.Changes
import Stratum.Coordinator.Dropper
import Stratum.Lib.Reach
import Stratum.Metadata.Apply

namespace stratum.version

open stratum.metadata stratum.coordinator Function

/-- What the request that allocated a version asked for. -/
structure Creation where
  kbID : String
  parentVersionID : Nat
  changes : List DocChange
deriving DecidableEq

/-- A write handed to the data plane: the version the control layer answered with, and the
parent and changes of the request itself. The digest of the stored document set is there
once a local write transaction of the job has committed. -/
structure Job where
  kbID : String
  versionID : Nat
  parentVersionID : Nat
  changes : List DocChange
  digest : Option String := none
deriving DecidableEq

def Job.creation (job : Job) : Creation :=
  { kbID := job.kbID, parentVersionID := job.parentVersionID, changes := job.changes }

/-- A node that holds metadata and data. `landed` tells the versions whose local write
transaction has committed; `created` and `lineage` record, for each version, the request that
allocated it and the changes along its creation chain, oldest first. -/
structure World where
  sm : StateMachine
  stores : Stores
  jobs : List Job
  landed : Nat → Bool
  created : Nat → Option Creation
  lineage : Nat → List DocChange

def World.init (limit : Nat) (epoch : String) : World where
  sm := newStateMachine limit epoch
  stores := .empty
  jobs := []
  landed _ := false
  created _ := none
  lineage _ := []

inductive Action
  | createKB (kb : KnowledgeBaseMeta)
  /-- A `CreateVersion` request; the key is the client's, or the one minted for it. -/
  | request (now : Int) (kbID : String) (parentVersionID : Nat) (changes : List DocChange)
      (clientRequestID : String)
  /-- An attempt at a job that fails after it stored the documents of `done`. -/
  | writePart (job : Nat) (done : List DocChange)
  /-- An attempt at a job that runs through. -/
  | write (job : Nat)
  /-- The writer's report of a stored version. -/
  | report (job : Nat)
  | indexStatus (versionID : Nat) (status : IndexStatus) (nodeID : Int)
  | rollback (kbID : String) (versionID : Nat)
  | deleteVersion (kbID : String) (versionID : Nat) (mode : VersionDeleteMode)
  /-- The local reclaim of a version being deleted; unfinished, it fails before the records. -/
  | dropVersion (kbID : String) (versionID : Nat) (finished : Bool)
  | removeVersion (kbID : String) (versionID : Nat)
  | discard (kbID : String) (versionID : Nat)
deriving DecidableEq

namespace World

/-- `Execute`: the change list is parked under the request's key, the version id is allocated
or, for a known key, looked up, and the parked changes are dispatched to that id. -/
def request (w : World) (now : Int) (kbID : String) (parentVersionID : Nat)
    (changes : List DocChange) (clientRequestID : String) : World :=
  if changes = [] then w
  else
    let (sm, result) := w.sm.applyCreateVersion now kbID parentVersionID clientRequestID
    match result.err with
    | some _ => w
    | none =>
      let job : Job := { kbID, versionID := result.versionID, parentVersionID, changes }
      if (w.sm.requestedVersion kbID clientRequestID).isSome then { w with jobs := w.jobs ++ [job] }
      else
        { w with
          sm := sm
          jobs := w.jobs ++ [job]
          created := update w.created job.versionID (some job.creation)
          lineage :=
            update w.lineage job.versionID (w.lineage parentVersionID ++ changes) }

/-- One attempt at the job in place `i`: the storage write, and on success the digest to be
reported. A failure of the document-set step leaves the documents written. -/
def attempt (svc : Services) (w : World) (i : Nat) (job : Job) : World :=
  match writeVersionStorage svc w.sm w.stores job.kbID job.parentVersionID job.versionID
      job.changes with
  | (stores, .error _) => { w with stores := stores }
  | (stores, .ok docIDs) =>
    { w with
      stores := stores
      landed := update w.landed job.versionID true
      jobs := w.jobs.set i { job with digest := some (svc.computeDocIDSetHash docIDs) } }

/-- Whether the version is marked for deletion in its knowledge base. -/
def Deleting (w : World) (kbID : String) (versionID : Nat) : Prop :=
  (w.sm.versions versionID).any fun m => m.kbID = kbID ∧ m.deleting = true
  deriving Decidable

/-- The reclaim of a version, up to its document set only if it does not finish. -/
def reclaim (w : World) (kbID : String) (versionID : Nat) (finished : Bool) : Stores :=
  if finished then (dropVersion w.sm w.stores kbID versionID).1
  else
    match reclaimVersionChunks w.sm w.stores kbID versionID with
    | (stores, some _) => stores
    | (stores, none) =>
      { stores with versionDocList := stores.versionDocList.deleteByVersion kbID versionID }

def step (svc : Services) (w : World) : Action → Option World
  | .createKB kb => some { w with sm := (w.sm.apply 0 (.createKB kb)).1 }
  | .request now kbID parentVersionID changes clientRequestID =>
    some (w.request now kbID parentVersionID changes clientRequestID)
  | .writePart i done =>
    w.jobs[i]?.bind fun job =>
      match w.sm.getKB job.kbID with
      | .error _ => none
      | .ok kbMeta =>
        if ∀ change ∈ done, change ∈ job.changes then
          some { w with
            stores := writeDocuments svc job.kbID job.versionID kbMeta w.stores done }
        else none
  | .write i => w.jobs[i]?.map fun job => w.attempt svc i job
  | .report i =>
    w.jobs[i]?.bind fun job => job.digest.map fun digest =>
      { w with sm := (w.sm.apply 0 (.updateVersionSummary job.versionID digest)).1 }
  | .indexStatus versionID status nodeID =>
    -- An index is built from the version's stored documents.
    if status = .pending ∨ (status = .ready ∧ w.landed versionID) then
      some { w with sm := (w.sm.apply 0 (.updateVersionStatus versionID status nodeID)).1 }
    else none
  | .rollback kbID versionID => some { w with sm := (w.sm.apply 0 (.rollback kbID versionID)).1 }
  | .deleteVersion kbID versionID mode =>
    some { w with sm := (w.sm.apply 0 (.markVersionDeleting kbID versionID mode)).1 }
  | .dropVersion kbID versionID finished =>
    if w.Deleting kbID versionID then
      some { w with stores := w.reclaim kbID versionID finished }
    else none
  | .removeVersion kbID versionID =>
    if w.Deleting kbID versionID then
      some { w with sm := (w.sm.apply 0 (.removeVersionMeta kbID versionID)).1 }
    else none
  | .discard kbID versionID => some { w with sm := (w.sm.apply 0 (.discardVersion kbID versionID)).1 }

/-- A live version: in the metadata, not being deleted, its storage write finished. -/
def Live (w : World) (kbID : String) (v : Nat) : Prop :=
  ∃ m, w.sm.versions v = some m ∧ m.kbID = kbID ∧ m.deleting = false ∧ w.landed v = true

/-- A request under a known key repeats the request that allocated the version, and no
request changes a document twice. -/
def FaithfulRequest (w : World) : Action → Prop
  | .request _ kbID parentVersionID changes clientRequestID =>
    (changes.map (·.docID)).Nodup ∧
      ∀ v ∈ w.sm.requestedVersion kbID clientRequestID,
        w.created v = some { kbID, parentVersionID, changes }
  | _ => True

instance (w : World) (a : Action) : Decidable (w.FaithfulRequest a) := by
  induction a using Action.casesOn <;> dsimp only [FaithfulRequest] <;> infer_instance

def allocated (w : World) (now : Int) (kbID : String) (parentVersionID : Nat)
    (changes : List DocChange) (clientRequestID : String) : World :=
  { w with
    sm := w.sm.allocateVersion now kbID parentVersionID clientRequestID
    jobs := w.jobs ++ [{ kbID, versionID := w.sm.nextVersionID, parentVersionID, changes }]
    created := update w.created w.sm.nextVersionID (some { kbID, parentVersionID, changes })
    lineage := update w.lineage w.sm.nextVersionID (w.lineage parentVersionID ++ changes) }

variable (w : World)

/-- The three outcomes of a request: refused, answered with a known version, or allocated. -/
lemma request_cases (now : Int) (kbID : String) (parentVersionID : Nat) (changes : List DocChange)
    (clientRequestID : String) : w.request now kbID parentVersionID changes clientRequestID = w ∨
    (∃ v, w.sm.requestedVersion kbID clientRequestID = some v ∧
      w.request now kbID parentVersionID changes clientRequestID =
        { w with jobs := w.jobs ++ [{ kbID, versionID := v, parentVersionID, changes }] }) ∨
    (w.sm.requestedVersion kbID clientRequestID = none ∧
      w.sm.parentRefused kbID parentVersionID = none ∧
      w.request now kbID parentVersionID changes clientRequestID =
        w.allocated now kbID parentVersionID changes clientRequestID) := by
  unfold request StateMachine.applyCreateVersion
  by_cases hempty : changes = []
  · exact .inl (if_pos hempty)
  rw [if_neg hempty]
  cases w.sm.kbs kbID with
  | none => exact .inl rfl
  | some kb =>
  cases w.sm.requestedVersion kbID clientRequestID with
  | some v => exact .inr (.inl ⟨v, rfl, rfl⟩)
  | none =>
    cases w.sm.parentRefused kbID parentVersionID with
    | some e => exact .inl rfl
    | none => exact .inr (.inr ⟨rfl, rfl, rfl⟩)

/-- The document set a version's own set is derived from. -/
def parentDocs (w : World) (kbID : String) (parentVersionID : Nat) : Finset String :=
  if parentVersionID = 0 then ∅ else w.stores.versionDocList.listDocIDs kbID parentVersionID

/-- The world after a job's local write transaction has committed. -/
def committed (svc : Services) (w : World) (kbMeta : KnowledgeBaseMeta) (i : Nat) (job : Job) :
    World :=
  let docIDs := applyChanges (w.parentDocs job.kbID job.parentVersionID) job.changes
  { w with
    stores := { writeDocuments svc job.kbID job.versionID kbMeta w.stores job.changes with
      versionDocList := w.stores.versionDocList.writeMany job.kbID job.versionID docIDs }
    landed := update w.landed job.versionID true
    jobs := w.jobs.set i { job with digest := some (svc.computeDocIDSetHash docIDs) } }

lemma attempt_cases (svc : Services) (w : World) (i : Nat) (job : Job) :
    w.attempt svc i job = w ∨ ∃ kbMeta, w.sm.getKB job.kbID = .ok kbMeta ∧
      (w.attempt svc i job = { w with
          stores := writeDocuments svc job.kbID job.versionID kbMeta w.stores job.changes } ∨
        w.attempt svc i job = w.committed svc kbMeta i job) := by
  unfold attempt writeVersionStorage
  cases hkb : w.sm.getKB job.kbID with
  | error e => exact .inl rfl
  | ok kbMeta =>
  refine .inr ⟨kbMeta, rfl, ?_⟩
  dsimp only
  unfold writeVersionDocList parentDocIDs committed parentDocs
  rw [writeDocuments_versionDocList]
  by_cases hroot : job.parentVersionID = 0
  · rw [if_pos hroot, if_pos hroot]
    exact .inr rfl
  rw [if_neg hroot, if_neg hroot]
  dsimp only
  cases verifyParentDocSet svc w.sm job.kbID job.parentVersionID
      (w.stores.versionDocList.listDocIDs job.kbID job.parentVersionID) with
  | error e => exact .inl rfl
  | ok _ => exact .inr rfl

variable (kbID : String) (versionID : Nat) (finished : Bool)

/-- What a reclaim does to the records and the document sets, whether it finishes or not. -/
lemma reclaim_records :
    ((w.reclaim kbID versionID finished).versionDocList = w.stores.versionDocList ∨
      (w.reclaim kbID versionID finished).versionDocList =
        w.stores.versionDocList.deleteByVersion kbID versionID) ∧
    ((w.reclaim kbID versionID finished).docStore = w.stores.docStore ∨
      ∃ anchor, visibilityAnchor w.sm kbID versionID = .ok anchor ∧
        (w.reclaim kbID versionID finished).docStore =
          w.stores.docStore.deleteByVersionExceptVisibleFrom kbID versionID anchor) := by
  unfold reclaim
  cases finished with
  | true => exact dropVersion_records w.sm w.stores kbID versionID
  | false =>
  obtain ⟨hdocs, hlist⟩ := reclaimVersionChunks_records w.sm w.stores kbID versionID
  cases hchunks : reclaimVersionChunks w.sm w.stores kbID versionID with
  | mk stores err =>
    rw [hchunks] at hdocs hlist
    cases err with
    | some e => exact ⟨.inl hlist, .inl hdocs⟩
    | none => exact ⟨.inr (congrArg (·.deleteByVersion kbID versionID) hlist), .inl hdocs⟩

lemma reclaim_pairs (kbID' : String) :
    (w.reclaim kbID versionID finished).chunkDocMapper.pairs kbID' ⊆
      w.stores.chunkDocMapper.pairs kbID' := by
  unfold reclaim
  cases finished with
  | true => exact dropVersion_pairs w.sm w.stores kbID versionID kbID'
  | false =>
  have hsub := reclaimVersionChunks_pairs w.sm w.stores kbID versionID kbID'
  cases hchunks : reclaimVersionChunks w.sm w.stores kbID versionID with
  | mk stores err =>
    rw [hchunks] at hsub
    cases err <;> exact hsub

lemma reclaim_db {w : World} {kbID : String} {versionID : Nat} {finished : Bool}
    {kbID' docID : String} {v : Nat} {x : docstore.Value}
    (hx : (w.reclaim kbID versionID finished).docStore.db kbID' docID v = some x) :
    w.stores.docStore.db kbID' docID v = some x := by
  obtain hsame | ⟨anchor, -, hcut⟩ := (w.reclaim_records kbID versionID finished).2
  · rwa [hsame] at hx
  rw [hcut] at hx
  obtain hsame | ⟨rfl, -, hcut⟩ := docstore.DocStore.deleteByVersionExceptVisibleFrom_db
    w.stores.docStore kbID versionID anchor kbID' docID
  · rwa [hsame] at hx
  rw [hcut] at hx
  by_cases hv : v = versionID
  · rw [hv, update_self] at hx
    cases hx
  · rwa [update_of_ne hv] at hx

lemma step_writePart {svc : Services} {w w' : World} {i : Nat} {done : List DocChange}
    (hstep : w.step svc (.writePart i done) = some w') :
    ∃ job kbMeta, w.jobs[i]? = some job ∧ w.sm.getKB job.kbID = .ok kbMeta ∧
      (∀ change ∈ done, change ∈ job.changes) ∧
      w' = { w with
        stores := writeDocuments svc job.kbID job.versionID kbMeta w.stores done } := by
  obtain ⟨job, hjob, hstep⟩ := Option.bind_eq_some_iff.mp hstep
  split at hstep
  · cases hstep
  next kbMeta hkb =>
  obtain ⟨hsub, ⟨⟩⟩ := Option.ite_none_right_eq_some.mp hstep
  exact ⟨job, kbMeta, hjob, hkb, hsub, rfl⟩

lemma Deleting.not_live {w : World} {kbID kbID' : String} {v : Nat}
    (hdel : w.Deleting kbID v) : ¬ w.Live kbID' v := by
  rintro ⟨m, hm, -, hmdel, -⟩
  unfold Deleting at hdel
  rw [hm, Option.any_some, decide_eq_true_eq, hmdel] at hdel
  cases hdel.2

end World

end stratum.version
