import Stratum.Coordinator.Changes
import Stratum.Coordinator.Dropper
import Stratum.Lib.Reach
import Stratum.Metadata.Effect

namespace stratum.metadata.StateMachine

/-- `LastVersionID`: the versions are listed in the order of their ids. -/
def lastVersionID (sm : StateMachine) (kbID : String) : Except Error Nat :=
  match sm.kbs kbID with
  | none => .error Sentinel.knowledgeBaseNotFound.err
  | some _ => .ok ((sm.versionsByKB kbID).getLastD 0)

end stratum.metadata.StateMachine

namespace stratum.coordinator.gc

open stratum.metadata Function

/-- Where the write of one document stands: the chunks still to be looked up and those found
missing, the missing ones still to be stored, the chunk about to be stored, the pairs, the
record. -/
inductive Phase
  | checking (todo pending : List String)
  | storing (todo : List String)
  | writing (chunkID : String) (todo : List String)
  | mapping
  | document
  | tombstone
  | done
deriving DecidableEq

/-- The write of one document of a version. -/
structure Thread where
  change : DocChange
  phase : Phase
deriving DecidableEq

/-- The storage transaction of a version: one thread for each change, the chunks that a check has
found present, and whether the document set is written. -/
structure Write where
  parentVersionID : Nat
  changes : List DocChange
  threads : List Thread
  present : Finset String
  listed : Bool

/-- A chunk being judged: its documents, and the reads that are left. -/
structure Judgement where
  chunkID : String
  docIDs : List String
  reads : List (String × Nat)
deriving DecidableEq

/-- What a collector goes back to when it gives up the lock. -/
inductive After
  | sweep (snapshot : List Nat) (todo : List String)
  | reclaim
deriving DecidableEq

/-- A collector between two operations. A sweep judges without the lock first; from `entered`,
`relisting` and `reclaiming` on the collector has the lock of the knowledge base. -/
inductive Collector
  | idle
  | listing (snapshot : List Nat)
  | sweeping (snapshot : List Nat) (todo : List String)
  | judging (snapshot : List Nat) (todo : List String) (judgement : Judgement)
  | candidate (snapshot : List Nat) (todo : List String) (chunkID : String)
  | entered (snapshot : List Nat) (todo : List String) (chunkID : String)
  | relisting (snapshot : List Nat) (todo : List String) (chunkID : String)
  | scanned (versionID : Nat) (chunkIDs : List String)
  | reclaiming (versionID : Nat) (chunkIDs : List String)
  | ready (live : List Nat) (chunkIDs : List String) (after : After)
  | confirming (live : List Nat) (todo : List String) (judgement : Judgement) (after : After)
  | unmapping (live : List Nat) (todo : List String) (chunkID : String) (docIDs : List String)
      (after : After)
  | removing (live : List Nat) (todo : List String) (chunkID : String) (after : After)
deriving DecidableEq

/-- The chunks a collector with the lock has still to decide about. -/
def Collector.guards : Collector → List String
  | .entered _ _ chunkID | .relisting _ _ chunkID => [chunkID]
  | .reclaiming _ chunkIDs | .ready _ chunkIDs _ => chunkIDs
  | .confirming _ todo judgement _ => judgement.chunkID :: todo
  | .unmapping _ todo chunkID _ _ | .removing _ todo chunkID _ => chunkID :: todo
  | _ => []

/-- Gives up the lock. -/
def Collector.afterwards : After → Collector
  | .sweep snapshot todo => .sweeping snapshot todo
  | .reclaim => .idle

/-- One node and one knowledge base: the metadata as the node reads it, its stores, the writes in
progress, the committed ones, the versions whose own reclaim has begun, the collectors, and which
of them has the lock. -/
structure World where
  sm : StateMachine
  st : Stores
  writes : Nat → Option Write
  committed : Nat → Option (List DocChange)
  dropped : Finset Nat
  collectors : List Collector
  lock : Option Nat

/-- The metadata learns a command, a dispatched write starts, one of its threads takes its next
step (with what the bloom filter answers), it writes the document set, commits or fails; a
collector begins a sweep or the reclaim of a version, takes its next step (with the order in which
a listing comes) or gives up with an error; the document set and the records of a reclaimed version
go. -/
inductive Action
  | apply (now : Int) (cmd : Command)
  | start (parentVersionID versionID : Nat) (changes : List DocChange)
  | write (versionID thread : Nat) (hint : Bool)
  | list (versionID : Nat)
  | commit (versionID : Nat)
  | fail (versionID : Nat)
  | sweep (collector : Nat)
  | reclaim (collector versionID : Nat) (order : List String)
  | collect (collector : Nat) (order : List String)
  | giveUp (collector : Nat)
  | dropRecords (versionID anchorVersionID : Nat)

section Steps

variable (svc : Services) (kbID : String) (kbMeta : KnowledgeBaseMeta)

def chunkIDs (content : String) : List String :=
  (svc.split content kbMeta.chunking kbMeta.embedConfig.modelID).map (·.chunkID)

/-- The chunks of the documents a list of changes adds or updates. -/
def chunksOf (changes : List DocChange) : List String :=
  (changes.filter (·.op ≠ .delete)).flatMap fun change => chunkIDs svc kbMeta change.content

/-- `writeOneChange` at its beginning. -/
def Thread.begin (change : DocChange) : Thread where
  change := change
  phase :=
    match change.op with
    | .add | .update =>
      if chunkIDs svc kbMeta change.content = [] then .document
      else .checking (chunkIDs svc kbMeta change.content) []
    | .delete => .tombstone

/-- `chunkPresent`: the filter only hints. -/
def chunkPresent (st : Stores) (present : Finset String) (hint : Bool) (chunkID : String) : Bool :=
  chunkID ∈ present || (hint && decide (chunkID ∈ st.chunkStore.vectors kbID))

/-- The next operation of `writeDocument`, or of the tombstone of a deletion. -/
def Thread.step (versionID : Nat) (hint : Bool) (st : Stores) (present : Finset String)
    (t : Thread) : Option (Stores × Finset String × Thread) :=
  match t.phase with
  | .checking (chunkID :: todo) pending =>
    some (if chunkPresent kbID st present hint chunkID then
      (st, insert chunkID present, { t with phase := .checking todo pending })
    else (st, present, { t with phase := .checking todo (pending ++ [chunkID]) }))
  | .checking [] pending => some (st, present, { t with phase := .storing pending })
  | .storing (chunkID :: todo) =>
    some (if chunkPresent kbID st present hint chunkID then
      (st, insert chunkID present, { t with phase := .storing todo })
    else (st, present, { t with phase := .writing chunkID todo }))
  | .storing [] => some (st, present, { t with phase := .mapping })
  | .writing chunkID todo =>
    some ({ st with chunkStore := st.chunkStore.writeMany kbID {chunkID} },
      insert chunkID present, { t with phase := .storing todo })
  | .mapping =>
    let ids := (chunkIDs svc kbMeta t.change.content).toFinset
    some ({ st with chunkDocMapper := st.chunkDocMapper.writeMany kbID t.change.docID ids },
      present, { t with phase := .document })
  | .document =>
    let content := some t.change.content
    some ({ st with docStore := st.docStore.write kbID t.change.docID versionID content },
      present, { t with phase := .done })
  | .tombstone =>
    some ({ st with docStore := st.docStore.write kbID t.change.docID versionID none },
      present, { t with phase := .done })
  | .done => none

/-- The reads that judge a chunk: each document, newest version first. -/
def readsOf (docIDs : List String) (live : List Nat) : List (String × Nat) :=
  docIDs.flatMap fun docID => live.reverse.map fun v => (docID, v)

/-- Whether a document has content in a version. -/
def readable (st : Stores) (docID : String) (v : Nat) : Bool :=
  match st.docStore.readAt kbID docID v with
  | .error _ => false
  | .ok content => content ≠ ""

/-- What the next operation of a collector comes to: its new standing, the stores, and the version
that it stops counting as live. An operation that fails has no outcome; the pass then gives up. -/
def Collector.step (sm : StateMachine) (st : Stores) (order : List String) :
    Collector → Option (Collector × Stores × Option Nat)
  | .listing snapshot =>
    -- `ListChunkIDs`
    if order.toFinset = (st.chunkDocMapper.pairs kbID).image Prod.fst then
      some (.sweeping snapshot order, st, none)
    else none
  | .sweeping _ [] => some (.idle, st, none)
  | .sweeping snapshot (chunkID :: todo) =>
    if order.toFinset = st.chunkDocMapper.listDocIDs kbID chunkID then
      some (.judging snapshot todo ⟨chunkID, order, readsOf order snapshot⟩, st, none)
    else none
  | .judging snapshot todo ⟨chunkID, docIDs, []⟩ =>
    if docIDs = [] then some (.sweeping snapshot todo, st, none)
    else some (.candidate snapshot todo chunkID, st, none)
  | .judging snapshot todo ⟨chunkID, docIDs, (docID, v) :: reads⟩ =>
    if readable kbID st docID v then some (.sweeping snapshot todo, st, none)
    else some (.judging snapshot todo ⟨chunkID, docIDs, reads⟩, st, none)
  | .candidate snapshot todo chunkID => some (.entered snapshot todo chunkID, st, none)
  | .entered snapshot todo chunkID =>
    match sm.lastVersionID kbID with
    | .error _ => none
    | .ok tail =>
      if tail = 0 then some (.sweeping snapshot todo, st, none)
      else if tail = snapshot.getLastD 0 then
        some (.ready snapshot [chunkID] (.sweep snapshot todo), st, none)
      else some (.relisting snapshot todo chunkID, st, none)
  | .relisting snapshot todo chunkID =>
    match liveVersionIDs sm kbID 0 with
    | .error _ => none
    | .ok live =>
      if live = [] then some (.sweeping snapshot todo, st, none)
      else some (.ready live [chunkID] (.sweep snapshot todo), st, none)
  | .scanned versionID chunkIDs => some (.reclaiming versionID chunkIDs, st, none)
  | .reclaiming versionID chunkIDs =>
    match liveVersionIDs sm kbID versionID with
    | .error _ => none
    | .ok live => some (.ready live chunkIDs .reclaim, st, some versionID)
  | .ready _ [] after => some (Collector.afterwards after, st, none)
  | .ready live (chunkID :: todo) after =>
    if order.toFinset = st.chunkDocMapper.listDocIDs kbID chunkID then
      some (.confirming live todo ⟨chunkID, order, readsOf order live⟩ after, st, none)
    else none
  | .confirming live todo ⟨chunkID, docIDs, []⟩ after =>
    if docIDs = [] then some (.ready live todo after, st, none)
    else some (.unmapping live todo chunkID docIDs after, st, none)
  | .confirming live todo ⟨chunkID, docIDs, (docID, v) :: reads⟩ after =>
    if readable kbID st docID v then some (.ready live todo after, st, none)
    else some (.confirming live todo ⟨chunkID, docIDs, reads⟩ after, st, none)
  | .unmapping live todo chunkID (docID :: docIDs) after =>
    some (.unmapping live todo chunkID docIDs after,
      { st with chunkDocMapper := st.chunkDocMapper.deleteMapping kbID chunkID docID }, none)
  | .unmapping live todo chunkID [] after => some (.removing live todo chunkID after, st, none)
  | .removing live todo chunkID after =>
    some (.ready live todo after,
      { st with chunkStore := st.chunkStore.deleteChunks kbID {chunkID} }, none)
  | .idle => none

/-- Whether a collector waits for the lock, and whether it has it. -/
def Collector.waiting : Collector → Bool
  | .candidate .. | .scanned .. => true
  | _ => false

def Collector.holding : Collector → Bool
  | .entered .. | .relisting .. | .reclaiming .. | .ready .. | .confirming .. | .unmapping ..
  | .removing .. => true
  | _ => false

/-- The collector takes a new standing, and the lock with it or off it. -/
def World.setCollector (w : World) (i : Nat) (c : Collector) : World :=
  { w with
    collectors := w.collectors.set i c
    lock := if c.holding then some i else if w.lock = some i then none else w.lock }

def World.step (w : World) : Action → Option World
  | .apply now cmd => some { w with sm := (w.sm.apply now cmd).1 }
  | .start parentVersionID versionID changes =>
    if (w.writes versionID).isNone then
      some { w with
        writes := update w.writes versionID
          (some ⟨parentVersionID, changes, changes.map (Thread.begin svc kbMeta), ∅, false⟩)
        committed := update w.committed versionID none
        dropped := w.dropped.erase versionID }
    else none
  | .write versionID thread hint =>
    (w.writes versionID).bind fun write =>
      (write.threads[thread]?).bind fun t =>
        (t.step svc kbID kbMeta versionID hint w.st write.present).map fun (st, present, t) =>
          { w with
            st := st
            writes := update w.writes versionID
              (some { write with threads := write.threads.set thread t, present := present }) }
  | .list versionID =>
    (w.writes versionID).bind fun write =>
      if write.threads.all (·.phase = .done) then
        match writeVersionDocList svc w.sm w.st kbID write.parentVersionID versionID
            write.changes with
        | (_, .error _) => none
        | (st, .ok _) =>
          some { w with
            st := st
            writes := update w.writes versionID (some { write with listed := true }) }
      else none
  | .commit versionID =>
    (w.writes versionID).bind fun write =>
      if write.listed ∧ write.threads.all (·.phase = .done) then
        some { w with
          writes := update w.writes versionID none
          committed := update w.committed versionID (some write.changes) }
      else none
  | .fail versionID => some { w with writes := update w.writes versionID none }
  | .sweep i =>
    if w.collectors[i]? = some .idle then
      match liveVersionIDs w.sm kbID 0 with
      | .error _ => none
      | .ok [] => some w
      | .ok (v :: snapshot) => some (w.setCollector i (.listing (v :: snapshot)))
    else none
  | .reclaim i versionID order =>
    if w.collectors[i]? = some .idle ∧ order.toFinset = w.st.chunkDocMapper.listChunkIDsByDocs kbID
        (w.st.versionDocList.listDocIDs kbID versionID) then
      if order = [] then some { w with dropped := insert versionID w.dropped }
      else some (w.setCollector i (.scanned versionID order))
    else none
  | .collect i order =>
    (w.collectors[i]?).bind fun c =>
      if c.waiting ∧ w.lock.isSome then none
      else
        (c.step kbID w.sm w.st order).map fun (c, st, except) =>
          World.setCollector
            { w with st := st, dropped := except.elim w.dropped (insert · w.dropped) } i c
  | .giveUp i => if i < w.collectors.length then some (w.setCollector i .idle) else none
  | .dropRecords versionID anchorVersionID =>
    if versionID ∈ w.dropped then
      some { w with st := { w.st with
        versionDocList := w.st.versionDocList.deleteByVersion kbID versionID
        docStore := w.st.docStore.deleteByVersionExceptVisibleFrom kbID versionID
          anchorVersionID } }
    else none

/-- A node with so many collectors and nothing stored. -/
def World.init (sm : StateMachine) (collectors : Nat) : World where
  sm := sm
  st := .empty
  writes _ := none
  committed _ := none
  dropped := ∅
  collectors := List.replicate collectors .idle
  lock := none

end Steps

end stratum.coordinator.gc
