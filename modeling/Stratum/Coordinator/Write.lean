import Stratum.Chunkdoc.Pebble
import Stratum.Docstore.Pebble
import Stratum.Metadata.Reads
import Stratum.Versiondoc.Pebble

namespace stratum.coordinator

open stratum.metadata stratum.docstore stratum.versiondoc stratum.chunkdoc

/-- What a storage node keeps: document records, the document set of each version, the
chunk-to-document pairs and the chunk vectors. -/
structure Stores where
  docStore : DocStore
  versionDocList : VersionDocList
  chunkDocMapper : ChunkDocMapper
  chunkStore : ChunkStore

def Stores.empty : Stores :=
  { docStore := .empty, versionDocList := .empty, chunkDocMapper := .empty, chunkStore := .empty }

/-- The two collaborators the write path calls: the splitter, which turns a text into chunks
for the knowledge base's parameters and embedding model, and the digest of a document set. -/
structure Services where
  split : String → ChunkParams → String → List Chunk
  computeDocIDSetHash : Finset String → String

/-- Stores one added or updated document: its new chunk vectors, the pairs of all its chunks
(the ones already stored included), and its content at the version. -/
def writeDocument (svc : Services) (kbID : String) (versionID : Nat) (kbMeta : KnowledgeBaseMeta)
    (st : Stores) (change : DocChange) : Stores :=
  let chunks := svc.split change.content kbMeta.chunking kbMeta.embedConfig.modelID
  let chunkIDs := (chunks.map (·.chunkID)).toFinset
  if chunks.isEmpty then
    { st with docStore := st.docStore.write kbID change.docID versionID (some change.content) }
  else
    { st with
      chunkStore := st.chunkStore.writeMany kbID chunkIDs
      chunkDocMapper := st.chunkDocMapper.writeMany kbID change.docID chunkIDs
      docStore := st.docStore.write kbID change.docID versionID (some change.content) }

/-- A deletion writes a tombstone and leaves the chunk pairs alone. -/
def writeOneChange (svc : Services) (kbID : String) (versionID : Nat)
    (kbMeta : KnowledgeBaseMeta) (st : Stores) (change : DocChange) : Stores :=
  match change.op with
  | .add | .update => writeDocument svc kbID versionID kbMeta st change
  | .delete => { st with docStore := st.docStore.write kbID change.docID versionID none }

/-- The document phase of a version's write, in the order of the changes. The source runs them
concurrently; where no two changes differ about a document, one order stands for all. -/
def writeDocuments (svc : Services) (kbID : String) (versionID : Nat)
    (kbMeta : KnowledgeBaseMeta) (st : Stores) (changes : List DocChange) : Stores :=
  changes.foldl (writeOneChange svc kbID versionID kbMeta) st

def applyChanges (docs : Finset String) (changes : List DocChange) : Finset String :=
  changes.foldl (fun docs change =>
    match change.op with
    | .add | .update => insert change.docID docs
    | .delete => docs.erase change.docID) docs

/-- Whether the parent's set read here is the one committed for it; no committed digest means
nothing to compare with. -/
def verifyParentDocSet (svc : Services) (sm : StateMachine) (kbID : String)
    (parentVersionID : Nat) (docIDs : Finset String) : Except Error Unit :=
  match sm.getVersion kbID parentVersionID with
  | .error e =>
    .error { e with detail := s!"coordinator: read parent version {parentVersionID} metadata" }
  | .ok parent =>
    let got := svc.computeDocIDSetHash docIDs
    let committed := parent.docIDSetHash
    if committed = "" ∨ got = committed then .ok ()
    else
      .error (Sentinel.indexNotReady.wrap
        (s!"coordinator: parent version {parentVersionID}'s local document set does not match its committed digest "
          ++ s!"(local {got}, committed {committed}): this node does not hold the parent version's data, so deriving "
          ++ "the child's document set here would drop every inherited document"))

/-- The parent's document set as this node has it. -/
def parentDocIDs (svc : Services) (sm : StateMachine) (st : Stores) (kbID : String)
    (parentVersionID : Nat) : Except Error (Finset String) :=
  if parentVersionID = 0 then .ok ∅
  else
    let docIDs := st.versionDocList.listDocIDs kbID parentVersionID
    match verifyParentDocSet svc sm kbID parentVersionID docIDs with
    | .error e => .error e
    | .ok () => .ok docIDs

/-- Writes the new version's whole document set, its parent's set with the changes applied. -/
def writeVersionDocList (svc : Services) (sm : StateMachine) (st : Stores) (kbID : String)
    (parentVersionID newVersionID : Nat) (changes : List DocChange) :
    Stores × Except Error (Finset String) :=
  match parentDocIDs svc sm st kbID parentVersionID with
  | .error e => (st, .error e)
  | .ok parentDocs =>
    let docIDs := applyChanges parentDocs changes
    ({ st with versionDocList := st.versionDocList.writeMany kbID newVersionID docIDs }, .ok docIDs)

/-- One version's storage write: the documents first, then the document set. -/
def writeVersionStorage (svc : Services) (sm : StateMachine) (st : Stores) (kbID : String)
    (parentVersionID versionID : Nat) (changes : List DocChange) :
    Stores × Except Error (Finset String) :=
  match sm.getKB kbID with
  | .error e => (st, .error e)
  | .ok kbMeta =>
    writeVersionDocList svc sm (writeDocuments svc kbID versionID kbMeta st changes) kbID
      parentVersionID versionID changes

end stratum.coordinator
