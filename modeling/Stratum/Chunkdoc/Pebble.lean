import Mathlib.Data.Finset.Image

namespace stratum.chunkdoc

open Function

/-- Which documents a chunk belongs to, as `(chunkID, docID)` pairs by knowledge base. The
source keeps a forward and a reverse key for each pair and writes and deletes the two in one
batch, so they are one relation. It carries no version. -/
structure ChunkDocMapper where
  pairs : String → Finset (String × String)

namespace ChunkDocMapper

def empty : ChunkDocMapper where
  pairs _ := ∅

/-- Maps all chunks of a document to it; earlier pairs stay. -/
def writeMany (m : ChunkDocMapper) (kbID docID : String) (chunkIDs : Finset String) :
    ChunkDocMapper where
  pairs := update m.pairs kbID (m.pairs kbID ∪ chunkIDs.image fun c => (c, docID))

def listDocIDs (m : ChunkDocMapper) (kbID chunkID : String) : Finset String :=
  ((m.pairs kbID).filter fun p => p.1 = chunkID).image Prod.snd

/-- The chunks of any of the documents. -/
def listChunkIDsByDocs (m : ChunkDocMapper) (kbID : String) (docIDs : Finset String) :
    Finset String :=
  ((m.pairs kbID).filter fun p => p.2 ∈ docIDs).image Prod.fst

/-- Removes every pair of the given chunks. -/
def deleteChunks (m : ChunkDocMapper) (kbID : String) (chunkIDs : Finset String) :
    ChunkDocMapper where
  pairs := update m.pairs kbID ((m.pairs kbID).filter fun p => p.1 ∉ chunkIDs)

/-- Removes the pair of one chunk and one document. -/
def deleteMapping (m : ChunkDocMapper) (kbID chunkID docID : String) : ChunkDocMapper where
  pairs := update m.pairs kbID ((m.pairs kbID).erase (chunkID, docID))

variable {m : ChunkDocMapper} {kbID chunkID docID : String}

@[simp]
lemma mem_listDocIDs : docID ∈ m.listDocIDs kbID chunkID ↔ (chunkID, docID) ∈ m.pairs kbID := by
  simp [listDocIDs]

@[simp]
lemma mem_listChunkIDsByDocs {docIDs : Finset String} : chunkID ∈ m.listChunkIDsByDocs kbID docIDs ↔
      ∃ docID ∈ docIDs, (chunkID, docID) ∈ m.pairs kbID := by
  simp [listChunkIDsByDocs, and_comm]

end ChunkDocMapper

/-- The chunks whose vector a node holds, by knowledge base. -/
structure ChunkStore where
  vectors : String → Finset String

namespace ChunkStore

def empty : ChunkStore where
  vectors _ := ∅

def writeMany (c : ChunkStore) (kbID : String) (chunkIDs : Finset String) : ChunkStore where
  vectors := update c.vectors kbID (c.vectors kbID ∪ chunkIDs)

def deleteChunks (c : ChunkStore) (kbID : String) (chunkIDs : Finset String) : ChunkStore where
  vectors := update c.vectors kbID (c.vectors kbID \ chunkIDs)

end ChunkStore

end stratum.chunkdoc
