import Mathlib.Init

namespace stratum

/-! Data carriers shared by the metadata state machine, the stores and the coordinators. A
field that Go leaves at its zero value is the field's default here. Version ids are natural
numbers: the replicated counter hands them out from `1` upwards, and `0` is "no version". -/

inductive IndexStatus
  | pending
  | ready
  | failed
  | failedPermanent
deriving DecidableEq, Inhabited

def IndexStatus.toString : IndexStatus → String
  | .pending => "PENDING"
  | .ready => "READY"
  | .failed => "FAILED"
  | .failedPermanent => "FAILED_PERMANENT"

/-- Which half of a version's write a failure belongs to. -/
inductive FailureSide
  | data
  | index
deriving DecidableEq, Inhabited

inductive DataStatus
  | pending
  | durable
  | failedPermanent
deriving DecidableEq, Inhabited

def DataStatus.toString : DataStatus → String
  | .pending => "DATA_PENDING"
  | .durable => "DATA_DURABLE"
  | .failedPermanent => "DATA_FAILED_PERMANENT"

inductive KBStatus
  | active
  | deleting
  | deleteFailed
deriving DecidableEq, Inhabited

/-- Which versions a deletion removes relative to its target; `other` is a number the
source's enumeration does not name. -/
inductive VersionDeleteMode
  | subtree
  | single
  | ancestors
  | other (code : Nat)
deriving DecidableEq

/-- The splitting algorithm of a knowledge base: the name is stored as text, and every text
but `"window"` selects content-defined chunking. -/
abbrev ChunkMode := String

def chunkModeWindow : ChunkMode := "window"

def chunkModeCDC : ChunkMode := "cdc"

structure ChunkParams where
  mode : ChunkMode
  windowSize : Int := 0
  overlapSize : Int := 0
  minSize : Int := 0
  maxSize : Int := 0
  avgBits : Int := 0
deriving DecidableEq

structure EmbedConfig where
  serviceAddr : String := ""
  modelID : String := ""
deriving DecidableEq

/-- Knowledge base metadata held by the replicated state machine. -/
structure KnowledgeBaseMeta where
  kbID : String
  name : String := ""
  chunkWindowSize : Int := 0
  chunkOverlapSize : Int := 0
  chunkMode : ChunkMode := ""
  chunkMinSize : Int := 0
  chunkMaxSize : Int := 0
  chunkAvgBits : Int := 0
  indexType : String := ""
  similarity : String := ""
  quantizerType : String := ""
  quantizerPQM : Int := 0
  quantizerPQNBits : Int := 0
  embedConfig : EmbedConfig := {}
  activeVersionID : Nat := 0
  status : KBStatus := .active
deriving DecidableEq

def defaultChunkWindowSize : Int := 512

def defaultChunkOverlapSize : Int := 64

def defaultChunkMinSize : Int := 256

def defaultChunkMaxSize : Int := 1536

def defaultChunkAvgBits : Int := 9

/-- The splitter input of a knowledge base's versions, with the defaults filled in for what
the stored metadata leaves unset. -/
def KnowledgeBaseMeta.chunking (kb : KnowledgeBaseMeta) : ChunkParams :=
  if kb.chunkMode = chunkModeWindow then
    { mode := chunkModeWindow
      windowSize := if kb.chunkWindowSize ≤ 0 then defaultChunkWindowSize else kb.chunkWindowSize
      overlapSize :=
        if kb.chunkOverlapSize < 0 then defaultChunkOverlapSize else kb.chunkOverlapSize }
  else
    { mode := chunkModeCDC
      minSize := if kb.chunkMinSize ≤ 0 then defaultChunkMinSize else kb.chunkMinSize
      maxSize := if kb.chunkMaxSize ≤ 0 then defaultChunkMaxSize else kb.chunkMaxSize
      avgBits := if kb.chunkAvgBits ≤ 0 then defaultChunkAvgBits else kb.chunkAvgBits }

/-- One entry of the bounded deletion log; version `0` names the whole knowledge base. -/
structure DeletedVersion where
  seq : Nat
  kbID : String
  versionID : Nat
deriving DecidableEq

/-- Version metadata held by the replicated state machine. -/
structure VersionMeta where
  versionID : Nat := 0
  parentVersionID : Nat := 0
  kbID : String := ""
  createdAt : Int := 0
  indexStatus : IndexStatus := .pending
  dataStatus : DataStatus := .pending
  indexReadyNodes : List Int := []
  docIDSetHash : String := ""
  failureReason : String := ""
  failureCount : Int := 0
  failureSide : FailureSide := .data
  deleting : Bool := false
deriving DecidableEq, Inhabited

inductive ChangeOp
  | add
  | delete
  | update
deriving DecidableEq

structure DocChange where
  op : ChangeOp
  docID : String
  content : String := ""
deriving DecidableEq

/-- A fragment of a document, named by the digest of its text and embedding model. -/
structure Chunk where
  chunkID : String
  content : String
deriving DecidableEq

end stratum
