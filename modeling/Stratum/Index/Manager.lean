import Mathlib.Algebra.Order.Field.Rat
import Mathlib.Data.Finset.Card
import Stratum.Coordinator.Write

namespace stratum.index.manager

open Function

inductive Quantizer
  | off
  | sq8
  | sqBF16
  | sqFP16
  | pq
deriving DecidableEq

/-- The quantizer of an index, and whether it comes without the graph. -/
structure QuantizerType where
  quantizer : Quantizer
  flat : Bool
deriving DecidableEq

def graphFreeVariant (q : QuantizerType) (graphFree : Bool) : QuantizerType :=
  if graphFree then { q with flat := true } else q

def quantizerForKB (kb : KnowledgeBaseMeta) (graphFree : Bool) : QuantizerType :=
  let quantizer : Quantizer :=
    if kb.quantizerType = "SQ8" then .sq8
    else if kb.quantizerType = "SQ_BF16" then .sqBF16
    else if kb.quantizerType = "SQ_FP16" then .sqFP16
    else if kb.quantizerType = "PQ" then .pq
    else .off
  graphFreeVariant ⟨quantizer, false⟩ graphFree

/-- `buildQuantizerFromKB`: without the metadata the index is not quantized. -/
def buildQuantizerFromKB (kb : Option KnowledgeBaseMeta) (graphFree : Bool) : QuantizerType :=
  match kb with
  | none => graphFreeVariant ⟨.off, false⟩ graphFree
  | some kb => quantizerForKB kb graphFree

def quantizerNeedsTraining (q : QuantizerType) : Bool :=
  match q.quantizer with
  | .sq8 | .pq => true
  | .off | .sqBF16 | .sqFP16 => false

/-- The settings a build reads; `indexDataDir` is whether indexes are saved at all. -/
structure Config where
  indexDataDir : Bool
  appendMaxDeadRatio : Rat := 0
  maxCodebookDriftRatio : Rat := 0
  maxCodebookAppends : Int := 0
  minCodebookBaselineVectors : Int := 0

namespace Config

def defaultAppendMaxDeadRatio : Rat := 1 / 5

def defaultMaxCodebookDriftRatio : Rat := 1 / 4

def defaultMaxCodebookAppends : Int := 50

def defaultMinCodebookBaselineVectors : Int := 1000

def deadRatio (cfg : Config) : Rat :=
  if cfg.appendMaxDeadRatio ≤ 0 then defaultAppendMaxDeadRatio else cfg.appendMaxDeadRatio

/-- A trigger with a negative setting is off, one that is not set has its default. -/
def codebookDriftTrigger (cfg : Config) : Option Rat :=
  if cfg.maxCodebookDriftRatio < 0 then none
  else if cfg.maxCodebookDriftRatio = 0 then some defaultMaxCodebookDriftRatio
  else some cfg.maxCodebookDriftRatio

def codebookAppendsTrigger (cfg : Config) : Option Int :=
  if cfg.maxCodebookAppends < 0 then none
  else if cfg.maxCodebookAppends = 0 then some defaultMaxCodebookAppends
  else some cfg.maxCodebookAppends

def codebookBaseline (cfg : Config) : Int :=
  if cfg.minCodebookBaselineVectors < 0 then 0
  else if cfg.minCodebookBaselineVectors = 0 then defaultMinCodebookBaselineVectors
  else cfg.minCodebookBaselineVectors

end Config

/-- The vector store's side of one knowledge base: the chunks of the indexes it has open, and of
the artifacts on disk, by version. -/
structure Vecstore where
  indexes : Nat → Option (Finset String)
  disk : Nat → Option (Finset String)

namespace Vecstore

def build (vs : Vecstore) (v : Nat) (chunkIDs : List String) : Vecstore :=
  { vs with indexes := update vs.indexes v (some chunkIDs.toFinset) }

def addChunks (vs : Vecstore) (v : Nat) (chunkIDs : List String) : Vecstore :=
  { vs with
    indexes := update vs.indexes v ((vs.indexes v).map (· ∪ chunkIDs.toFinset)) }

def removeChunks (vs : Vecstore) (v : Nat) (chunkIDs : List String) : Vecstore :=
  { vs with
    indexes := update vs.indexes v ((vs.indexes v).map (· \ chunkIDs.toFinset)) }

/-- `LoadForAppend` opens a copy of another version's artifact. -/
def loadForAppend (vs : Vecstore) (v base : Nat) : Vecstore :=
  { vs with indexes := update vs.indexes v (vs.disk base) }

/-- `Save` replaces the artifact as a whole. -/
def save (vs : Vecstore) (v : Nat) : Vecstore :=
  { vs with disk := update vs.disk v (vs.indexes v) }

def ntotal (vs : Vecstore) (v : Nat) : Int := ((vs.indexes v).getD ∅).card

end Vecstore

/-- What the calls of one build are answered. A call that changes the vector store answers with
the error it fails with, or the memory it reports. -/
structure Answers where
  kbMeta : Option KnowledgeBaseMeta
  docIDs : Except Error (List String)
  chunkIDs : Except Error (List String)
  refreshParent : Option Nat
  trainedBaseline : Option (Int × Int)
  appendParent : Option Nat
  parentShape : Option Bool
  parentDocIDs : Except Error (List String)
  parentChunkIDs : Except Error (List String)
  loadForAppend : Option Error
  removeChunks : Option Error
  deltaVector : String → Except (Bool × String) Nat
  addDelta : Nat → Except Error Int
  saveDelta : Option Error
  parentSize : Int
  chunkVector : String → Except (Bool × String) Nat
  docIDsAgain : Except Error (List String)
  build : Except Error Int
  addChunks : Nat → Except Error Int
  save : Option Error

def wrap (text : String) (e : Error) : Error := { e with detail := text ++ e.detail }

/-- A vector that is not stored yet may still come; the text says so. -/
def chunkVectorReadErr (chunkID : String) (notFound : Bool) (text : String) : Error :=
  if notFound then
    { detail := s!"index: read chunk vector {chunkID}: not stored yet (the data is still landing): {text}" }
  else { detail := s!"index: read chunk vector {chunkID}: {text}" }

def maxBuildMessageBytes : Nat := 2 * 1024 * 1024

/-- The loop of `collectChunkBatches`: the batch being filled and its bytes, the vector bytes so
far. A batch closes when the next chunk would take it over the limit. -/
def collectFrom (read : String → Except (Bool × String) Nat) (cur : List String) (curBytes : Nat)
    (sizeBytes : Int) : List String → Except Error (List (List String) × Int)
  | [] => .ok (if cur = [] then [] else [cur], sizeBytes)
  | chunkID :: rest =>
    match read chunkID with
    | .error (notFound, text) => .error (chunkVectorReadErr chunkID notFound text)
    | .ok len =>
      let est := 4 * len + chunkID.utf8ByteSize + 64
      let size := sizeBytes + 4 * (len : Int)
      if cur ≠ [] ∧ maxBuildMessageBytes < curBytes + est then
        match collectFrom read [chunkID] est size rest with
        | .error e => .error e
        | .ok (batches, size) => .ok (cur :: batches, size)
      else collectFrom read (cur ++ [chunkID]) (curBytes + est) size rest

def collectChunkBatches (read : String → Except (Bool × String) Nat) (chunkIDs : List String) :
    Except Error (List (List String) × Int) :=
  collectFrom read [] 0 0 chunkIDs

section Build

variable (cfg : Config) (a : Answers) (versionID : Nat) (graphFree : Bool)

/-- `codebookRefreshNeeded`: whether the codebook of the parent's artifact is too old, why, and how
far the version has drifted from it. -/
def codebookRefreshNeeded (vs : Vecstore) (quantizer : QuantizerType) (totalChunks : Nat) :
    Bool × String × Rat :=
  if ¬quantizerNeedsTraining quantizer then (false, "", 0)
  else
    match a.refreshParent with
    | none => (false, "", 0)
    | some parent =>
      if parent = 0 ∨ parent = versionID ∨ (vs.disk parent).isNone then (false, "", 0)
      else
        match a.trainedBaseline with
        | none => (true, "baseline unknown", 0)
        | some (trainedNtotal, appends) =>
          if trainedNtotal ≤ 0 then (true, "baseline unknown", 0)
          else if cfg.codebookAppendsTrigger.any (· ≤ appends) then
            (true, "appends since training", 0)
          else
            let ratio : Rat := ((totalChunks : Int) - trainedNtotal : Int) / trainedNtotal
            if trainedNtotal < cfg.codebookBaseline then (false, "", ratio)
            else if cfg.codebookDriftTrigger.any (· ≤ ratio) then
              (true, "cumulative drift ratio", ratio)
            else (false, "", ratio)

/-- `appendBase`: the parent whose artifact the build can start from, the chunks to add to it and
those it has in excess. -/
def appendBase (vs : Vecstore) (chunkIDs : List String) :
    Option (Nat × List String × List String) :=
  if ¬cfg.indexDataDir ∨ chunkIDs = [] then none
  else
    match a.appendParent with
    | none => none
    | some parent =>
      if parent = 0 ∨ parent = versionID ∨ (vs.disk parent).isNone then none
      else if a.parentShape ≠ some graphFree then none
      else
        match a.parentDocIDs, a.parentChunkIDs with
        | .ok _, .ok parentChunkIDs =>
          let delta := chunkIDs.filter (· ∉ parentChunkIDs)
          if parentChunkIDs = [] ∨ delta = [] then none
          else some (parent, delta, parentChunkIDs.filter (· ∉ chunkIDs))
        | _, _ => none

/-- Why the parent's artifact was not extended after all. -/
inductive AppendFailure
  | tooManyTombstones (deadWeight total : Int)
  | failed (e : Error)
deriving DecidableEq

/-- `saveToDisk`: without a directory there is nothing to do. -/
def saveToDisk (vs : Vecstore) (answer : Option Error) : Vecstore × Option Error :=
  if ¬cfg.indexDataDir then (vs, none)
  else
    match answer with
    | some e => (vs, some (wrap "index: Save RPC: " e))
    | none => (vs.save versionID, none)

/-- Sends the batches from number `i` on with `AddChunks`, and the memory reported last. -/
def addBatches (text : String) (add : Nat → Except Error Int) (vs : Vecstore) (i : Nat)
    (reported : Int) : List (List String) → Vecstore × Except Error Int
  | [] => (vs, .ok reported)
  | batch :: batches =>
    match add i with
    | .error e => (vs, .error (wrap text e))
    | .ok memBytes => addBatches text add (vs.addChunks versionID batch) (i + 1) memBytes batches

/-- Whether the share of dead vectors is over the limit: of `baseNtotal` vectors the version needs
at most the chunks that are not new. -/
def tooManyDead (baseNtotal : Int) (delta totalChunks : Nat) : Option (Int × Int) :=
  let deadWeight := max 0 (baseNtotal - ((totalChunks : Int) - delta))
  let total := baseNtotal + delta
  if cfg.deadRatio < 1 ∧ 0 < total ∧ cfg.deadRatio < (deadWeight : Rat) / total then
    some (deadWeight, total)
  else none

/-- `buildFromBase`: extends the parent's artifact by `delta`; without a graph the dead chunks are
taken out first. -/
def buildFromBase (vs : Vecstore) (parent : Nat) (delta dead : List String) (totalChunks : Nat) :
    Vecstore × Except AppendFailure Int :=
  match a.loadForAppend with
  | some e => (vs, .error (.failed (wrap "index: LoadForAppend RPC: " e)))
  | none =>
    let vs := vs.loadForAppend versionID parent
    let removing := graphFree && !dead.isEmpty
    match (if removing then a.removeChunks else none) with
    | some e => (vs, .error (.failed (wrap "index: RemoveChunks RPC (append reuse): " e)))
    | none =>
      let vs := if removing then vs.removeChunks versionID dead else vs
      match tooManyDead cfg (vs.ntotal versionID) delta.length totalChunks with
      | some (deadWeight, total) => (vs, .error (.tooManyTombstones deadWeight total))
      | none =>
        match collectChunkBatches a.deltaVector delta with
        | .error e => (vs, .error (.failed e))
        | .ok (batches, deltaBytes) =>
          match addBatches versionID "index: AddChunks RPC (append reuse): " a.addDelta vs 0 0
              batches with
          | (vs, .error e) => (vs, .error (.failed e))
          | (vs, .ok reported) =>
            match saveToDisk cfg versionID vs a.saveDelta with
            | (vs, some e) => (vs, .error (.failed e))
            | (vs, none) => (vs, .ok (if 0 < reported then reported else a.parentSize + deltaBytes))

/-- The rest of `build` where no artifact is extended: every chunk in batches, the first with
`Build`. A version without chunks has no index; one with documents and no chunks is an error. -/
def buildFromScratch (vs : Vecstore) (kbID : String) (quantizer : QuantizerType)
    (chunkIDs : List String) : Vecstore × Except Error Int :=
  match collectChunkBatches a.chunkVector chunkIDs with
  | .error e => (vs, .error e)
  | .ok ([], _) =>
    match a.docIDsAgain with
    | .error _ | .ok [] => (vs, .ok 0)
    | .ok (id :: ids) =>
      (vs, .error { detail := s!"index: {kbID} v{versionID} has {(id :: ids).length} documents but produced no chunks: its data never landed, so there is nothing to build" })
  | .ok (batch :: batches, sizeBytes) =>
    match a.build with
    | .error e => (vs, .error (wrap "index: Build RPC: " e))
    | .ok memBytes =>
      match addBatches versionID "index: AddChunks RPC: " a.addChunks (vs.build versionID batch) 1
          memBytes batches with
      | (vs, .error e) => (vs, .error e)
      | (vs, .ok reported) =>
        let size := if quantizer ≠ ⟨.off, false⟩ ∧ 0 < reported then reported else sizeBytes
        match saveToDisk cfg versionID vs a.save with
        | (vs, some e) => (vs, .error e)
        | (vs, none) => (vs, .ok size)

/-- `IndexManagerImpl.build`. An artifact that could not be extended is built from scratch. -/
def build (vs : Vecstore) (kbID : String) (skipReuse : Bool) : Vecstore × Except Error Int :=
  let quantizer := buildQuantizerFromKB a.kbMeta graphFree
  match a.docIDs with
  | .error e => (vs, .error (wrap "index: ListDocIDs: " e))
  | .ok _ =>
    match a.chunkIDs with
    | .error e => (vs, .error (wrap "index: ListChunkIDsByDocs: " e))
    | .ok chunkIDs =>
      let skip := skipReuse || (codebookRefreshNeeded cfg a versionID vs quantizer
        chunkIDs.length).1
      match (if skip then none else appendBase cfg a versionID graphFree vs chunkIDs) with
      | none => buildFromScratch cfg a versionID vs kbID quantizer chunkIDs
      | some (parent, delta, dead) =>
        match buildFromBase cfg a versionID graphFree vs parent delta dead chunkIDs.length with
        | (vs, .ok size) => (vs, .ok size)
        | (vs, .error _) => buildFromScratch cfg a versionID vs kbID quantizer chunkIDs

end Build

end stratum.index.manager
