import Stratum.Coordinator.Changes
import Stratum.Index.Manager
import Stratum.Metadata.Apply

namespace stratum.index.manager

open stratum.coordinator Finset List

/-- The chunks of a version, its documents read in one state of the stores and their chunks in
another. -/
def chunksAt (docs chunks : Stores) (kbID : String) (versionID : Nat) : Finset String :=
  chunks.chunkDocMapper.listChunkIDsByDocs kbID (docs.versionDocList.listDocIDs kbID versionID)

/-- The stores when a build makes each of its reads. -/
structure Moments where
  docIDs : Stores
  chunkIDs : Stores
  parentDocIDs : Stores
  parentChunkIDs : Stores

namespace Moments

variable (r : Moments) (kbID : String)

def version (versionID : Nat) : Finset String := chunksAt r.docIDs r.chunkIDs kbID versionID

def parent (versionID : Nat) : Finset String :=
  chunksAt r.parentDocIDs r.parentChunkIDs kbID versionID

end Moments

/-- The answers of a build are those of the stores, and of a metadata with this parent. -/
structure Answers.From (a : Answers) (r : Moments) (kbID : String) (versionID parentID : Nat) :
    Prop where
  chunkIDs : ∀ docIDs ids, a.docIDs = .ok docIDs → a.chunkIDs = .ok ids →
    ids.toFinset = r.version kbID versionID
  parent : ∀ id, a.appendParent = some id → id = parentID
  parentChunkIDs : ∀ docIDs ids, a.parentDocIDs = .ok docIDs → a.parentChunkIDs = .ok ids →
    ids.toFinset = r.parent kbID parentID

/-- The chunks of the artifact a version has on disk. -/
def Vecstore.artifact (vs : Vecstore) (versionID : Nat) : Finset String :=
  (vs.disk versionID).getD ∅

variable {batches : List (List String)} {ids dead delta chunkIDs : List String}
  {read : String → Except (Bool × String) Nat} {size : Int} {kbID : String} {base : Finset String}
  {parent : Nat}

lemma collectFrom_flatten {cur : List String} {curBytes : Nat} {sizeBytes : Int}
    (hcollect : collectFrom read cur curBytes sizeBytes ids = .ok (batches, size)) :
    batches.flatten = cur ++ ids := by
  induction ids generalizing cur curBytes sizeBytes size batches with
  | nil =>
    cases hcollect
    split
    · next hcur => simp [hcur]
    · simp
  | cons chunkID rest ih =>
    unfold collectFrom at hcollect
    dsimp only at hcollect
    split at hcollect
    · cases hcollect
    split at hcollect
    · split at hcollect
      · cases hcollect
      next hrest =>
      cases hcollect
      rw [flatten_cons, ih hrest, singleton_append]
    · rw [ih hcollect, append_assoc, singleton_append]

lemma collectFrom_isOk (hread : ∀ c, read c = .ok 0) (cur ids : List String) (curBytes : Nat)
    (sizeBytes : Int) : ∃ result, collectFrom read cur curBytes sizeBytes ids = .ok result := by
  induction ids generalizing cur curBytes sizeBytes with
  | nil => exact ⟨_, rfl⟩
  | cons chunkID rest ih =>
  unfold collectFrom
  rw [hread]
  dsimp only
  split
  · obtain ⟨⟨batches, size⟩, hrest⟩ := ih [chunkID] (4 * 0 + chunkID.utf8ByteSize + 64)
      (sizeBytes + 4 * ((0 : Nat) : Int))
    rw [hrest]
    exact ⟨_, rfl⟩
  · exact ih ..

section Vectors

variable {cfg : Config} {a : Answers} {v : Nat} {graphFree : Bool} {vs vs' : Vecstore}
  {text : String} {add : Nat → Except Error Int}

lemma addBatches_ok {i : Nat} {reported mem : Int}
    (hadd : addBatches v text add vs i reported batches = (vs', .ok mem)) : vs'.disk = vs.disk ∧
      vs'.indexes v = (vs.indexes v).map (· ∪ batches.flatten.toFinset) := by
  induction batches generalizing vs i reported with
  | nil =>
    cases hadd
    simp
  | cons batch batches ih =>
  unfold addBatches at hadd
  split at hadd
  · cases hadd
  obtain ⟨hdisk, hindex⟩ := ih hadd
  refine ⟨hdisk, hindex.trans ?_⟩
  simp [Vecstore.addChunks, Function.comp_def]

lemma addBatches_isOk (hok : ∀ i, add i = .ok 0) (vs : Vecstore) (i : Nat) (reported : Int)
    (batches : List (List String)) :
    ∃ vs' mem, addBatches v text add vs i reported batches = (vs', .ok mem) := by
  induction batches generalizing vs i reported with
  | nil => exact ⟨vs, reported, rfl⟩
  | cons batch batches ih =>
    unfold addBatches
    rw [hok]
    exact ih ..

section

variable (hdir : cfg.indexDataDir = true)

include hdir

lemma saveToDisk_ok {answer : Option Error} (hsave : saveToDisk cfg v vs answer = (vs', none)) :
    vs' = vs.save v := by
  unfold saveToDisk at hsave
  rw [if_neg (by simp [hdir])] at hsave
  cases answer with
  | some e => cases hsave
  | none =>
    cases hsave
    rfl

lemma buildFromScratch_ok {quantizer : QuantizerType}
    (hbuild : buildFromScratch cfg a v vs kbID quantizer chunkIDs = (vs', .ok size)) :
    chunkIDs.toFinset ⊆ vs'.artifact v := by
  unfold buildFromScratch at hbuild
  cases hcollect : collectChunkBatches a.chunkVector chunkIDs with
  | error e =>
    rw [hcollect] at hbuild
    cases hbuild
  | ok result =>
  obtain ⟨batches, sizeBytes⟩ := result
  rw [hcollect] at hbuild
  have hflatten := collectFrom_flatten hcollect
  rw [nil_append] at hflatten
  cases batches with
  | nil =>
    rw [← hflatten]
    simp
  | cons batch batches =>
  dsimp only at hbuild
  split at hbuild
  · cases hbuild
  split at hbuild
  · cases hbuild
  next vs₁ reported hadd =>
  split at hbuild
  · cases hbuild
  next vs₂ hsave =>
  cases hbuild
  obtain ⟨-, hindex⟩ := addBatches_ok hadd
  rw [saveToDisk_ok hdir hsave]
  simp [Vecstore.artifact, Vecstore.save, hindex, Vecstore.build, ← hflatten]

lemma buildFromBase_ok (hbase : vs.disk parent = some base) {total : Nat}
    (hbuild : buildFromBase cfg a v graphFree vs parent delta dead total = (vs', .ok size)) :
    vs'.artifact v = (if graphFree then base \ dead.toFinset else base) ∪ delta.toFinset := by
  unfold buildFromBase at hbuild
  split at hbuild
  · cases hbuild
  dsimp only at hbuild
  split at hbuild
  · cases hbuild
  split at hbuild
  · cases hbuild
  split at hbuild
  · cases hbuild
  next batches deltaBytes hcollect =>
  split at hbuild
  · cases hbuild
  next vs₁ reported hadd =>
  split at hbuild
  · cases hbuild
  next vs₂ hsave =>
  cases hbuild
  obtain ⟨-, hindex⟩ := addBatches_ok hadd
  have hflatten := collectFrom_flatten hcollect
  rw [saveToDisk_ok hdir hsave]
  simp only [Vecstore.artifact, Vecstore.save, hindex, hflatten]
  cases graphFree with
  | false => simp [Vecstore.loadForAppend, hbase]
  | true =>
    cases dead with
    | nil => simp [Vecstore.loadForAppend, hbase]
    | cons c dead => simp [Vecstore.loadForAppend, Vecstore.removeChunks, hbase]

end

lemma appendBase_some
    (happend : appendBase cfg a v graphFree vs chunkIDs = some (parent, delta, dead)) :
    a.appendParent = some parent ∧ parent ≠ 0 ∧ parent ≠ v ∧ (vs.disk parent).isSome = true ∧
      delta ≠ [] ∧ ∃ docIDs parentChunkIDs, a.parentDocIDs = .ok docIDs ∧
        a.parentChunkIDs = .ok parentChunkIDs ∧ delta = chunkIDs.filter (· ∉ parentChunkIDs) ∧
        dead = parentChunkIDs.filter (· ∉ chunkIDs) := by
  unfold appendBase at happend
  split at happend
  · cases happend
  split at happend
  · cases happend
  next id hparent =>
  split at happend
  · cases happend
  next husable =>
  obtain ⟨hpos, hne, hfiles⟩ := not_or.mp husable |>.imp_right not_or.mp
  split at happend
  · cases happend
  split at happend
  · next docIDs parentChunkIDs hdocs hchunks =>
    obtain ⟨hnonempty, ⟨⟩⟩ := Option.ite_none_left_eq_some.mp happend
    refine ⟨hparent, hpos, hne, ?_, fun hnil => hnonempty (.inr hnil), docIDs,
      parentChunkIDs, hdocs, hchunks, rfl, rfl⟩
    rwa [Bool.not_eq_true, Option.isNone_eq_false_iff] at hfiles
  · cases happend

/-- What extending the parent's artifact leaves out: chunks the parent and the version have in
common and the artifact has not. -/
lemma append_artifact {parentChunkIDs : List String} (c : String) (hc : c ∈ ids) :
    c ∈ (if graphFree then base \ (parentChunkIDs.filter (· ∉ ids)).toFinset else base) ∪
        (ids.filter (· ∉ parentChunkIDs)).toFinset ↔ (c ∈ parentChunkIDs → c ∈ base) := by
  have hkept : c ∈ (if graphFree then base \ (parentChunkIDs.filter (· ∉ ids)).toFinset else base) ↔
      c ∈ base := by
    cases graphFree with
    | false => rfl
    | true => simp [hc]
  rw [mem_union, hkept]
  by_cases hparent : c ∈ parentChunkIDs
  · simp [hparent]
  · simp [hparent, hc]

lemma build_ok (hdir : cfg.indexDataDir = true) {skipReuse : Bool}
    (hbuild : build cfg a v graphFree vs kbID skipReuse = (vs', .ok size)) :
    ∃ docIDs ids, a.docIDs = .ok docIDs ∧ a.chunkIDs = .ok ids ∧ (ids.toFinset ⊆ vs'.artifact v ∨
      ∃ parent delta dead base, appendBase cfg a v graphFree vs ids = some (parent, delta, dead) ∧
        vs.disk parent = some base ∧
        vs'.artifact v = (if graphFree then base \ dead.toFinset else base) ∪ delta.toFinset) := by
  unfold build at hbuild
  dsimp only at hbuild
  split at hbuild
  · cases hbuild
  next docIDs hdocs =>
  split at hbuild
  · cases hbuild
  next ids hids =>
  refine ⟨docIDs, ids, hdocs, hids, ?_⟩
  split at hbuild
  · exact .inl (buildFromScratch_ok hdir hbuild)
  next parent delta dead happend =>
  split at hbuild
  · next vs₁ size' hfrom =>
    cases hbuild
    obtain ⟨-, happend⟩ := Option.ite_none_left_eq_some.mp happend
    obtain ⟨-, -, -, hfiles, -⟩ := appendBase_some happend
    obtain ⟨base, hbase⟩ := Option.isSome_iff_exists.mp hfiles
    exact .inr ⟨parent, delta, dead, base, happend, hbase, buildFromBase_ok hdir hbase hfrom⟩
  · exact .inl (buildFromScratch_ok hdir hbuild)

end Vectors

/-- Answers without any failure, in which the parent's artifact has the wanted shape. -/
def Answers.smooth (ids parentChunkIDs : List String) (parentID : Nat) : Answers where
  kbMeta := none
  docIDs := .ok []
  chunkIDs := .ok ids
  refreshParent := none
  trainedBaseline := none
  appendParent := some parentID
  parentShape := some false
  parentDocIDs := .ok []
  parentChunkIDs := .ok parentChunkIDs
  loadForAppend := none
  removeChunks := none
  deltaVector _ := .ok 0
  addDelta _ := .ok 0
  saveDelta := none
  parentSize := 0
  chunkVector _ := .ok 0
  docIDsAgain := .ok []
  build := .ok 0
  addChunks _ := .ok 0
  save := none

/-- A node that saves its indexes and puts up with any number of dead vectors. -/
def Config.patient : Config where
  indexDataDir := true
  appendMaxDeadRatio := 1

/-- Without failures the build extends the parent's artifact. -/
lemma build_smooth {v parentID : Nat} {ids parentChunkIDs : List String} {vs : Vecstore}
    {base : Finset String} (kbID : String) (hpos : parentID ≠ 0) (hne : parentID ≠ v)
    (hbase : vs.disk parentID = some base) (hparent : parentChunkIDs ≠ [])
    (hdelta : ids.filter (· ∉ parentChunkIDs) ≠ []) :
    ∃ vs' size, build .patient (.smooth ids parentChunkIDs parentID) v false vs kbID false =
        (vs', .ok size) ∧
      vs'.artifact v = base ∪ (ids.filter (· ∉ parentChunkIDs)).toFinset := by
  have hids : ids ≠ [] := by
    rintro rfl
    exact hdelta rfl
  have happend : appendBase .patient (.smooth ids parentChunkIDs parentID) v false vs ids =
      some (parentID, ids.filter (· ∉ parentChunkIDs), parentChunkIDs.filter (· ∉ ids)) := by
    simpa [appendBase, Config.patient, Answers.smooth, hids, hpos, hne, hbase, hparent] using hdelta
  have hfrom : ∃ vs' size, buildFromBase .patient (.smooth ids parentChunkIDs parentID) v false vs
      parentID (ids.filter (· ∉ parentChunkIDs)) (parentChunkIDs.filter (· ∉ ids)) ids.length =
        (vs', .ok size) := by
    obtain ⟨⟨batches, bytes⟩, hcollect⟩ := @collectFrom_isOk (fun _ => .ok 0)
      (fun _ => rfl) [] (ids.filter (· ∉ parentChunkIDs)) 0 0
    obtain ⟨vs₁, mem, hadd⟩ := @addBatches_isOk v "index: AddChunks RPC (append reuse): "
      (fun _ => .ok 0) (fun _ => rfl) (vs.loadForAppend v parentID) 0 0 batches
    refine ⟨vs₁.save v, if 0 < mem then mem else 0 + bytes, ?_⟩
    simp only [buildFromBase, Answers.smooth, Bool.false_and, Bool.false_eq_true, if_false,
      collectChunkBatches, hcollect, hadd]
    rfl
  obtain ⟨vs', size, hfrom⟩ := hfrom
  refine ⟨vs', size, ?_, ?_⟩
  · simp only [Answers.smooth] at happend hfrom ⊢
    have hrefresh : quantizerNeedsTraining (buildQuantizerFromKB none false) = false := rfl
    simp only [build, codebookRefreshNeeded, hrefresh, Bool.false_eq_true, not_false_eq_true,
      if_true, Bool.or_self, if_false, happend, hfrom]
  · have hsaved := buildFromBase_ok rfl hbase hfrom
    rwa [if_neg Bool.false_ne_true] at hsaved

/-- Where the version has no parent, has no chunk besides its parent's, or has in common with the
parent only chunks of its artifact, a build that succeeds is complete. -/
lemma version_subset_artifact {v parentID : Nat} {r : Moments} {built : Finset String}
    {cfg : Config} {a : Answers} {vs vs' : Vecstore} {graphFree skipReuse : Bool}
    (hfrom : a.From r kbID v parentID) (hbase : ∀ base, vs.disk parentID = some base → built ⊆ base)
    (hcond : parentID = 0 ∨ parentID = v ∨ r.version kbID v ⊆ r.parent kbID parentID ∨ r.version
      kbID v ∩ r.parent kbID parentID ⊆ built) (hdir : cfg.indexDataDir = true)
    (hbuild : build cfg a v graphFree vs kbID skipReuse = (vs', .ok size)) :
    r.version kbID v ⊆ vs'.artifact v := by
  intro c hc
  obtain ⟨docIDs, ids, hdocs, hids, hall | ⟨parent, delta, dead, base, happend, hdisk, hsaved⟩⟩ :=
    build_ok hdir hbuild
  · rw [← hfrom.chunkIDs docIDs ids hdocs hids] at hc
    exact hall hc
  obtain ⟨hparent, hpos, hne, -, hdelta, docIDs', parentIDs, hdocs', hids', rfl, rfl⟩ :=
    appendBase_some happend
  cases hfrom.parent parent hparent
  have hversion := hfrom.chunkIDs docIDs ids hdocs hids
  have hparents := hfrom.parentChunkIDs docIDs' parentIDs hdocs' hids'
  rw [← hversion, mem_toFinset] at hc
  rw [hsaved, append_artifact c hc]
  intro hcparent
  obtain hcond | hcond | hcond | hcond := hcond
  · exact absurd hcond hpos
  · exact absurd hcond hne
  · refine absurd (filter_eq_nil_iff.mpr fun x hx => ?_) hdelta
    rw [← hversion, ← hparents] at hcond
    have hin := hcond (mem_toFinset.mpr hx)
    simpa using hin
  · rw [← hversion, ← hparents] at hcond
    refine hbase base hdisk (hcond ?_)
    simp [hc, hcparent]

/-- A build saves an artifact with every chunk of its version, whatever its settings and however
its calls go, exactly if the version has no parent, or adds no chunk to those its parent's
documents have now (then nothing is reused), or the chunks the two have in common now are ones the
parent's documents had when its artifact was built. -/
theorem build_complete_iff (kbID : String) (v parentID : Nat) (r : Moments)
    (builtDocs builtChunks : Stores) :
    (∀ (cfg : Config) (a : Answers) (vs vs' : Vecstore) (graphFree skipReuse : Bool) (size : Int),
      cfg.indexDataDir = true → a.From r kbID v parentID →
      (∀ base, vs.disk parentID = some base → chunksAt builtDocs builtChunks kbID parentID ⊆ base) →
      build cfg a v graphFree vs kbID skipReuse = (vs', .ok size) →
      r.version kbID v ⊆ vs'.artifact v) ↔
    parentID = 0 ∨ parentID = v ∨ r.version kbID v ⊆ r.parent kbID parentID ∨
      r.version kbID v ∩ r.parent kbID parentID ⊆ chunksAt builtDocs builtChunks kbID parentID := by
  constructor
  · intro hcomplete
    by_contra hnot
    obtain ⟨hpos, hne, hnew, hcommon⟩ :
        parentID ≠ 0 ∧ parentID ≠ v ∧ ¬r.version kbID v ⊆ r.parent kbID parentID ∧
          ¬r.version kbID v ∩ r.parent kbID parentID ⊆
            chunksAt builtDocs builtChunks kbID parentID := by
      simpa only [not_or] using hnot
    obtain ⟨e, he, henot⟩ := not_subset.mp hnew
    obtain ⟨c, hc, hcnot⟩ := not_subset.mp hcommon
    rw [mem_inter] at hc
    let base := chunksAt builtDocs builtChunks kbID parentID
    let vs : Vecstore := ⟨fun _ => none, fun _ => some base⟩
    let ids := (r.version kbID v).toList
    let parentIDs := (r.parent kbID parentID).toList
    have hparent : parentIDs ≠ [] :=
      ne_nil_of_mem (mem_toList.mpr hc.2)
    have hdelta : ids.filter (· ∉ parentIDs) ≠ [] := by
      refine ne_nil_of_mem (a := e) ?_
      simp [ids, parentIDs, he, henot]
    obtain ⟨vs', size, hbuild, hsaved⟩ :=
      @build_smooth v parentID ids parentIDs vs base kbID hpos hne rfl hparent hdelta
    have hfrom : (Answers.smooth ids parentIDs parentID).From r kbID v parentID := by
      refine ⟨?_, ?_, ?_⟩
      · rintro docIDs ids' - ⟨⟩
        exact toList_toFinset _
      · rintro id ⟨⟩
        rfl
      · rintro docIDs ids' - ⟨⟩
        exact toList_toFinset _
    have hbase (base' : Finset String) (heq : vs.disk parentID = some base') :
        chunksAt builtDocs builtChunks kbID parentID ⊆ base' := by
      cases heq
      exact Finset.Subset.refl _
    have hin := hcomplete .patient _ vs vs' false false size rfl hfrom hbase hbuild hc.1
    rw [hsaved, mem_union] at hin
    obtain hin | hin := hin
    · exact hcnot hin
    · simp [parentIDs, hc.2] at hin
  · intro hcond cfg a vs vs' graphFree skipReuse size hdir hfrom hbase hbuild
    exact version_subset_artifact hfrom hbase hcond hdir hbuild

def oneChunk : Services where
  split text _ _ := [{ chunkID := text, content := text }]
  computeDocIDSetHash _ := ""

def twoVersions : metadata.StateMachine :=
  [metadata.Command.createKB { kbID := "kb" }, .createVersion "kb" 0 "", .markDataDurable 1,
    .createVersion "kb" 1 ""].foldl (fun sm cmd => (sm.apply 0 cmd).1)
    (metadata.newStateMachine 8 "epoch")

def written : Stores :=
  (writeVersionStorage oneChunk twoVersions .empty "kb" 0 1
    [{ op := .add, docID := "d", content := "x" }]).1

/-- And once version 2 has modified that document and added another. -/
def modified : Stores :=
  (writeVersionStorage oneChunk twoVersions written "kb" 1 2
    [{ op := .update, docID := "d", content := "y" },
      { op := .add, docID := "e", content := "z" }]).1

/-- The index of version 2, built from the complete artifact of version 1, does not have the chunk
of the modified document: the parent's document has it by now, so it does not count as new. -/
theorem build_leaves_modified :
    let a := Answers.smooth ["x", "y", "z"] ["x", "y"] 1
    let vs : Vecstore := ⟨fun _ => none, Function.update (fun _ => none) 1
      (some (chunksAt written written "kb" 1))⟩
    let result := build { indexDataDir := true } a 2 false vs "kb" false
    a.From ⟨modified, modified, modified, modified⟩ "kb" 2 1 ∧
      chunksAt modified modified "kb" 2 = {"x", "y", "z"} ∧
      result.2.toOption = some 0 ∧ result.1.artifact 2 = {"x", "z"} := by
  refine ⟨⟨?_, ?_, ?_⟩, by decide +kernel, by decide +kernel, by decide +kernel⟩
  · rintro docIDs ids - ⟨⟩
    decide +kernel
  · rintro id ⟨⟩
    rfl
  · rintro docIDs ids - ⟨⟩
    decide +kernel

end stratum.index.manager
