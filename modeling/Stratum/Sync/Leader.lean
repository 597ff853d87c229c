import Mathlib.Data.Finset.Sort
import Mathlib.Data.String.Basic
import Stratum.Sync.Entry

namespace stratum.sync

open stratum.lib stratum.coordinator stratum.docstore List

/-- An order of enumeration for finite sets of ids: the key order of a Pebble scan, or the one
in which a Go map happens to be ranged over. -/
structure Listing where
  list : Finset String → List String
  mem_list : ∀ {s : Finset String} {id : String}, id ∈ list s ↔ id ∈ s
  nodup : ∀ s : Finset String, (list s).Nodup

lemma Listing.list_empty (listing : Listing) : listing.list ∅ = [] :=
  eq_nil_iff_forall_not_mem.mpr fun id hid => absurd (listing.mem_list.mp hid) (by simp)

lemma Listing.list_singleton (listing : Listing) (id : String) : listing.list {id} = [id] := by
  have hmem (x : String) : x ∈ listing.list {id} ↔ x = id := by simp [listing.mem_list]
  have hnodup := listing.nodup {id}
  revert hmem hnodup
  cases listing.list {id} with
  | nil =>
    intro hmem
    exact absurd ((hmem id).mpr rfl) (by simp)
  | cons x xs =>
  intro hmem hnodup
  obtain rfl : x = id := (hmem x).mp mem_cons_self
  cases xs with
  | nil => rfl
  | cons y ys =>
    obtain rfl : y = x := (hmem y).mp (by simp)
    simp at hnodup

/-- Keys start with the length of the id, so a scan meets shorter ids first. -/
def KeyLE (a b : String) : Prop :=
  a.utf8ByteSize < b.utf8ByteSize ∨ a.utf8ByteSize = b.utf8ByteSize ∧ a ≤ b

instance : DecidableRel KeyLE := fun a b =>
  inferInstanceAs (Decidable (a.utf8ByteSize < b.utf8ByteSize ∨
    a.utf8ByteSize = b.utf8ByteSize ∧ a ≤ b))

lemma KeyLE.trans {a b c : String} (hab : KeyLE a b) (hbc : KeyLE b c) : KeyLE a c := by
  obtain hlt | ⟨heq, hle⟩ := hab
  · obtain hlt' | ⟨heq', -⟩ := hbc
    · exact .inl (hlt.trans hlt')
    · exact .inl (heq' ▸ hlt)
  · obtain hlt' | ⟨heq', hle'⟩ := hbc
    · exact .inl (heq ▸ hlt')
    · exact .inr ⟨heq.trans heq', hle.trans hle'⟩

lemma KeyLE.antisymm {a b : String} (hab : KeyLE a b) (hba : KeyLE b a) : a = b := by
  obtain hlt | ⟨heq, hle⟩ := hab
  · obtain hlt' | ⟨heq', -⟩ := hba <;> omega
  obtain hlt' | ⟨-, hle'⟩ := hba
  · omega
  · exact le_antisymm hle hle'

lemma KeyLE.total (a b : String) : KeyLE a b ∨ KeyLE b a := by
  obtain hlt | heq | hgt := lt_trichotomy a.utf8ByteSize b.utf8ByteSize
  · exact .inl (.inl hlt)
  · exact (le_total a b).imp (fun hle => .inr ⟨heq, hle⟩) fun hle => .inr ⟨heq.symm, hle⟩
  · exact .inr (.inl hgt)

instance : IsTrans String KeyLE := ⟨fun _ _ _ => KeyLE.trans⟩

instance : Std.Antisymm KeyLE := ⟨fun _ _ => KeyLE.antisymm⟩

instance : Std.Total KeyLE := ⟨KeyLE.total⟩

/-- The order of a Pebble scan. -/
def keyOrder : Listing where
  list s := s.sort KeyLE
  mem_list := Finset.mem_sort KeyLE
  nodup s := s.sort_nodup KeyLE

/-- A stored value with its tag byte in front. -/
def wirePayload : Value → UInt8 × String
  | .tombstone => (tagTombstone, "")
  | .content text => (tagContent, text)

section

variable (st : Stores) (kbID : String) (versionID : Nat)

/-- The entry of a document's record visible at the version, under the version that wrote it. -/
def docStoreEntry (docID : String) : Except Error SyncEntry :=
  match st.docStore.visibleVersionOf kbID docID versionID with
  | none =>
    .error { detail :=
      s!"sync: stream DocStore: {kbID}/{docID} has no entry at or before version {versionID}, "
        ++ "but the version's document list includes it" }
  | some foundVersion =>
    .ok { entryType := .docStore, kbID, docID, versionID := foundVersion
          payload := (st.docStore.db kbID docID foundVersion).map wirePayload }

def streamVersionDocList (docIDs : List String) : List SyncEntry :=
  docIDs.map fun docID => { entryType := .versionDocList, kbID, docID, versionID }

/-- The records sent before the first document without one. -/
def streamDocStore : List String → List SyncEntry × Option Error
  | [] => ([], none)
  | docID :: docIDs =>
    match docStoreEntry st kbID versionID docID with
    | .error e => ([], some e)
    | .ok entry =>
      let (entries, err) := streamDocStore docIDs
      (entry :: entries, err)

def streamChunkDocReverse (scan : Listing) (docIDs : List String) : List SyncEntry :=
  docIDs.flatMap fun docID =>
    (scan.list (st.chunkDocMapper.listChunkIDsByDocs kbID {docID})).map fun chunkID =>
      { entryType := .chunkDocReverse, kbID, docID, chunkID }

def streamChunkDocForward (scan : Listing) (chunkIDs : List String) : List SyncEntry :=
  chunkIDs.flatMap fun chunkID =>
    (scan.list (st.chunkDocMapper.listDocIDs kbID chunkID)).map fun docID =>
      { entryType := .chunkDocForward, kbID, docID, chunkID }

/-- A vector that is gone is left out. -/
def streamChunkVectors (chunkIDs : List String) : List SyncEntry :=
  (chunkIDs.filter (· ∈ st.chunkStore.vectors kbID)).map fun chunkID =>
    { entryType := .chunkVector, kbID, chunkID }

/-- The chunk records of the documents: their mappings in both directions, then the vectors. -/
def streamChunks (scan range : Listing) (docIDs : List String) : List SyncEntry :=
  let chunkIDs := range.list (st.chunkDocMapper.listChunkIDsByDocs kbID docIDs.toFinset)
  streamChunkDocReverse st kbID scan docIDs ++ streamChunkDocForward st kbID scan chunkIDs
    ++ streamChunkVectors st kbID chunkIDs

/-- `ExportVersion`: the records sent for a version, and what stopped the export early. -/
def exportVersion (scan range : Listing) : List SyncEntry × Option Error :=
  let docIDs := scan.list (st.versionDocList.listDocIDs kbID versionID)
  let listed := streamVersionDocList kbID versionID docIDs
  if docIDs = [] then (listed, none)
  else
    match streamDocStore st kbID versionID docIDs with
    | (docs, some e) =>
      (listed ++ docs, some { e with detail := "sync: stream DocStore: " ++ e.detail })
    | (docs, none) =>
      (listed ++ docs ++ streamChunks st kbID scan range docIDs, none)

end

variable {st : Stores} {kbID : String} {versionID : Nat} {scan range : Listing}

variable {docIDs : List String} {entry : SyncEntry}

/-- The document records of an export that ran through: one for each document, and no other. -/
lemma streamDocStore_ok {entries : List SyncEntry}
    (hok : streamDocStore st kbID versionID docIDs = (entries, none)) :
    (∀ docID ∈ docIDs, ∃ entry ∈ entries, docStoreEntry st kbID versionID docID = .ok entry) ∧
      ∀ entry ∈ entries, ∃ docID ∈ docIDs, docStoreEntry st kbID versionID docID = .ok entry := by
  induction docIDs generalizing entries with
  | nil =>
    cases hok
    simp
  | cons docID docIDs ih =>
  unfold streamDocStore at hok
  split at hok
  · cases hok
  next entry hentry =>
  cases hrest : streamDocStore st kbID versionID docIDs with
  | mk rest err =>
    rw [hrest] at hok
    cases hok
    obtain ⟨hall, honly⟩ := ih hrest
    constructor
    · intro d hd
      obtain rfl | hd := mem_cons.mp hd
      · exact ⟨entry, mem_cons_self, hentry⟩
      · obtain ⟨e, he, heq⟩ := hall d hd
        exact ⟨e, mem_cons_of_mem _ he, heq⟩
    · intro e he
      obtain rfl | he := mem_cons.mp he
      · exact ⟨docID, mem_cons_self, hentry⟩
      · obtain ⟨d, hd, heq⟩ := honly e he
        exact ⟨d, mem_cons_of_mem _ hd, heq⟩

lemma value_wirePayload {x : Value} (hpayload : entry.payload = some (wirePayload x)) :
    entry.value = some x := by
  unfold SyncEntry.value
  rw [hpayload]
  cases x with
  | tombstone => rfl
  | content text => simp [wirePayload, tagContent_ne_tagTombstone]

/-- The entry of a document: the record visible at the version, as it is stored. -/
structure OfDocument (st : Stores) (kbID : String) (versionID : Nat) (docID : String)
    (entry : SyncEntry) : Prop where
  entryType : entry.entryType = .docStore
  kb : entry.kbID = kbID
  doc : entry.docID = docID
  visible : st.docStore.visibleVersionOf kbID docID versionID = some entry.versionID
  value : entry.value.isSome = true
  stored : st.docStore.db kbID docID entry.versionID = entry.value

lemma docStoreEntry_eq_ok {docID : String}
    (hok : docStoreEntry st kbID versionID docID = .ok entry) :
    OfDocument st kbID versionID docID entry := by
  unfold docStoreEntry at hok
  split at hok
  · cases hok
  next u hvisible =>
  cases hok
  obtain ⟨-, hsome, -⟩ := latestKey_eq_some_iff.mp hvisible
  obtain ⟨x, hx⟩ := Option.isSome_iff_exists.mp hsome
  have hvalue : SyncEntry.value
      { entryType := .docStore, kbID, docID, versionID := u,
        payload := (st.docStore.db kbID docID u).map wirePayload } = some x :=
    value_wirePayload (by rw [hx]; rfl)
  exact ⟨rfl, rfl, rfl, hvisible, by rw [hvalue]; rfl, hx.trans hvalue.symm⟩

/-- The parts of a complete export; without documents there is nothing to send. -/
lemma exportVersion_ok
    (hdocIDs : scan.list (st.versionDocList.listDocIDs kbID versionID) = docIDs)
    (hok : (exportVersion st kbID versionID scan range).2 = none) : ∃ docs,
      (∀ docID ∈ docIDs, ∃ entry ∈ docs, docStoreEntry st kbID versionID docID = .ok entry) ∧
      (∀ entry ∈ docs, ∃ docID ∈ docIDs, docStoreEntry st kbID versionID docID = .ok entry) ∧
      (exportVersion st kbID versionID scan range).1 =
        streamVersionDocList kbID versionID docIDs ++ docs
          ++ if docIDs = [] then [] else streamChunks st kbID scan range docIDs := by
  unfold exportVersion at hok ⊢
  rw [hdocIDs] at hok ⊢
  dsimp only at hok ⊢
  by_cases hempty : docIDs = []
  · subst hempty
    exact ⟨[], by simp, by simp, by simp⟩
  rw [if_neg hempty] at hok
  cases hdocs : streamDocStore st kbID versionID docIDs with
  | mk docs err =>
    rw [hdocs] at hok
    cases err with
    | some e => cases hok
    | none =>
      obtain ⟨hall, honly⟩ := streamDocStore_ok hdocs
      refine ⟨docs, hall, honly, ?_⟩
      rw [if_neg hempty, if_neg hempty]

lemma of_mem_streamChunks (hentry : entry ∈ streamChunks st kbID scan range docIDs) :
    entry.kbID = kbID ∧ entry.applies = true ∧ entry.versionID = 0 := by
  simp only [streamChunks, streamChunkDocReverse, streamChunkDocForward, streamChunkVectors,
    mem_append, mem_flatMap, mem_map] at hentry
  obtain (⟨_, _, _, _, rfl⟩ | ⟨_, _, _, _, rfl⟩) | ⟨_, _, rfl⟩ := hentry <;> exact ⟨rfl, rfl, rfl⟩

section

variable (hok : (exportVersion st kbID versionID scan range).2 = none)

include hok

/-- The records of a complete export can all be applied, and carry the version itself, the
version a listed document was last written at, or none. -/
lemma of_mem_exportVersion (hentry : entry ∈ (exportVersion st kbID versionID scan range).1) :
    entry.kbID = kbID ∧ entry.applies = true ∧
      (entry.versionID = 0 ∨ entry.versionID = versionID ∨
        ∃ docID ∈ st.versionDocList.listDocIDs kbID versionID,
          st.docStore.visibleVersionOf kbID docID versionID = some entry.versionID) := by
  obtain ⟨docs, -, honly, heq⟩ := exportVersion_ok rfl hok
  rw [heq, mem_append, mem_append] at hentry
  obtain (hlisted | hdoc) | hchunk := hentry
  · obtain ⟨docID, -, rfl⟩ := mem_map.mp hlisted
    exact ⟨rfl, rfl, .inr (.inl rfl)⟩
  · obtain ⟨docID, hdocID, hdoc⟩ := honly entry hdoc
    have hof := docStoreEntry_eq_ok hdoc
    refine ⟨hof.kb, ?_, .inr (.inr ⟨docID, scan.mem_list.mp hdocID, hof.visible⟩)⟩
    simp [SyncEntry.applies, hof.entryType, hof.value]
  split at hchunk
  · cases hchunk
  · obtain ⟨hkb, happlies, hversion⟩ := of_mem_streamChunks hchunk
    exact ⟨hkb, happlies, .inl hversion⟩

/-- Every listed document's record is in a complete export, under the version that wrote it. -/
lemma exists_mem_exportVersion {docID : String}
    (hdocID : docID ∈ st.versionDocList.listDocIDs kbID versionID) :
    ∃ entry ∈ (exportVersion st kbID versionID scan range).1, entry.kbID = kbID ∧
      st.docStore.visibleVersionOf kbID docID versionID = some entry.versionID := by
  obtain ⟨docs, hall, -, heq⟩ := exportVersion_ok rfl hok
  obtain ⟨entry, hentry, hdoc⟩ := hall docID (scan.mem_list.mpr hdocID)
  have hof := docStoreEntry_eq_ok hdoc
  refine ⟨entry, ?_, hof.kb, hof.visible⟩
  rw [heq]
  exact mem_append_left _ (mem_append_right _ hentry)

lemma exportVersion_head (hne : (st.versionDocList.listDocIDs kbID versionID).Nonempty) :
    ∃ entry entries, (exportVersion st kbID versionID scan range).1 = entry :: entries ∧
      entry.kbID = kbID ∧ entry.versionID = versionID := by
  obtain ⟨docs, -, -, heq⟩ := exportVersion_ok rfl hok
  cases hdocIDs : scan.list (st.versionDocList.listDocIDs kbID versionID) with
  | nil =>
    obtain ⟨docID, hdocID⟩ := hne
    rw [← scan.mem_list, hdocIDs] at hdocID
    cases hdocID
  | cons docID docIDs =>
    rw [hdocIDs] at heq
    exact ⟨_, _, heq, rfl, rfl⟩

end

lemma exportVersion_of_empty (hempty : st.versionDocList.listDocIDs kbID versionID = ∅) :
    exportVersion st kbID versionID scan range = ([], none) := by
  have hdocIDs : scan.list (st.versionDocList.listDocIDs kbID versionID) = [] := by
    rw [eq_nil_iff_forall_not_mem]
    intro docID hdocID
    rw [scan.mem_list, hempty] at hdocID
    exact absurd hdocID (Finset.notMem_empty docID)
  unfold exportVersion
  simp [hdocIDs, streamVersionDocList]

end stratum.sync
