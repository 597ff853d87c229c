import Stratum.Coordinator.Write

namespace stratum.sync

open stratum.coordinator stratum.docstore stratum.versiondoc stratum.chunkdoc

/-- The record kinds of the wire format; `other` is a number this build does not name. -/
inductive SyncEntryType
  | unspecified
  | docStore
  | chunkDocForward
  | chunkDocReverse
  | versionDocList
  | chunkVector
  | other (code : Int)
deriving DecidableEq

def SyncEntryType.toString : SyncEntryType → String
  | .unspecified => "SYNC_ENTRY_TYPE_UNSPECIFIED"
  | .docStore => "SYNC_ENTRY_TYPE_DOC_STORE"
  | .chunkDocForward => "SYNC_ENTRY_TYPE_CHUNK_DOC_FORWARD"
  | .chunkDocReverse => "SYNC_ENTRY_TYPE_CHUNK_DOC_REVERSE"
  | .versionDocList => "SYNC_ENTRY_TYPE_VERSION_DOC_LIST"
  | .chunkVector => "SYNC_ENTRY_TYPE_CHUNK_VECTOR"
  | .other code => s!"{code}"

/-- One record on the wire. The payload of a document is its tag byte and the text behind it;
the bytes of a vector are not kept, as the stores only tell whether a vector is there. -/
structure SyncEntry where
  entryType : SyncEntryType
  kbID : String
  docID : String := ""
  chunkID : String := ""
  versionID : Nat := 0
  payload : Option (UInt8 × String) := none
deriving DecidableEq

def tagTombstone : UInt8 := 0x00

def tagContent : UInt8 := 0x01

lemma tagContent_ne_tagTombstone : tagContent ≠ tagTombstone := by decide

def hexByte (b : UInt8) : String :=
  let digit (n : Nat) : Char := if n < 10 then Char.ofNat (48 + n) else Char.ofNat (87 + n)
  String.ofList [digit (b.toNat / 16), digit (b.toNat % 16)]

/-- The value a document entry carries, if its tag is one of the two. -/
def SyncEntry.value (entry : SyncEntry) : Option Value :=
  match entry.payload with
  | none => none
  | some (tag, text) =>
    if tag = tagTombstone then some .tombstone
    else if tag = tagContent then some (.content text)
    else none

/-- `applyDocStoreEntry`: the tag is taken off before the document store puts on its own. -/
def applyDocStoreEntry (st : Stores) (entry : SyncEntry) : Except Error Stores :=
  match entry.payload with
  | none =>
    .error { detail := s!"sync: DOC_STORE entry for {entry.kbID}/{entry.docID} v{entry.versionID} missing tag byte" }
  | some (tag, text) =>
    if tag = tagTombstone then
      .ok { st with docStore := st.docStore.write entry.kbID entry.docID entry.versionID none }
    else if tag = tagContent then
      .ok { st with docStore := st.docStore.write entry.kbID entry.docID entry.versionID (some text) }
    else
      .error { detail := s!"sync: DOC_STORE entry for {entry.kbID}/{entry.docID} v{entry.versionID} has unknown tag 0x{hexByte tag}" }

/-- Writes one record to the store it belongs to. Both directions of a chunk mapping are the
same write. -/
def applyEntry (st : Stores) (entry : SyncEntry) : Except Error Stores :=
  match entry.entryType with
  | .versionDocList =>
    .ok { st with
      versionDocList := st.versionDocList.writeMany entry.kbID entry.versionID {entry.docID} }
  | .docStore => applyDocStoreEntry st entry
  | .chunkDocForward | .chunkDocReverse =>
    .ok { st with
      chunkDocMapper := st.chunkDocMapper.writeMany entry.kbID entry.docID {entry.chunkID} }
  | .chunkVector =>
    .ok { st with chunkStore := st.chunkStore.writeMany entry.kbID {entry.chunkID} }
  | .unspecified | .other _ =>
    .error { detail := s!"sync: unknown SyncEntryType {entry.entryType.toString}" }

/-- Whether a record can be applied; the stores have no say in it. -/
def SyncEntry.applies (entry : SyncEntry) : Bool :=
  match entry.entryType with
  | .versionDocList | .chunkDocForward | .chunkDocReverse | .chunkVector => true
  | .docStore => entry.value.isSome
  | .unspecified | .other _ => false

/-- Records on their way to a node: documents to be listed, the last value of each document
record, chunk mappings and vectors. -/
structure Delivery where
  docIDs : String → Nat → Finset String
  record : String → String → Nat → Option Value
  pairs : String → Finset (String × String)
  vectors : String → Finset String

namespace Delivery

def empty : Delivery where
  docIDs _ _ := ∅
  record _ _ _ := none
  pairs _ := ∅
  vectors _ := ∅

/-- The records of `x` and then those of `y`; only a document record is overwritten. -/
def andThen (x y : Delivery) : Delivery where
  docIDs kbID v := x.docIDs kbID v ∪ y.docIDs kbID v
  record kbID docID v := (y.record kbID docID v).or (x.record kbID docID v)
  pairs kbID := x.pairs kbID ∪ y.pairs kbID
  vectors kbID := x.vectors kbID ∪ y.vectors kbID

def land (x : Delivery) (st : Stores) : Stores where
  docStore := { db := fun kbID docID v => (x.record kbID docID v).or (st.docStore.db kbID docID v) }
  versionDocList := { docs := fun kbID v => st.versionDocList.docs kbID v ∪ x.docIDs kbID v }
  chunkDocMapper := { pairs := fun kbID => st.chunkDocMapper.pairs kbID ∪ x.pairs kbID }
  chunkStore := { vectors := fun kbID => st.chunkStore.vectors kbID ∪ x.vectors kbID }

@[simp]
lemma land_empty (st : Stores) : empty.land st = st := by
  simp [land, empty]

lemma land_andThen (x y : Delivery) (st : Stores) : (x.andThen y).land st = y.land (x.land st) := by
  simp [land, andThen, Option.or_assoc]

end Delivery

def SyncEntry.delivery (entry : SyncEntry) : Delivery where
  docIDs kbID v :=
    if entry.entryType = .versionDocList ∧ kbID = entry.kbID ∧ v = entry.versionID then
      {entry.docID}
    else ∅
  record kbID docID v :=
    if entry.entryType = .docStore ∧ kbID = entry.kbID ∧ docID = entry.docID ∧
      v = entry.versionID then entry.value
    else none
  pairs kbID :=
    if (entry.entryType = .chunkDocForward ∨ entry.entryType = .chunkDocReverse) ∧
      kbID = entry.kbID then {(entry.chunkID, entry.docID)}
    else ∅
  vectors kbID :=
    if entry.entryType = .chunkVector ∧ kbID = entry.kbID then {entry.chunkID} else ∅

def delivered : List SyncEntry → Delivery
  | [] => .empty
  | entry :: entries => entry.delivery.andThen (delivered entries)

section

variable (st : Stores) (kbID docID : String) (v : Nat)

lemma versionDocList_writeMany (docIDs : Finset String) :
    st.versionDocList.writeMany kbID v docIDs =
      { docs := fun kb w => st.versionDocList.docs kb w ∪
          if kb = kbID ∧ w = v then docIDs else ∅ } := by
  unfold VersionDocList.writeMany
  congr 1
  funext kb w
  by_cases hkb : kb = kbID
  · subst hkb
    by_cases hw : w = v
    · subst hw
      simp
    · simp [hw]
  · simp [hkb]

lemma docStore_write (value : Option String) : st.docStore.write kbID docID v value =
      { db := fun kb d w => (if kb = kbID ∧ d = docID ∧ w = v then some (encodeValue value)
          else none).or (st.docStore.db kb d w) } := by
  unfold DocStore.write
  congr 1
  funext kb d w
  by_cases hkb : kb = kbID
  · subst hkb
    by_cases hd : d = docID
    · subst hd
      by_cases hw : w = v
      · subst hw
        simp
      · simp [hw]
    · simp [hd]
  · simp [hkb]

variable (chunkIDs : Finset String)

lemma chunkDocMapper_writeMany : st.chunkDocMapper.writeMany kbID docID chunkIDs =
      { pairs := fun kb => st.chunkDocMapper.pairs kb ∪
          if kb = kbID then chunkIDs.image fun c => (c, docID) else ∅ } := by
  unfold ChunkDocMapper.writeMany
  congr 1
  funext kb
  by_cases hkb : kb = kbID
  · subst hkb
    simp
  · simp [hkb]

lemma chunkStore_writeMany : st.chunkStore.writeMany kbID chunkIDs =
      { vectors := fun kb => st.chunkStore.vectors kb ∪ if kb = kbID then chunkIDs else ∅ } := by
  unfold ChunkStore.writeMany
  congr 1
  funext kb
  by_cases hkb : kb = kbID
  · subst hkb
    simp
  · simp [hkb]

end

lemma applyDocStoreEntry_of_value {st : Stores} {entry : SyncEntry}
    (hvalue : entry.value.isSome = true) (htype : entry.entryType = .docStore) :
    applyDocStoreEntry st entry = .ok (entry.delivery.land st) := by
  unfold SyncEntry.value at hvalue
  unfold applyDocStoreEntry
  cases hpayload : entry.payload with
  | none => simp [hpayload] at hvalue
  | some p =>
  obtain ⟨tag, text⟩ := p
  rw [hpayload] at hvalue
  dsimp only at hvalue ⊢
  by_cases htomb : tag = tagTombstone
  · rw [docStore_write]
    simp [Delivery.land, SyncEntry.delivery, SyncEntry.value, htype, hpayload, htomb, encodeValue]
  rw [if_neg htomb] at hvalue ⊢
  by_cases hcontent : tag = tagContent
  · rw [docStore_write]
    simp [Delivery.land, SyncEntry.delivery, SyncEntry.value, htype, hpayload, hcontent,
      encodeValue, tagContent_ne_tagTombstone]
  · simp [hcontent] at hvalue

variable {entry : SyncEntry}

lemma applyEntry_of_applies (st : Stores) (happlies : entry.applies = true) :
    applyEntry st entry = .ok (entry.delivery.land st) := by
  unfold SyncEntry.applies at happlies
  unfold applyEntry
  cases htype : entry.entryType with
  | versionDocList =>
    rw [versionDocList_writeMany]
    simp [Delivery.land, SyncEntry.delivery, htype]
  | docStore =>
    rw [htype] at happlies
    exact applyDocStoreEntry_of_value happlies htype
  | chunkDocForward | chunkDocReverse =>
    rw [chunkDocMapper_writeMany]
    simp [Delivery.land, SyncEntry.delivery, htype]
  | chunkVector =>
    rw [chunkStore_writeMany]
    simp [Delivery.land, SyncEntry.delivery, htype]
  | unspecified | other => simp [htype] at happlies

lemma applyEntry_of_not_applies (st : Stores) (happlies : entry.applies = false) :
    ∃ e, applyEntry st entry = .error e := by
  unfold SyncEntry.applies at happlies
  unfold applyEntry
  cases htype : entry.entryType with
  | docStore =>
    rw [htype] at happlies
    unfold SyncEntry.value at happlies
    unfold applyDocStoreEntry
    cases hpayload : entry.payload with
    | none => exact ⟨_, rfl⟩
    | some p =>
    obtain ⟨tag, text⟩ := p
    rw [hpayload] at happlies
    dsimp only at happlies ⊢
    by_cases htomb : tag = tagTombstone
    · simp [htomb] at happlies
    by_cases hcontent : tag = tagContent
    · simp [hcontent, tagContent_ne_tagTombstone] at happlies
    · rw [if_neg htomb, if_neg hcontent]
      exact ⟨_, rfl⟩
  | unspecified | other => exact ⟨_, rfl⟩
  | versionDocList | chunkDocForward | chunkDocReverse | chunkVector => simp [htype] at happlies

end stratum.sync
