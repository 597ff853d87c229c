import Stratum.Lib.BigEndian

open stratum.lib List

namespace stratum.wal

/-! Log records and their payloads. A Go string is the list of its bytes, an `int64` an
`Int64`; lengths are written as a `uint32`, so a length of `2 ^ 32` or more loses its high
bits, as in the source. -/

abbrev Bytes := List UInt8

/-- A document mutation as a BEGIN record carries it; the operation is the one byte the
record has for it. -/
structure DocChange where
  op : UInt8
  docID : Bytes
  content : Bytes
deriving DecidableEq

/-- The replay input persisted inside a BEGIN record. -/
structure BeginData where
  kbID : Bytes := []
  parentVersionID : Int64 := 0
  changes : List DocChange := []
deriving DecidableEq

/-- A record of the log, decoded. A VERSION_ID written before the payload carried the
knowledge base reads back with the empty one. -/
inductive Record
  | begin (begin : BeginData)
  | versionID (kbID : Bytes) (versionID : Int64)
  | commit (versionID : Int64)
  | deleteMark (kbID : Bytes)
  | deleteComplete (kbID : Bytes)
  | versionDeleteMark (kbID : Bytes) (versionID : Int64)
  | versionDeleteComplete (kbID : Bytes) (versionID : Int64)
  | cursor (kbID : Bytes) (versionID : Int64)
deriving DecidableEq

/-- Why a payload whose frame checks out is not a record. `outOfRange` is the slice
expression behind the knowledge base id of a BEGIN, which the source does not guard: Go
panics there. `outOfMemory` is the allocation of the changes, whose number it does not check
either: the process is killed there. -/
inductive DecodeError
  | truncatedBegin (need got : Nat)
  | outOfRange
  | outOfMemory (count : Nat)
  | versionIDLength (got : Nat)
  | commitLength (got : Nat)
  | versionDeleteLength (got : Nat)
  | truncatedCursor (got : Nat)
  | cursorLength (got kbLen : Nat)
  | unknownRecord (tag : UInt8)
deriving DecidableEq

def putInt64 (v : Int64) : Bytes := bigEndian 8 v.toUInt64.toNat

def getInt64 (bs : Bytes) : Int64 := (UInt64.ofNat (ofBigEndian bs)).toInt64

def putString (s : Bytes) : Bytes := bigEndian 4 s.length ++ s

def encodeChange (ch : DocChange) : Bytes := ch.op :: putString ch.docID ++ putString ch.content

def encodeBeginPayload (bd : BeginData) : Bytes :=
  putString bd.kbID ++ putInt64 bd.parentVersionID ++ bigEndian 4 bd.changes.length ++
    bd.changes.flatMap encodeChange

/-- `rest` is the payload from the read offset on, `len` the length of the whole payload. -/
def readStr (len : Nat) (rest : Bytes) : Except DecodeError (Bytes × Bytes) :=
  if rest.length < 4 then .error (.truncatedBegin (len - rest.length + 4) len)
  else
    let n := ofBigEndian (rest.take 4)
    let rest := rest.drop 4
    if rest.length < n then .error (.truncatedBegin (len - rest.length + n) len)
    else .ok (rest.take n, rest.drop n)

def decodeChange (len : Nat) : Bytes → Except DecodeError (DocChange × Bytes)
  | [] => .error (.truncatedBegin (len + 1) len)
  | op :: rest =>
    (readStr len rest).bind fun (docID, rest) =>
      (readStr len rest).bind fun (content, rest) => .ok ({ op, docID, content }, rest)

def decodeChanges (len : Nat) : Nat → Bytes → Except DecodeError (List DocChange)
  | 0, _ => .ok []
  | count + 1, rest =>
    (decodeChange len rest).bind fun (ch, rest) =>
      (decodeChanges len count rest).bind fun changes => .ok (ch :: changes)

/-- The number of changes a BEGIN payload announces. -/
def announced (payload : Bytes) : Nat :=
  ofBigEndian ((((payload.drop 4).drop (ofBigEndian (payload.take 4))).drop 8).take 4)

/-- An empty payload is a BEGIN of the format that carried no replay input. The slice for the
changes is made for as many as the payload announces, before the first is read; the process has
the memory for `room` of them. -/
def decodeBeginPayload (room : Nat) (payload : Bytes) : Except DecodeError BeginData :=
  if payload.length = 0 then .ok {}
  else if payload.length < 4 + 8 + 4 then .error (.truncatedBegin (4 + 8 + 4) payload.length)
  else
    let kbLen := ofBigEndian (payload.take 4)
    let rest := payload.drop 4
    if rest.length < kbLen then .error (.truncatedBegin (4 + kbLen) payload.length)
    else
      let kbID := rest.take kbLen
      let rest := rest.drop kbLen
      if rest.length < 8 + 4 then .error .outOfRange
      else
        let parentVersionID := getInt64 (rest.take 8)
        let count := ofBigEndian ((rest.drop 8).take 4)
        if room < count then .error (.outOfMemory count)
        else
          (decodeChanges payload.length count (rest.drop (8 + 4))).bind fun changes =>
            .ok { kbID, parentVersionID, changes }

def versionDeletePayload (versionID : Int64) (kbID : Bytes) : Bytes := putInt64 versionID ++ kbID

def encodeCursorPayload (kbID : Bytes) (versionID : Int64) : Bytes :=
  putString kbID ++ putInt64 versionID

def decodeCursorPayload (payload : Bytes) : Except DecodeError (Bytes × Int64) :=
  if payload.length < 4 then .error (.truncatedCursor payload.length)
  else
    let kbLen := ofBigEndian (payload.take 4)
    if payload.length ≠ 4 + kbLen + 8 then .error (.cursorLength payload.length kbLen)
    else .ok ((payload.drop 4).take kbLen, getInt64 ((payload.drop 4).drop kbLen))

def Record.tag : Record → UInt8
  | .begin _ => 0x01
  | .versionID .. => 0x02
  | .commit _ => 0x03
  | .deleteMark _ => 0x04
  | .deleteComplete _ => 0x05
  | .versionDeleteMark .. => 0x06
  | .versionDeleteComplete .. => 0x07
  | .cursor .. => 0x08

def Record.payload : Record → Bytes
  | .begin bd => encodeBeginPayload bd
  | .versionID kbID v => putInt64 v ++ kbID
  | .commit v => putInt64 v
  | .deleteMark kbID => kbID
  | .deleteComplete kbID => kbID
  | .versionDeleteMark kbID v => versionDeletePayload v kbID
  | .versionDeleteComplete kbID v => versionDeletePayload v kbID
  | .cursor kbID v => encodeCursorPayload kbID v

def decodeRecord (room : Nat) (tag : UInt8) (payload : Bytes) : Except DecodeError Record :=
  if tag = 0x01 then (decodeBeginPayload room payload).bind fun bd => .ok (.begin bd)
  else if tag = 0x02 then
    if payload.length < 8 then .error (.versionIDLength payload.length)
    else .ok (.versionID (payload.drop 8) (getInt64 (payload.take 8)))
  else if tag = 0x03 then
    if payload.length ≠ 8 then .error (.commitLength payload.length)
    else .ok (.commit (getInt64 payload))
  else if tag = 0x04 then .ok (.deleteMark payload)
  else if tag = 0x05 then .ok (.deleteComplete payload)
  else if tag = 0x06 then
    if payload.length < 8 then .error (.versionDeleteLength payload.length)
    else .ok (.versionDeleteMark (payload.drop 8) (getInt64 (payload.take 8)))
  else if tag = 0x07 then
    if payload.length < 8 then .error (.versionDeleteLength payload.length)
    else .ok (.versionDeleteComplete (payload.drop 8) (getInt64 (payload.take 8)))
  else if tag = 0x08 then
    (decodeCursorPayload payload).bind fun (kbID, v) => .ok (.cursor kbID v)
  else .error (.unknownRecord tag)

/-! What is written reads back, as long as no length field overflows. -/

@[simp] lemma length_putInt64 (v : Int64) : (putInt64 v).length = 8 := length_bigEndian ..

@[simp] lemma length_putString (s : Bytes) : (putString s).length = 4 + s.length := by
  simp [putString]

@[simp] lemma getInt64_putInt64 (v : Int64) : getInt64 (putInt64 v) = v := by
  have hlt : v.toUInt64.toNat < 256 ^ 8 := v.toUInt64.toNat_lt
  rw [getInt64, putInt64, ofBigEndian_bigEndian_of_lt hlt]
  simp

lemma readStr_putString (len : Nat) {s : Bytes} (hlen : s.length < 2 ^ 32) (rest : Bytes) :
    readStr len (putString s ++ rest) = .ok (s, rest) := by
  have hcount : ofBigEndian (bigEndian 4 s.length) = s.length :=
    ofBigEndian_bigEndian_of_lt hlen
  have htake : (putString s ++ rest).take 4 = bigEndian 4 s.length := by
    rw [putString, append_assoc, take_left' (length_bigEndian ..)]
  have hdrop : (putString s ++ rest).drop 4 = s ++ rest := by
    rw [putString, append_assoc, drop_left' (length_bigEndian ..)]
  have hshort : ¬ (putString s ++ rest).length < 4 := by
    rw [length_append, length_putString]
    omega
  have hfits : ¬ (s ++ rest).length < s.length := by
    rw [length_append]
    omega
  rw [readStr, if_neg hshort]
  simp only [htake, hdrop, hcount, if_neg hfits, take_left, drop_left]

/-- Both lengths of the change fit their length field. -/
def DocChange.Short (ch : DocChange) : Prop :=
  ch.docID.length < 2 ^ 32 ∧ ch.content.length < 2 ^ 32

/-- Every length the payload spells fits its length field. -/
def Record.Short : Record → Prop
  | .begin bd =>
    bd.kbID.length < 2 ^ 32 ∧ bd.changes.length < 2 ^ 32 ∧ ∀ ch ∈ bd.changes, ch.Short
  | .cursor kbID _ => kbID.length < 2 ^ 32
  | _ => True

def Record.changes : Record → List DocChange
  | .begin bd => bd.changes
  | _ => []

lemma Record.Short.length_changes {r : Record} (hshort : r.Short) : r.changes.length < 2 ^ 32 := by
  cases r with
  | begin bd => exact hshort.2.1
  | _ => exact Nat.two_pow_pos 32

lemma decodeChange_encodeChange (len : Nat) {ch : DocChange} (hshort : ch.Short)
    (rest : Bytes) : decodeChange len (encodeChange ch ++ rest) = .ok (ch, rest) := by
  simp only [encodeChange, cons_append, append_assoc, decodeChange,
    readStr_putString len hshort.1, readStr_putString len hshort.2, Except.bind]

variable {changes : List DocChange} {room len : Nat} {rest payload : Bytes}

lemma decodeChanges_flatMap (len : Nat) (hshort : ∀ ch ∈ changes, ch.Short) :
    decodeChanges len changes.length (changes.flatMap encodeChange) = .ok changes := by
  induction changes with
  | nil => rfl
  | cons ch changes ih =>
    obtain ⟨hch, hchanges⟩ := forall_mem_cons.mp hshort
    simp only [length_cons, flatMap_cons, decodeChanges, decodeChange_encodeChange len hch,
      ih hchanges, Except.bind]

lemma length_le_flatMap_encodeChange (changes : List DocChange) :
    changes.length ≤ (changes.flatMap encodeChange).length := by
  induction changes with
  | nil => exact Nat.le_refl _
  | cons ch changes ih =>
    simp only [length_cons, flatMap_cons, length_append, encodeChange]
    omega

lemma length_encodeBeginPayload (bd : BeginData) : (encodeBeginPayload bd).length =
      4 + bd.kbID.length + 8 + 4 + (bd.changes.flatMap encodeChange).length := by
  simp only [encodeBeginPayload, length_append, length_putString, length_putInt64, length_bigEndian]

lemma decodeBeginPayload_encodeBeginPayload {bd : BeginData} (hshort : (Record.begin bd).Short)
    (hroom : bd.changes.length ≤ room) :
    decodeBeginPayload room (encodeBeginPayload bd) = .ok bd := by
  have hsum := length_encodeBeginPayload bd
  have hkb : ofBigEndian (bigEndian 4 bd.kbID.length) = bd.kbID.length :=
    ofBigEndian_bigEndian_of_lt hshort.1
  have hcount : ofBigEndian (bigEndian 4 bd.changes.length) = bd.changes.length :=
    ofBigEndian_bigEndian_of_lt hshort.2.1
  have htake : (encodeBeginPayload bd).take 4 = bigEndian 4 bd.kbID.length := by
    simp only [encodeBeginPayload, putString, append_assoc]
    exact take_left' (length_bigEndian ..)
  have hdrop : (encodeBeginPayload bd).drop 4 = bd.kbID ++ (putInt64 bd.parentVersionID ++
      (bigEndian 4 bd.changes.length ++ bd.changes.flatMap encodeChange)) := by
    simp only [encodeBeginPayload, putString, append_assoc]
    exact drop_left' (length_bigEndian ..)
  generalize htail : bigEndian 4 bd.changes.length ++ bd.changes.flatMap encodeChange = tail
    at hdrop
  have hparent : (putInt64 bd.parentVersionID ++ tail).take 8 = putInt64 bd.parentVersionID :=
    take_left' (length_putInt64 _)
  have hrest : (putInt64 bd.parentVersionID ++ tail).drop 8 = tail :=
    drop_left' (length_putInt64 _)
  have hlast : (putInt64 bd.parentVersionID ++ tail).drop (8 + 4) =
      bd.changes.flatMap encodeChange := by
    rw [← drop_drop, hrest, ← htail]
    exact drop_left' (length_bigEndian ..)
  have hcountBytes : tail.take 4 = bigEndian 4 bd.changes.length := by
    rw [← htail]
    exact take_left' (length_bigEndian ..)
  have hkbFits : ¬ (bd.kbID ++ (putInt64 bd.parentVersionID ++ tail)).length <
      bd.kbID.length := by
    rw [length_append]
    omega
  have hnumbers : ¬ (putInt64 bd.parentVersionID ++ tail).length < 8 + 4 := by
    rw [← htail, length_append, length_append, length_putInt64, length_bigEndian]
    omega
  rw [decodeBeginPayload, if_neg (by omega), if_neg (by omega)]
  simp only [htake, hdrop, hkb, if_neg hkbFits, drop_left, take_left,
    if_neg hnumbers, hparent, hrest, hcountBytes, hcount, if_neg (Nat.not_lt.mpr hroom), hlast,
    getInt64_putInt64, decodeChanges_flatMap _ hshort.2.2, Except.bind]

lemma decodeCursorPayload_encodeCursorPayload {kbID : Bytes} (v : Int64)
    (hlen : kbID.length < 2 ^ 32) :
    decodeCursorPayload (encodeCursorPayload kbID v) = .ok (kbID, v) := by
  have hkb : ofBigEndian (bigEndian 4 kbID.length) = kbID.length :=
    ofBigEndian_bigEndian_of_lt hlen
  have htake : (encodeCursorPayload kbID v).take 4 = bigEndian 4 kbID.length := by
    simp only [encodeCursorPayload, putString, append_assoc]
    exact take_left' (length_bigEndian ..)
  have hdrop : (encodeCursorPayload kbID v).drop 4 = kbID ++ putInt64 v := by
    simp only [encodeCursorPayload, putString, append_assoc]
    exact drop_left' (length_bigEndian ..)
  have hsum : (encodeCursorPayload kbID v).length = 4 + kbID.length + 8 := by
    simp [encodeCursorPayload]
  rw [decodeCursorPayload, if_neg (by omega)]
  simp only [htake, hdrop, hkb, hsum, take_left, drop_left, getInt64_putInt64,
    ne_eq, not_true_eq_false, if_false]

lemma length_encodeChange_le {ch : DocChange} (hch : ch ∈ changes) :
    (encodeChange ch).length ≤ (changes.flatMap encodeChange).length :=
  (sublist_flatten_of_mem (mem_map_of_mem hch)).length_le

lemma Record.short_of_length_payload {r : Record} (hlen : r.payload.length < 2 ^ 32) : r.Short := by
  cases r with
  | begin bd =>
    have hsum := length_encodeBeginPayload bd
    have hcount := length_le_flatMap_encodeChange bd.changes
    rw [Record.payload] at hlen
    refine ⟨by omega, by omega, fun ch hch => ?_⟩
    have hle := length_encodeChange_le hch
    simp only [encodeChange, cons_append, length_cons, length_append, length_putString] at hle
    exact ⟨by omega, by omega⟩
  | cursor kbID v =>
    simp only [Record.payload, encodeCursorPayload, length_append, length_putString] at hlen
    exact show kbID.length < 2 ^ 32 by omega
  | _ => trivial

lemma Record.decodeRecord_payload {r : Record} (hshort : r.Short)
    (hroom : r.changes.length ≤ room) : decodeRecord room r.tag r.payload = .ok r := by
  cases r with
  | begin bd =>
    simp [decodeRecord, Record.tag, Record.payload, Except.bind,
      decodeBeginPayload_encodeBeginPayload hshort hroom]
  | cursor kbID v =>
    simp [decodeRecord, Record.tag, Record.payload, Except.bind,
      decodeCursorPayload_encodeCursorPayload v hshort]
  | _ => simp [decodeRecord, Record.tag, Record.payload, versionDeletePayload]

/-! A record read from a payload is no longer than the payload it was read from, and its
lengths fit their fields; only the BEGIN of an empty payload grows, to the sixteen bytes its
zero fields take. -/

lemma ofBigEndian_take_lt (bs : Bytes) : ofBigEndian (bs.take 4) < 2 ^ 32 :=
  Nat.lt_of_lt_of_le (ofBigEndian_lt _) (Nat.pow_le_pow_right (by decide) (length_take_le ..))

lemma length_of_readStr {rest' s : Bytes} (hread : readStr len rest = .ok (s, rest')) :
    rest.length = 4 + s.length + rest'.length ∧ s.length < 2 ^ 32 := by
  have hfield := ofBigEndian_take_lt rest
  unfold readStr at hread
  split at hread
  · cases hread
  next hfour =>
  dsimp only at hread
  split at hread
  · cases hread
  next hfits =>
  cases hread
  simp only [length_take, length_drop] at hfits ⊢
  omega

lemma exists_of_bind_eq_ok {α β : Type} {x : Except DecodeError α}
    {f : α → Except DecodeError β} {b : β} (hbind : x.bind f = .ok b) :
    ∃ a, x = .ok a ∧ f a = .ok b := by
  cases x with
  | error e => cases hbind
  | ok a => exact ⟨a, rfl, hbind⟩

lemma length_of_decodeChange {rest' : Bytes} {ch : DocChange}
    (hdecode : decodeChange len rest = .ok (ch, rest')) :
    rest.length = (encodeChange ch).length + rest'.length ∧ ch.Short := by
  cases rest with
  | nil => cases hdecode
  | cons op rest =>
  obtain ⟨⟨docID, afterDoc⟩, hdoc, hdecode⟩ := exists_of_bind_eq_ok hdecode
  obtain ⟨⟨content, afterContent⟩, hcontent, ⟨⟩⟩ := exists_of_bind_eq_ok hdecode
  obtain ⟨hfirst, hdocShort⟩ := length_of_readStr hdoc
  obtain ⟨hsecond, hcontentShort⟩ := length_of_readStr hcontent
  refine ⟨?_, hdocShort, hcontentShort⟩
  simp only [encodeChange, length_cons, length_append, length_putString]
  omega

lemma length_of_decodeChanges {count : Nat}
    (hdecode : decodeChanges len count rest = .ok changes) :
    (changes.flatMap encodeChange).length ≤ rest.length ∧ changes.length = count ∧
      ∀ ch ∈ changes, ch.Short := by
  induction count generalizing rest changes with
  | zero =>
    cases hdecode
    simp
  | succ count ih =>
  obtain ⟨⟨ch, rest'⟩, hfirst, hdecode⟩ := exists_of_bind_eq_ok hdecode
  obtain ⟨others, hothers, ⟨⟩⟩ := exists_of_bind_eq_ok hdecode
  obtain ⟨hhead, hch⟩ := length_of_decodeChange hfirst
  obtain ⟨htail, hcount, hshort⟩ := ih hothers
  rw [flatMap_cons, length_append, length_cons]
  exact ⟨by omega, by omega, forall_mem_cons.mpr ⟨hch, hshort⟩⟩

lemma length_of_decodeBeginPayload {bd : BeginData}
    (hdecode : decodeBeginPayload room payload = .ok bd) :
    (encodeBeginPayload bd).length ≤ max payload.length 16 ∧ (Record.begin bd).Short ∧
      bd.changes.length ≤ room := by
  rw [length_encodeBeginPayload]
  unfold decodeBeginPayload at hdecode
  split at hdecode
  · cases hdecode
    exact ⟨Nat.le_max_right .., by simp [Record.Short], Nat.zero_le _⟩
  split at hdecode
  · cases hdecode
  dsimp only at hdecode
  split at hdecode
  · cases hdecode
  split at hdecode
  · cases hdecode
  split at hdecode
  · cases hdecode
  next hroom =>
  obtain ⟨changes, hchanges, ⟨⟩⟩ := exists_of_bind_eq_ok hdecode
  obtain ⟨hlen, hcount, hshort⟩ := length_of_decodeChanges hchanges
  have hcountShort : changes.length < 2 ^ 32 := hcount ▸ ofBigEndian_take_lt _
  refine ⟨?_, ⟨Nat.lt_of_le_of_lt (length_take_le ..) (ofBigEndian_take_lt payload), hcountShort,
    hshort⟩, hcount ▸ Nat.not_lt.mp hroom⟩
  simp only [length_take, length_drop] at *
  omega

lemma length_of_decodeCursorPayload {kbID : Bytes} {v : Int64}
    (hdecode : decodeCursorPayload payload = .ok (kbID, v)) :
    (encodeCursorPayload kbID v).length = payload.length ∧ kbID.length < 2 ^ 32 := by
  unfold decodeCursorPayload at hdecode
  split at hdecode
  · cases hdecode
  dsimp only at hdecode
  split at hdecode
  · cases hdecode
  cases hdecode
  refine ⟨?_, Nat.lt_of_le_of_lt (length_take_le ..) (ofBigEndian_take_lt payload)⟩
  simp only [encodeCursorPayload, length_append, length_putString, length_putInt64,
    length_take, length_drop]
  omega

lemma Record.length_payload_le {tag : UInt8} {r : Record}
    (hdecode : decodeRecord room tag payload = .ok r) :
    r.payload.length ≤ max payload.length 16 ∧ r.Short ∧ r.changes.length ≤ room := by
  unfold decodeRecord at hdecode
  split at hdecode
  · obtain ⟨bd, hresult, ⟨⟩⟩ := exists_of_bind_eq_ok hdecode
    exact length_of_decodeBeginPayload hresult
  repeat' split at hdecode
  any_goals cases hdecode
  on_goal 7 =>
    obtain ⟨⟨kbID, v⟩, hresult, ⟨⟩⟩ := exists_of_bind_eq_ok hdecode
    obtain ⟨hlen, hshort⟩ := length_of_decodeCursorPayload hresult
    exact ⟨Nat.le_trans (Nat.le_of_eq hlen) (Nat.le_max_left _ _), hshort, Nat.zero_le _⟩
  all_goals simp [Record.payload, versionDeletePayload, Record.Short, Record.changes]
  all_goals omega

/-- The knowledge base id of a BEGIN payload leaves too few bytes for the two numbers that
follow it. -/
def CutShort (payload : Bytes) : Prop :=
  16 ≤ payload.length ∧ 4 + ofBigEndian (payload.take 4) ≤ payload.length ∧
    payload.length < 16 + ofBigEndian (payload.take 4)

/-- A BEGIN payload that is not cut short announces more changes than the process has the memory
for, whatever follows. -/
def Overdrawn (room : Nat) (payload : Bytes) : Prop :=
  16 + ofBigEndian (payload.take 4) ≤ payload.length ∧ room < announced payload

/-- The decoder does not come back with a value or an error. -/
def DecodeError.Fatal : DecodeError → Prop
  | .outOfRange | .outOfMemory _ => True
  | _ => False

/-- The result is a value or an error that is returned. -/
def Returns {α : Type} (x : Except DecodeError α) : Prop := ∀ e, x = .error e → ¬ e.Fatal

lemma Returns.ok {α : Type} (a : α) : Returns (.ok a) := nofun

lemma returns_error_iff {α : Type} {e : DecodeError} :
    Returns (.error e : Except DecodeError α) ↔ ¬ e.Fatal :=
  ⟨fun h => h e rfl, fun h _ heq => Except.error.inj heq ▸ h⟩

lemma Returns.bind {α β : Type} {x : Except DecodeError α} {f : α → Except DecodeError β}
    (hx : Returns x) (hf : ∀ a, Returns (f a)) : Returns (x.bind f) := by
  cases x with
  | error e => exact returns_error_iff.mpr (hx e rfl)
  | ok a => exact hf a

lemma returns_readStr : Returns (readStr len rest) := by
  dsimp only [readStr]
  repeat' split
  all_goals first | exact .ok _ | exact returns_error_iff.mpr id

lemma returns_decodeChange : Returns (decodeChange len rest) := by
  cases rest with
  | nil => exact returns_error_iff.mpr id
  | cons op rest => exact returns_readStr.bind fun _ => returns_readStr.bind fun _ => .ok _

lemma returns_decodeChanges {count : Nat} : Returns (decodeChanges len count rest) := by
  induction count generalizing rest with
  | zero => exact .ok _
  | succ count ih => exact returns_decodeChange.bind fun _ => ih.bind fun _ => .ok _

lemma returns_decodeBeginPayload_iff :
    Returns (decodeBeginPayload room payload) ↔ ¬ (CutShort payload ∨ Overdrawn room payload) := by
  unfold decodeBeginPayload CutShort Overdrawn
  split
  · exact iff_of_true (.ok _) (by omega)
  split
  · exact iff_of_true (returns_error_iff.mpr id) (by omega)
  dsimp only
  split
  · next hkb =>
    rw [length_drop] at hkb
    exact iff_of_true (returns_error_iff.mpr id) (by omega)
  rename_i hkb
  simp only [length_drop] at hkb
  split
  · next hnumbers =>
    simp only [length_drop] at hnumbers
    exact iff_of_false (fun h => returns_error_iff.mp h trivial) (by omega)
  next hnumbers =>
  simp only [length_drop] at hnumbers
  split
  · next hcount =>
    exact iff_of_false (fun h => returns_error_iff.mp h trivial) fun h => h (.inr ⟨by omega, hcount⟩)
  · next hcount =>
    refine iff_of_true (returns_decodeChanges.bind fun _ => .ok _) ?_
    rintro (hcut | ⟨-, hover⟩)
    · omega
    · exact hcount hover

lemma returns_decodeCursorPayload : Returns (decodeCursorPayload payload) := by
  dsimp only [decodeCursorPayload]
  repeat' split
  all_goals first | exact .ok _ | exact returns_error_iff.mpr id

lemma returns_decodeRecord_iff {tag : UInt8} : Returns (decodeRecord room tag payload) ↔
    ¬ (tag = 0x01 ∧ (CutShort payload ∨ Overdrawn room payload)) := by
  unfold decodeRecord
  split
  · next htag =>
    rw [not_and, ← @returns_decodeBeginPayload_iff room]
    refine ⟨fun h _ e he => h e (by rw [he]; rfl), fun h => (h htag).bind fun _ => .ok _⟩
  next htag =>
  refine iff_of_true ?_ fun h => htag h.1
  repeat' split
  any_goals first | exact .ok _ | exact returns_error_iff.mpr id
  exact returns_decodeCursorPayload.bind fun _ => .ok _

/-- The payload codecs: a record comes back exactly when its lengths fit their fields and its
changes the memory, and the only payloads that decode to neither a value nor an error are the
BEGINs cut short behind their knowledge base id and those that announce more changes than the
memory has room for. The BEGIN of the format without replay input is told from the current one by
its empty payload, the VERSION_ID without a knowledge base reads with the empty one. -/
theorem Record.payload_codec (room : Nat) (r : Record) (tag : UInt8) (payload : Bytes)
    (bd : BeginData) (v : Int64) :
    (decodeRecord room r.tag r.payload = .ok r ↔ r.Short ∧ r.changes.length ≤ room) ∧
      (Returns (decodeRecord room tag payload) ↔
        ¬ (tag = 0x01 ∧ (CutShort payload ∨ Overdrawn room payload))) ∧
      decodeRecord room 0x01 [] = .ok (.begin {}) ∧ (Record.begin bd).payload ≠ [] ∧
      decodeRecord room 0x02 (putInt64 v) = .ok (.versionID [] v) := by
  refine ⟨⟨fun hdecode => (length_payload_le hdecode).2, fun h => decodeRecord_payload h.1 h.2⟩,
    returns_decodeRecord_iff, rfl, fun hnil => ?_, ?_⟩
  · have hlen := congrArg length hnil
    rw [Record.payload, length_encodeBeginPayload, length_nil] at hlen
    omega
  · simpa [Record.tag, Record.payload] using
      decodeRecord_payload (r := .versionID [] v) trivial (Nat.zero_le room)

/-- Sixteen bytes that claim a knowledge base id of twelve: the parent version would be read
past the end. Sixteen bytes that announce `2 ^ 32 - 1` changes and have none: the slice for them
is made first. -/
theorem decodeRecord_fatal :
    decodeRecord (2 ^ 30) 0x01 ([0, 0, 0, 12] ++ replicate 12 0) = .error .outOfRange ∧
      decodeRecord (2 ^ 30) 0x01 (replicate 12 0 ++ [255, 255, 255, 255]) =
        .error (.outOfMemory (2 ^ 32 - 1)) := by
  decide +kernel

end stratum.wal
