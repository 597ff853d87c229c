import Stratum.Wal.Record

open stratum.lib List

namespace stratum.wal

open Record

/-! Record framing: type tag, payload length, payload, and the CRC32 of all three. Writing
appends a frame; reading takes frames off the front until one does not check out. -/

/-- One entry of `crc32.IEEETable`. -/
def ieeeTable (b : UInt8) : UInt32 :=
  (range 8).foldl (fun c _ => if c &&& 1 = 1 then (c >>> 1) ^^^ 0xedb88320 else c >>> 1) b.toUInt32

def crc32Update (crc : UInt32) (p : Bytes) : UInt32 :=
  ~~~ p.foldl (fun c v => ieeeTable (c.toUInt8 ^^^ v) ^^^ (c >>> 8)) (~~~ crc)

def checksumIEEE (data : Bytes) : UInt32 := crc32Update 0 data

def recordHeaderLen : Nat := 1 + 4

def recordCRCLen : Nat := 4

/-- The longest payload a reader accepts, 64 MiB. -/
def maxSanePayload : Nat := 2 ^ 26

/-- The most that is searched behind a damaged record. -/
def maxDamageScan : Nat := maxSanePayload + recordHeaderLen + recordCRCLen

def Record.header (r : Record) : Bytes := r.tag :: bigEndian 4 r.payload.length

def Record.frame (r : Record) : Bytes :=
  r.header ++ r.payload ++
    bigEndian recordCRCLen (crc32Update (checksumIEEE r.header) r.payload).toNat

inductive ReadError
  | short
  | implausibleLength (payloadLen : Nat)
  | checksumMismatch
  | decode (error : DecodeError)
deriving DecidableEq

/-- Room for whatever a `uint32` announces: a process that has less is killed at the first record
that asks for more, and does nothing further. -/
def anyCount : Nat := 2 ^ 32

/-- The record at the front of `data` and the number of bytes it takes there. -/
def readRecord (data : Bytes) : Except ReadError (Record × Nat) :=
  if data.length < recordHeaderLen then .error .short
  else
    let header := data.take recordHeaderLen
    let payloadLen := ofBigEndian (header.drop 1)
    if maxSanePayload < payloadLen then .error (.implausibleLength payloadLen)
    else
      let rest := data.drop recordHeaderLen
      if rest.length < payloadLen then .error .short
      else
        let payload := rest.take payloadLen
        let rest := rest.drop payloadLen
        if rest.length < recordCRCLen then .error .short
        else
          let wantCRC := ofBigEndian (rest.take recordCRCLen)
          let gotCRC := crc32Update (checksumIEEE header) payload
          if gotCRC.toNat ≠ wantCRC then .error .checksumMismatch
          else
            match decodeRecord anyCount (header.headD 0) payload with
            | .error e => .error (.decode e)
            | .ok r => .ok (r, recordHeaderLen + payloadLen + recordCRCLen)

structure RawRecord where
  record : Record
  raw : Bytes
deriving DecidableEq

/-- What one pass over a log file meets: its records up to the first read that fails, where
they end, and that failure. -/
structure Scan where
  records : List RawRecord
  validEnd : Nat
  stop : ReadError
deriving DecidableEq

/-- Every record takes bytes, so more fuel than bytes never runs out. -/
def scanFrom : Nat → Bytes → Scan
  | 0, _ => { records := [], validEnd := 0, stop := .short }
  | fuel + 1, data =>
    match readRecord data with
    | .error e => { records := [], validEnd := 0, stop := e }
    | .ok (record, n) =>
      let rest := scanFrom fuel (data.drop n)
      { records := { record, raw := data.take n } :: rest.records
        validEnd := n + rest.validEnd
        stop := rest.stop }

def scan (data : Bytes) : Scan := scanFrom (data.length + 1) data

/-- Why a log file is refused. `panicked` is the unguarded slice expression of a malformed
BEGIN payload. -/
inductive OpenError
  | unknownRecord (offset : Nat) (tag : UInt8)
  | bytesBehind (offset : Nat) (cause : ReadError) (behind : Nat)
  | logContinues (offset : Nat) (cause : ReadError) (next : Nat)
  | panicked
deriving DecidableEq

/-- The first offset at which a whole record begins; each offset is held to what
`readRecord` asks of a record. -/
def findRecordIn : Bytes → Except OpenError (Option Nat)
  | [] => .ok none
  | b :: data =>
    if (b :: data).length < recordHeaderLen + recordCRCLen then .ok none
    else
      match readRecord (b :: data) with
      | .ok _ => .ok (some 0)
      | .error (.decode .outOfRange) => .error .panicked
      | .error _ => (findRecordIn data).map fun off => off.map (· + 1)

/-- Whether the read that failed at `recordStart` left whole records behind it. -/
def damageIsInTheMiddle (data : Bytes) (recordStart : Nat) (cause : ReadError) :
    Except OpenError Unit :=
  let start := recordStart + 1
  if data.length ≤ start then .ok ()
  else
    let rest := data.drop start
    if maxDamageScan < rest.length then .error (.bytesBehind recordStart cause rest.length)
    else
      match findRecordIn rest with
      | .error e => .error e
      | .ok (some off) => .error (.logContinues recordStart cause (start + off))
      | .ok none => .ok ()

/-- The rule opening, compaction and knowledge base removal share: the records before a
torn tail are the log, and damage with records behind it, like a record of an unknown type,
refuses the file. -/
def readLog (data : Bytes) : Except OpenError Scan :=
  let s := scan data
  match s.stop with
  | .decode (.unknownRecord tag) => .error (.unknownRecord s.validEnd tag)
  | .decode .outOfRange => .error .panicked
  | cause => (damageIsInTheMiddle data s.validEnd cause).map fun _ => s

/-! ### Frames read back -/

namespace Record

@[simp] lemma length_header (r : Record) : r.header.length = recordHeaderLen := by
  simp [header, recordHeaderLen]

@[simp] lemma length_frame (r : Record) :
    r.frame.length = recordHeaderLen + r.payload.length + recordCRCLen := by
  simp [frame, add_assoc]

def raw (r : Record) : RawRecord := { record := r, raw := r.frame }

def Sane (r : Record) : Prop := r.payload.length ≤ maxSanePayload
  deriving Decidable

end Record

lemma readRecord_parts {header payload crc : Bytes} (hheader : header.length = recordHeaderLen)
    (hlen : ofBigEndian (header.drop 1) = payload.length) (hsane : payload.length ≤ maxSanePayload)
    (hcrc : crc.length = recordCRCLen) (more : Bytes) :
    readRecord (header ++ (payload ++ (crc ++ more))) =
      if (crc32Update (checksumIEEE header) payload).toNat ≠ ofBigEndian crc then
        .error .checksumMismatch
      else
        match decodeRecord anyCount (header.headD 0) payload with
        | .error e => .error (.decode e)
        | .ok r => .ok (r, recordHeaderLen + payload.length + recordCRCLen) := by
  have hwhole : ¬ (header ++ (payload ++ (crc ++ more))).length < recordHeaderLen := by
    rw [length_append]
    omega
  have hpayload : ¬ (payload ++ (crc ++ more)).length < payload.length := by
    rw [length_append]
    omega
  have htrailer : ¬ (crc ++ more).length < recordCRCLen := by
    rw [length_append]
    omega
  rw [readRecord, if_neg hwhole]
  simp only [take_left' hheader, drop_left' hheader, hlen, if_neg (Nat.not_lt.mpr hsane),
    if_neg hpayload, take_left, drop_left, if_neg htrailer, take_left' hcrc]

lemma readRecord_frame_append {r : Record} (hsane : r.Sane) (rest : Bytes) :
    readRecord (r.frame ++ rest) = .ok (r, r.frame.length) := by
  have hmax : maxSanePayload < 2 ^ 32 := by decide
  have hlen : r.payload.length < 2 ^ 32 := Nat.lt_of_le_of_lt hsane hmax
  have hshort := short_of_length_payload hlen
  have hdecode : decodeRecord anyCount r.tag r.payload = .ok r :=
    decodeRecord_payload hshort (Nat.le_of_lt hshort.length_changes)
  generalize hcrc : crc32Update (checksumIEEE r.header) r.payload = crc
  have hframe : r.frame ++ rest =
      r.header ++ (r.payload ++ (bigEndian recordCRCLen crc.toNat ++ rest)) := by
    rw [frame, hcrc, append_assoc, append_assoc]
  have hwant : ofBigEndian (bigEndian recordCRCLen crc.toNat) = crc.toNat :=
    ofBigEndian_bigEndian_of_lt crc.toNat_lt
  rw [hframe, readRecord_parts (length_header r) (ofBigEndian_bigEndian_of_lt hlen) hsane
    (length_bigEndian ..), hcrc, hwant, if_neg fun hne => hne rfl,
    show r.header.headD 0 = r.tag from rfl, hdecode, length_frame]

variable {log : List Record} {fuel : Nat}

/-- A reader takes whole frames off the front, up to bytes that are none. -/
lemma scanFrom_frames_append {tail : Bytes} {e : ReadError} (hsane : ∀ r ∈ log, r.Sane)
    (hfuel : log.length < fuel) (htail : readRecord tail = .error e) :
    scanFrom fuel (log.flatMap frame ++ tail) =
      { records := log.map raw
        validEnd := (log.flatMap frame).length
        stop := e } := by
  induction log generalizing fuel with
  | nil =>
    obtain _ | fuel := fuel
    · cases hfuel
    · rw [flatMap_nil, nil_append, scanFrom, htail]
      rfl
  | cons r log ih =>
    obtain _ | fuel := fuel
    · cases hfuel
    have hread := readRecord_frame_append (hsane r mem_cons_self) (log.flatMap frame ++ tail)
    have hrest := ih (fun r' hr' => hsane r' (mem_cons_of_mem _ hr')) (Nat.lt_of_succ_lt_succ hfuel)
    rw [flatMap_cons, append_assoc, scanFrom, hread]
    simp only [drop_left, take_left, hrest, map_cons, length_append]
    rfl

lemma scanFrom_frames (hsane : ∀ r ∈ log, r.Sane) (hfuel : log.length < fuel) :
    scanFrom fuel (log.flatMap frame) =
      { records := log.map raw
        validEnd := (log.flatMap frame).length
        stop := .short } := by
  have hempty := @scanFrom_frames_append log fuel [] .short hsane hfuel rfl
  rwa [append_nil] at hempty

lemma length_le_flatMap_frame (log : List Record) : log.length ≤ (log.flatMap frame).length := by
  induction log with
  | nil => exact Nat.le_refl _
  | cons r log ih =>
    rw [length_cons, flatMap_cons, length_append, length_frame]
    simp only [recordHeaderLen]
    omega

lemma readLog_frames (hsane : ∀ r ∈ log, r.Sane) : readLog (log.flatMap frame) =
      .ok { records := log.map raw
            validEnd := (log.flatMap frame).length
            stop := .short } := by
  have hscan : scan (log.flatMap frame) = _ :=
    scanFrom_frames hsane (Nat.lt_succ_of_le (length_le_flatMap_frame log))
  have hend : (log.flatMap frame).length ≤ (log.flatMap frame).length + 1 :=
    Nat.le_succ _
  simp only [readLog, hscan, damageIsInTheMiddle, if_pos hend]
  rfl

variable {data : Bytes}

lemma sane_of_readRecord {r : Record} {n : Nat} (hread : readRecord data = .ok (r, n)) :
    r.Sane := by
  unfold readRecord at hread
  split at hread
  · cases hread
  dsimp only at hread
  split at hread
  · cases hread
  next hreadable =>
  split at hread
  · cases hread
  split at hread
  · cases hread
  split at hread
  · cases hread
  split at hread
  · cases hread
  next hdecode =>
  cases hread
  have hlen := (length_payload_le hdecode).1
  have hsixteen : 16 ≤ maxSanePayload := by decide
  rw [length_take] at hlen
  unfold Record.Sane
  omega

lemma sane_of_mem_scanFrom {raw : RawRecord} (hmem : raw ∈ (scanFrom fuel data).records) :
    raw.record.Sane := by
  induction fuel generalizing data with
  | zero => cases hmem
  | succ fuel ih =>
  rw [scanFrom] at hmem
  split at hmem
  · cases hmem
  next hread =>
  rcases mem_cons.mp hmem with rfl | hrest
  · exact sane_of_readRecord hread
  · exact ih hrest

end stratum.wal
