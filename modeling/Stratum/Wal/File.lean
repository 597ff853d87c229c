import Mathlib.Data.List.AList
import Stratum.Wal.Frame

open Function

namespace stratum.wal

/-! The log of one node: the file, and the index over it that every write keeps current and
that opening the file rebuilds. Only writes that returned success are modelled; a write that
fails is rewound and leaves neither bytes nor index entries. -/

/-- The idempotency and pending-state maps. -/
structure Index where
  versionIDsWritten : Int64 → Bool := fun _ => false
  committedVersions : Int64 → Bool := fun _ => false
  deleteMarked : Bytes → Bool := fun _ => false
  deleteCompleted : Bytes → Bool := fun _ => false
  versionDeleteMarked : Int64 → Option Bytes := fun _ => none
  versionDeleteDone : Int64 → Bool := fun _ => false
  cursors : Bytes → Option Int64 := fun _ => none

/-- `w.cursors[kbID]` read without the presence flag. -/
def Index.cursor (ix : Index) (kbID : Bytes) : Int64 := (ix.cursors kbID).getD 0

def Index.apply (ix : Index) : Record → Index
  | .begin _ => ix
  | .versionID _ v => { ix with versionIDsWritten := update ix.versionIDsWritten v true }
  | .commit v => { ix with committedVersions := update ix.committedVersions v true }
  | .deleteMark kbID => { ix with deleteMarked := update ix.deleteMarked kbID true }
  | .deleteComplete kbID =>
    { ix with deleteCompleted := update ix.deleteCompleted kbID true }
  | .versionDeleteMark kbID v =>
    { ix with versionDeleteMarked := update ix.versionDeleteMarked v (some kbID) }
  | .versionDeleteComplete _ v =>
    { ix with versionDeleteDone := update ix.versionDeleteDone v true }
  | .cursor kbID v =>
    if ix.cursor kbID < v then { ix with cursors := update ix.cursors kbID (some v) }
    else ix

/-- The records that are paired with one another. -/
def Record.pairs : Record → Bool
  | .begin _ | .versionID .. => true
  | _ => false

structure FileWAL where
  file : Bytes := []
  index : Index := {}
  beginDataByVersion : Int64 → Option BeginData := fun _ => none
  pendingBeginByKB : Bytes → Option BeginData := fun _ => none
  pendingVersionIDByKB : Bytes → Option Int64 := fun _ => none

/-! ### Opening -/

/-- A map from knowledge bases that the source ranges over or takes the length of. -/
abbrev ByKB (α : Type) := AList fun _ : Bytes => α

/-- The BEGIN a VERSION_ID belongs to, and the ones that stay behind. A record without a
knowledge base takes the only one there is. -/
def takePendingBegin {α : Type} (pending : ByKB α) (kbID : Bytes) : Option (α × ByKB α) :=
  if kbID ≠ [] then (pending.lookup kbID).map fun begin => (begin, pending.erase kbID)
  else
    match pending.entries with
    | [⟨kb, begin⟩] => some (begin, pending.erase kb)
    | _ => none

/-- The variables of `rebuildIndex`'s loop; `pendingVersionID` is zero when none waits. -/
structure Rebuild where
  index : Index := {}
  beginDataByVersion : Int64 → Option BeginData := fun _ => none
  pendingBegin : ByKB BeginData := ∅
  pendingVersionID : Int64 := 0

def Rebuild.pair (s : Rebuild) : Record → Rebuild
  | .begin bd =>
    if s.pendingVersionID ≠ 0 then
      { s with
        beginDataByVersion := update s.beginDataByVersion s.pendingVersionID (some bd)
        pendingVersionID := 0 }
    else { s with pendingBegin := s.pendingBegin.insert bd.kbID bd }
  | .versionID kbID v =>
    match takePendingBegin s.pendingBegin kbID with
    | some (bd, pendingBegin) =>
      { s with
        beginDataByVersion := update s.beginDataByVersion v (some bd)
        pendingBegin }
    | none => { s with pendingVersionID := v }
  | _ => s

def Rebuild.step (s : Rebuild) (r : Record) : Rebuild := { s.pair r with index := s.index.apply r }

def rebuild (log : List Record) : Rebuild := log.foldl Rebuild.step {}

/-- `NewFileWAL` on a file that holds `data`: the index is rebuilt from the records, and what
is behind the last whole one is cut off. -/
def newFileWAL (data : Bytes) : Except OpenError FileWAL :=
  (readLog data).map fun s =>
    let built := rebuild (s.records.map RawRecord.record)
    { file := data.take s.validEnd
      index := built.index
      beginDataByVersion := built.beginDataByVersion }

/-! ### Writing -/

namespace FileWAL

/-- One record's write: nothing when the log already has it, else the framed bytes and the
index update `note`. -/
def appendDurable (w : FileWAL) (written : Bool) (r : Record) (note : FileWAL → FileWAL) :
    FileWAL :=
  if written then w else note { w with file := w.file ++ r.frame }

def writeBegin (w : FileWAL) (bd : BeginData) : FileWAL :=
  w.appendDurable false (.begin bd) fun w =>
    match w.pendingVersionIDByKB bd.kbID with
    | some versionID =>
      { w with
        beginDataByVersion := update w.beginDataByVersion versionID (some bd)
        pendingVersionIDByKB := update w.pendingVersionIDByKB bd.kbID none }
    | none =>
      { w with pendingBeginByKB := update w.pendingBeginByKB bd.kbID (some bd) }

def writeVersionID (w : FileWAL) (kbID : Bytes) (versionID : Int64) : FileWAL :=
  w.appendDurable (w.index.versionIDsWritten versionID) (.versionID kbID versionID) fun w =>
    let index := { w.index with
      versionIDsWritten := update w.index.versionIDsWritten versionID true }
    match w.pendingBeginByKB kbID with
    | some bd =>
      { w with
        index
        beginDataByVersion := update w.beginDataByVersion versionID (some bd)
        pendingBeginByKB := update w.pendingBeginByKB kbID none }
    | none =>
      { w with
        index
        pendingVersionIDByKB := update w.pendingVersionIDByKB kbID (some versionID) }

def writeCommit (w : FileWAL) (versionID : Int64) : FileWAL :=
  w.appendDurable (w.index.committedVersions versionID) (.commit versionID) fun w =>
    { w with index := { w.index with
        committedVersions := update w.index.committedVersions versionID true } }

def writeDeleteMark (w : FileWAL) (kbID : Bytes) : FileWAL :=
  w.appendDurable (w.index.deleteMarked kbID) (.deleteMark kbID) fun w =>
    { w with index := { w.index with
        deleteMarked := update w.index.deleteMarked kbID true } }

def writeDeleteComplete (w : FileWAL) (kbID : Bytes) : FileWAL :=
  w.appendDurable (w.index.deleteCompleted kbID) (.deleteComplete kbID) fun w =>
    { w with index := { w.index with
        deleteCompleted := update w.index.deleteCompleted kbID true } }

def writeVersionDeleteMark (w : FileWAL) (kbID : Bytes) (versionID : Int64) : FileWAL :=
  w.appendDurable (w.index.versionDeleteMarked versionID).isSome
    (.versionDeleteMark kbID versionID) fun w =>
    { w with index := { w.index with
        versionDeleteMarked :=
          update w.index.versionDeleteMarked versionID (some kbID) } }

def writeVersionDeleteComplete (w : FileWAL) (kbID : Bytes) (versionID : Int64) : FileWAL :=
  w.appendDurable (w.index.versionDeleteDone versionID)
    (.versionDeleteComplete kbID versionID) fun w =>
    { w with index := { w.index with
        versionDeleteDone := update w.index.versionDeleteDone versionID true } }

def writeCursor (w : FileWAL) (kbID : Bytes) (versionID : Int64) : FileWAL :=
  w.appendDurable (decide (versionID ≤ w.index.cursor kbID)) (.cursor kbID versionID) fun w =>
    { w with index := { w.index with
        cursors := update w.index.cursors kbID (some versionID) } }

/-- A `Write*` call, named by the record it is about. -/
def write (w : FileWAL) : Record → FileWAL
  | .begin bd => w.writeBegin bd
  | .versionID kbID v => w.writeVersionID kbID v
  | .commit v => w.writeCommit v
  | .deleteMark kbID => w.writeDeleteMark kbID
  | .deleteComplete kbID => w.writeDeleteComplete kbID
  | .versionDeleteMark kbID v => w.writeVersionDeleteMark kbID v
  | .versionDeleteComplete kbID v => w.writeVersionDeleteComplete kbID v
  | .cursor kbID v => w.writeCursor kbID v

/-- The call finds its record in the index and appends nothing. -/
def recorded (w : FileWAL) : Record → Bool
  | .begin _ => false
  | .versionID _ v => w.index.versionIDsWritten v
  | .commit v => w.index.committedVersions v
  | .deleteMark kbID => w.index.deleteMarked kbID
  | .deleteComplete kbID => w.index.deleteCompleted kbID
  | .versionDeleteMark _ v => (w.index.versionDeleteMarked v).isSome
  | .versionDeleteComplete _ v => w.index.versionDeleteDone v
  | .cursor kbID v => decide (v ≤ w.index.cursor kbID)

end FileWAL

/-! ### Answers -/

inductive PendingRecordType
  | deleteMark
  | versionWrite
  | versionDelete
deriving DecidableEq

/-- A record that crash recovery has to handle. -/
structure PendingRecord where
  type : PendingRecordType
  kbID : Bytes := []
  versionID : Int64 := 0
  parentVersionID : Int64 := 0
  changes : List DocChange := []
deriving DecidableEq

structure VersionDelta where
  versionID : Int64
  parentVersionID : Int64
  changes : List DocChange
deriving DecidableEq

variable {r : Record} {w : FileWAL} {bd : BeginData} {v : Int64}

namespace FileWAL

/-- What `Recover` reports for a version without its COMMIT. -/
def versionWrite (w : FileWAL) (versionID : Int64) : PendingRecord :=
  match w.beginDataByVersion versionID with
  | some bd =>
    { type := .versionWrite
      kbID := bd.kbID
      versionID
      parentVersionID := bd.parentVersionID
      changes := bd.changes }
  | none => { type := .versionWrite, versionID }

/-- Whether `Recover` reports `rec`. It ranges over its maps, so the answer has no order. -/
def recover (w : FileWAL) (rec : PendingRecord) : Bool :=
  match rec.type with
  | .versionWrite =>
    w.index.versionIDsWritten rec.versionID && !w.index.committedVersions rec.versionID &&
      decide (rec = w.versionWrite rec.versionID)
  | .deleteMark =>
    w.index.deleteMarked rec.kbID && !w.index.deleteCompleted rec.kbID &&
      decide (rec = { type := .deleteMark, kbID := rec.kbID })
  | .versionDelete =>
    decide (w.index.versionDeleteMarked rec.versionID = some rec.kbID) &&
      !w.index.versionDeleteDone rec.versionID &&
      decide (rec = { type := .versionDelete, kbID := rec.kbID, versionID := rec.versionID })

/-- The entry of `ChangesInRange` for one version. -/
def changesInRange (w : FileWAL) (kbID : Bytes) (fromExclusive toInclusive versionID : Int64) :
    Option VersionDelta :=
  match w.beginDataByVersion versionID with
  | some bd =>
    if fromExclusive < versionID ∧ versionID ≤ toInclusive ∧ bd.kbID = kbID then
      some { versionID, parentVersionID := bd.parentVersionID, changes := bd.changes }
    else none
  | none => none

def recoverCursors (w : FileWAL) : Bytes → Option Int64 := w.index.cursors

/-! ### What a write does -/

lemma write_of_recorded (hrec : w.recorded r = true) : w.write r = w := by
  cases r <;> first | cases hrec | exact if_pos hrec

lemma write_begin_of_some (hwaits : w.pendingVersionIDByKB bd.kbID = some v) : w.write (.begin bd) =
      { w with
        file := w.file ++ (Record.begin bd).frame
        beginDataByVersion := update w.beginDataByVersion v (some bd)
        pendingVersionIDByKB := update w.pendingVersionIDByKB bd.kbID none } := by
  simp only [write, writeBegin, appendDurable, Bool.false_eq_true, if_false, hwaits]

lemma write_begin_of_none (hwaits : w.pendingVersionIDByKB bd.kbID = none) : w.write (.begin bd) =
      { w with
        file := w.file ++ (Record.begin bd).frame
        pendingBeginByKB := update w.pendingBeginByKB bd.kbID (some bd) } := by
  simp only [write, writeBegin, appendDurable, Bool.false_eq_true, if_false, hwaits]

variable {kbID : Bytes}

section

variable (hnew : w.index.versionIDsWritten v = false)

include hnew

lemma write_versionID_of_some (hwaits : w.pendingBeginByKB kbID = some bd) :
    w.write (.versionID kbID v) =
      { w with
        file := w.file ++ (Record.versionID kbID v).frame
        index := w.index.apply (.versionID kbID v)
        beginDataByVersion := update w.beginDataByVersion v (some bd)
        pendingBeginByKB := update w.pendingBeginByKB kbID none } := by
  simp only [write, writeVersionID, appendDurable, hnew, hwaits]
  rfl

lemma write_versionID_of_none (hwaits : w.pendingBeginByKB kbID = none) :
    w.write (.versionID kbID v) =
      { w with
        file := w.file ++ (Record.versionID kbID v).frame
        index := w.index.apply (.versionID kbID v)
        pendingVersionIDByKB := update w.pendingVersionIDByKB kbID (some v) } := by
  simp only [write, writeVersionID, appendDurable, hnew, hwaits]
  rfl

end

variable (hrec : w.recorded r = false)

include hrec

lemma write_of_not_pairs (hpairs : r.pairs = false) :
    w.write r = { w with file := w.file ++ r.frame, index := w.index.apply r } := by
  cases r with
  | begin | versionID => cases hpairs
  | cursor kbID v =>
    have hbelow : w.index.cursor kbID < v := by
      rw [← Int64.not_le]
      exact of_decide_eq_false hrec
    rw [Index.apply, if_pos hbelow]
    exact if_neg (Bool.eq_false_iff.mp hrec)
  | _ => exact if_neg (Bool.eq_false_iff.mp hrec)

lemma write_file : (w.write r).file = w.file ++ r.frame := by
  cases hpairs : r.pairs with
  | false => rw [write_of_not_pairs hrec hpairs]
  | true =>
  cases r with
  | begin bd =>
    cases hwaits : w.pendingVersionIDByKB bd.kbID with
    | none => rw [write_begin_of_none hwaits]
    | some v => rw [write_begin_of_some hwaits]
  | versionID kbID v =>
    cases hwaits : w.pendingBeginByKB kbID with
    | none => rw [write_versionID_of_none hrec hwaits]
    | some bd => rw [write_versionID_of_some hrec hwaits]
  | _ => cases hpairs

lemma write_index : (w.write r).index = w.index.apply r := by
  cases hpairs : r.pairs with
  | false => rw [write_of_not_pairs hrec hpairs]
  | true =>
  cases r with
  | begin bd =>
    cases hwaits : w.pendingVersionIDByKB bd.kbID with
    | none =>
      rw [write_begin_of_none hwaits]
      rfl
    | some v =>
      rw [write_begin_of_some hwaits]
      rfl
  | versionID kbID v =>
    cases hwaits : w.pendingBeginByKB kbID with
    | none => rw [write_versionID_of_none hrec hwaits]
    | some bd => rw [write_versionID_of_some hrec hwaits]
  | _ => cases hpairs

end FileWAL

end stratum.wal
