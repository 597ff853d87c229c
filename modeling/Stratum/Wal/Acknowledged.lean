import Stratum.Wal.File

open List

namespace stratum.wal

open Record FileWAL

namespace FileWAL

/-- The records a sequence of `Write*` calls appends; a call whose record the log already
has appends none. -/
def appended (w : FileWAL) : List Record → List Record
  | [] => []
  | r :: calls => (if w.recorded r then [] else [r]) ++ (w.write r).appended calls

def writeAll (w : FileWAL) (calls : List Record) : FileWAL := calls.foldl write w

/-- The records the file of an open log holds. -/
def log (w : FileWAL) : List Record := (scan w.file).records.map RawRecord.record

lemma writeAll_file (w : FileWAL) (calls : List Record) :
    (w.writeAll calls).file = w.file ++ (w.appended calls).flatMap frame := by
  induction calls generalizing w with
  | nil => exact (append_nil _).symm
  | cons r calls ih =>
  refine (ih (w.write r)).trans ?_
  cases hrec : w.recorded r with
  | true => simp only [appended, hrec, if_true, nil_append, write_of_recorded hrec]
  | false =>
    simp only [appended, hrec, Bool.false_eq_true, if_false, singleton_append,
      flatMap_cons, write_file hrec, append_assoc]

end FileWAL

lemma newFileWAL_frames {log : List Record} (hsane : ∀ r ∈ log, r.Sane) :
    newFileWAL (log.flatMap frame) =
      .ok { file := log.flatMap frame
            index := (rebuild log).index
            beginDataByVersion := (rebuild log).beginDataByVersion } := by
  have hrecords : (log.map raw).map RawRecord.record = log := by
    rw [map_map]
    exact map_id log
  rw [newFileWAL, readLog_frames hsane]
  simp only [Except.map, hrecords, take_length]

lemma log_of_frames {w : FileWAL} {log : List Record} (hsane : ∀ r ∈ log, r.Sane)
    (hfile : w.file = log.flatMap frame) : w.log = log := by
  have hscan : scan (log.flatMap frame) = _ :=
    scanFrom_frames hsane (Nat.lt_succ_of_le (length_le_flatMap_frame log))
  rw [FileWAL.log, hfile, hscan, map_map]
  exact map_id log

lemma FileWAL.sane_of_mem_log {w : FileWAL} {r : Record} (hmem : r ∈ w.log) : r.Sane := by
  obtain ⟨raw, hraw, rfl⟩ := mem_map.mp hmem
  exact sane_of_mem_scanFrom hraw

/-- Every acknowledged record is found again by the next process: the file opens, and the
reopened log holds each record the calls appended. -/
def Recoverable (calls : List Record) : Prop :=
  ∃ w, newFileWAL (({} : FileWAL).writeAll calls).file = .ok w ∧
    ∀ r ∈ ({} : FileWAL).appended calls, r ∈ w.log

/-- A writer frames a payload of any length and a reader refuses the ones above
`maxSanePayload`, so exactly the sequences that append no such record are recoverable. -/
theorem recoverable_iff (calls : List Record) :
    Recoverable calls ↔
      ∀ r ∈ ({} : FileWAL).appended calls, r.payload.length ≤ maxSanePayload := by
  have hfile := writeAll_file {} calls
  constructor
  · rintro ⟨w, -, hpresent⟩ r hr
    exact sane_of_mem_log (hpresent r hr)
  · intro hsane
    refine ⟨_, by rw [hfile]; exact newFileWAL_frames hsane, fun r hr => ?_⟩
    rw [log_of_frames hsane rfl]
    exact hr

def addDocument (content : Bytes) : Record :=
  .begin { kbID := [107], changes := [{ op := 0, docID := [100], content }] }

lemma length_addDocument_payload (content : Bytes) :
    (addDocument content).payload.length = content.length + 27 := by
  simp [addDocument, payload, length_encodeBeginPayload, encodeChange]
  omega

/-- The acknowledged BEGIN of a version that adds a document of 64 MiB does not survive a
restart. -/
theorem large_document_lost :
    ¬ Recoverable [addDocument (replicate maxSanePayload 0)] := by
  generalize hcontent : replicate maxSanePayload (0 : UInt8) = content
  have hlen : content.length = maxSanePayload := by
    rw [← hcontent, length_replicate]
  rintro ⟨w, -, hpresent⟩
  have hsane : (addDocument content).Sane :=
    sane_of_mem_log (hpresent (addDocument content) mem_cons_self)
  rw [Record.Sane, length_addDocument_payload] at hsane
  omega

end stratum.wal
