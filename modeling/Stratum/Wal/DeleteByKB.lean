import Stratum.Wal.Compact

namespace stratum.wal

open Function List AList

/-! Removing a knowledge base from the log. -/

/-- The `kbID` of a parsed record; a BEGIN has its own inside the replay input. -/
def Record.parsedKBID : Record → Bytes
  | .begin _ | .commit _ => []
  | .versionID kbID _ | .deleteMark kbID | .deleteComplete kbID | .versionDeleteMark kbID _
  | .versionDeleteComplete kbID _ | .cursor kbID _ => kbID

/-- The `versionID` of a parsed record, zero for the types that have none. -/
def Record.parsedVersionID : Record → Int64
  | .begin _ | .deleteMark _ | .deleteComplete _ => 0
  | .versionID _ v | .commit v | .versionDeleteMark _ v | .versionDeleteComplete _ v
  | .cursor _ v => v

namespace FileWAL

/-- The version's replay input belongs to the knowledge base. -/
def owned (w : FileWAL) (kbID : Bytes) (v : Int64) : Bool :=
  (w.beginDataByVersion v).any fun bd => bd.kbID = kbID

def drops (w : FileWAL) (kbID : Bytes) (raw : RawRecord) : Bool :=
  decide (raw.kbID = kbID) || decide (raw.record.parsedKBID = kbID) ||
    decide (raw.record.parsedVersionID ≠ 0) && w.owned kbID raw.record.parsedVersionID

lemma drops_iff {w : FileWAL} {kbID : Bytes} {raw : RawRecord} : w.drops kbID raw = true ↔
    (raw.kbID = kbID ∨ raw.record.parsedKBID = kbID) ∨
      raw.record.parsedVersionID ≠ 0 ∧ w.owned kbID raw.record.parsedVersionID = true := by
  rw [drops, Bool.or_eq_true, Bool.or_eq_true, Bool.and_eq_true, decide_eq_true_iff,
    decide_eq_true_iff, decide_eq_true_iff]

/-- The log `DeleteByKB` swaps in, and the index trimmed to it. -/
def withoutKB (w : FileWAL) (kbID : Bytes) (records : List RawRecord) : FileWAL :=
  { file := (records.filter fun raw => !w.drops kbID raw).flatMap RawRecord.raw
    index :=
      { versionIDsWritten := fun v => w.index.versionIDsWritten v && !w.owned kbID v
        committedVersions := fun v => w.index.committedVersions v && !w.owned kbID v
        deleteMarked := update w.index.deleteMarked kbID false
        deleteCompleted := update w.index.deleteCompleted kbID false
        versionDeleteMarked := fun v =>
          if w.owned kbID v then none
          else (w.index.versionDeleteMarked v).filter fun kb => kb ≠ kbID
        versionDeleteDone := fun v => w.index.versionDeleteDone v && !w.owned kbID v
        cursors := update w.index.cursors kbID none }
    beginDataByVersion := fun v => if w.owned kbID v then none else w.beginDataByVersion v
    pendingBeginByKB := update w.pendingBeginByKB kbID none
    pendingVersionIDByKB := update w.pendingVersionIDByKB kbID none }

def deleteByKB (w : FileWAL) (kbID : Bytes) : Except OpenError FileWAL :=
  (readLog w.file).map fun s => w.withoutKB kbID s.records

end FileWAL

/-! ### What a reader binds in a log without some knowledge bases -/

/-- `thin` is `log` without the pairs of some knowledge bases: what waits for the others is what
waited, and nothing is bound that was not. -/
structure Thinned (kept : Bytes → Prop) (thin log : List Record) : Prop where
  begins : ∀ kbID, kept kbID →
    (waiting thin).begins.lookup kbID = (waiting log).begins.lookup kbID
  version : (waiting log).version = none → (waiting thin).version = none
  bound : ∀ v bd, boundBy thin v = some bd → boundBy log v = some bd
  versions : ∀ v ∈ wal.versions thin, v ∈ wal.versions log

namespace Thinned

variable {kept : Bytes → Prop} {thin log : List Record} {bd : BeginData} {kbID : Bytes}
  {v : Int64} {r : Record} (h : Thinned kept thin log)

include h

lemma keep_begin (hwaits : (waiting log).version = none) :
    Thinned kept (thin ++ [.begin bd]) (log ++ [.begin bd]) := by
  have hthin := h.version hwaits
  refine ⟨fun kbID hkept => ?_, fun _ => ?_, fun v bd hbound => ?_, fun v hv => ?_⟩
  · rw [waiting_begin_of_none bd hwaits, waiting_begin_of_none bd hthin]
    by_cases hkb : kbID = bd.kbID
    · rw [hkb, lookup_insert, lookup_insert]
    · rw [lookup_insert_ne hkb, lookup_insert_ne hkb, h.begins kbID hkept]
  · rw [waiting_begin_of_none bd hthin]
    exact hthin
  · rw [boundBy_begin, hthin] at hbound
    rw [boundBy_begin, hwaits]
    exact h.bound v bd hbound
  · rw [versions_append, mem_append] at hv ⊢
    exact hv.imp_left (h.versions v)

lemma drop_begin (hwaits : (waiting log).version = none) (hdropped : ¬ kept bd.kbID) :
    Thinned kept thin (log ++ [.begin bd]) := by
  refine ⟨fun kbID hkept => ?_, fun _ => h.version hwaits, fun v bd hbound => ?_, fun v hv => ?_⟩
  · have hkb : kbID ≠ bd.kbID := by
      rintro rfl
      exact hdropped hkept
    rw [waiting_begin_of_none bd hwaits, lookup_insert_ne hkb, h.begins kbID hkept]
  · rw [boundBy_begin, hwaits]
    exact h.bound v bd hbound
  · rw [versions_append]
    exact mem_append_left _ (h.versions v hv)

lemma keep_versionID (hkb : kbID ≠ []) (hv : v ≠ 0) (hkept : kept kbID) :
    Thinned kept (thin ++ [.versionID kbID v]) (log ++ [.versionID kbID v]) := by
  have hsame := h.begins kbID hkept
  have hversions (u : Int64) (hu : u ∈ wal.versions (thin ++ [.versionID kbID v])) :
      u ∈ wal.versions (log ++ [.versionID kbID v]) := by
    rw [versions_append, mem_append] at hu ⊢
    exact hu.imp_left (h.versions u)
  cases hbegin : (waiting log).begins.lookup kbID with
  | none =>
    rw [hbegin] at hsame
    have hlog := waiting_versionID_of_none hkb hv hbegin
    have hthin := waiting_versionID_of_none hkb hv hsame
    refine ⟨fun kb hkb' => ?_, fun hnone => ?_, fun u bd hbound => ?_, hversions⟩
    · rw [hlog, hthin]
      exact h.begins kb hkb'
    · rw [hlog] at hnone
      cases hnone
    · rw [boundBy_unpaired hkb hsame] at hbound
      rw [boundBy_unpaired hkb hbegin]
      exact h.bound u bd hbound
  | some bd' =>
    rw [hbegin] at hsame
    have hlog := waiting_versionID_of_some v hkb hbegin
    have hthin := waiting_versionID_of_some v hkb hsame
    refine ⟨fun kb hkb' => ?_, fun hnone => ?_, fun u bd hbound => ?_, hversions⟩
    · rw [hlog, hthin]
      by_cases hk : kb = kbID
      · rw [hk, lookup_erase, lookup_erase]
      · rw [lookup_erase_ne hk, lookup_erase_ne hk, h.begins kb hkb']
    · rw [hlog] at hnone
      rw [hthin]
      exact h.version hnone
    · rw [boundBy_paired hkb hsame] at hbound
      rw [boundBy_paired hkb hbegin]
      by_cases huv : u = v
      · rw [huv, update_self] at hbound ⊢
        exact hbound
      · rw [update_of_ne huv] at hbound ⊢
        exact h.bound u bd hbound

lemma drop_versionID (hkb : kbID ≠ []) (hv : v ≠ 0) (hnew : v ∉ wal.versions log)
    (hdropped : ¬ kept kbID) : Thinned kept thin (log ++ [.versionID kbID v]) := by
  have hversions (u : Int64) (hu : u ∈ wal.versions thin) :
      u ∈ wal.versions (log ++ [.versionID kbID v]) := by
    rw [versions_append]
    exact mem_append_left _ (h.versions u hu)
  cases hbegin : (waiting log).begins.lookup kbID with
  | none =>
    have hlog := waiting_versionID_of_none hkb hv hbegin
    refine ⟨fun kb hkb' => ?_, fun hnone => ?_, fun u bd hbound => ?_, hversions⟩
    · rw [hlog]
      exact h.begins kb hkb'
    · rw [hlog] at hnone
      cases hnone
    · rw [boundBy_unpaired hkb hbegin]
      exact h.bound u bd hbound
  | some bd' =>
    have hlog := waiting_versionID_of_some v hkb hbegin
    refine ⟨fun kb hkb' => ?_, fun hnone => ?_, fun u bd hbound => ?_, hversions⟩
    · have hk : kb ≠ kbID := by
        rintro rfl
        exact hdropped hkb'
      rw [hlog, lookup_erase_ne hk, h.begins kb hkb']
    · rw [hlog] at hnone
      exact h.version hnone
    · -- the thinned log has no VERSION_ID of `v`, so it cannot bind it
      have huv : u ≠ v := by
        rintro rfl
        exact hnew (h.versions u (mem_versions_of_bound (.inl (by simp [hbound]))))
      rw [boundBy_paired hkb hbegin, update_of_ne huv]
      exact h.bound u bd hbound

lemma other (hpairs : r.pairs = false) : Thinned kept thin (log ++ [r]) ∧
    Thinned kept (thin ++ [r]) (log ++ [r]) := by
  have hversions : wal.versions [r] = [] := by
    cases r with
    | begin | versionID => cases hpairs
    | _ => rfl
  constructor <;>
    constructor <;>
    simp only [waiting_of_not_pairs _ hpairs, boundBy_of_not_pairs _ hpairs, versions_append,
      hversions, append_nil]
  all_goals first
    | exact h.begins
    | exact h.version
    | exact h.bound
    | exact h.versions

end Thinned

/-- Where BEGIN records come first, a log may lose all pairs of a knowledge base: the reader binds
no version to another BEGIN. -/
lemma BeginFirst.thinned {kept : Bytes → Prop} {keep : Record → Bool} {log : List Record}
    (hlog : BeginFirst log) (hbegin : ∀ bd, keep (.begin bd) = true ↔ kept bd.kbID)
    (hversion : ∀ kbID v, .versionID kbID v ∈ log →
      (keep (.versionID kbID v) = true ↔ kept kbID)) :
    Thinned kept (log.filter keep) log := by
  induction hlog with
  | nil => exact ⟨fun _ _ => rfl, fun h => h, fun _ _ h => h, fun _ h => h⟩
  | @begin log bd _ hwaits ih =>
    have ih := ih fun kbID v hmem => hversion kbID v (mem_append_left _ hmem)
    rw [filter_append, filter_cons, filter_nil]
    split
    · exact ih.keep_begin hwaits
    · next hdrop =>
      rw [append_nil]
      exact ih.drop_begin hwaits fun hkept => hdrop ((hbegin bd).mpr hkept)
  | @versionID log kbID v _ hkb hv hnew _ ih =>
    have ih := ih fun kbID v hmem => hversion kbID v (mem_append_left _ hmem)
    have hiff := hversion kbID v (mem_append_right _ mem_cons_self)
    rw [filter_append, filter_cons, filter_nil]
    split
    · next hkeep => exact ih.keep_versionID hkb hv (hiff.mp hkeep)
    · next hdrop =>
      rw [append_nil]
      exact ih.drop_versionID hkb hv hnew fun hkept => hdrop (hiff.mpr hkept)
  | @other log r _ hpairs ih =>
    have ih := ih fun kbID v hmem => hversion kbID v (mem_append_left _ hmem)
    rw [filter_append, filter_cons, filter_nil]
    split
    · exact (ih.other hpairs).2
    · rw [append_nil]
      exact (ih.other hpairs).1

end stratum.wal
