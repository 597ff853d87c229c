import Stratum.Lib.Reach
import Stratum.Wal.Acknowledged

open Function List

namespace stratum.wal

open FileWAL

/-! The sessions of one log: writes and restarts, over the records its file holds. -/

/-- The records of a log that have not met their counterpart: one BEGIN for each knowledge
base, and the last VERSION_ID that found none of its own. A version number of zero does not
wait. -/
structure Waiting where
  begins : ByKB BeginData := ∅
  version : Option Int64 := none

def Waiting.next (s : Waiting) : Record → Waiting
  | .begin bd =>
    if s.version.isSome then { s with version := none }
    else { s with begins := s.begins.insert bd.kbID bd }
  | .versionID kbID v =>
    match takePendingBegin s.begins kbID with
    | some (_, begins) => { s with begins }
    | none => { s with version := if v = 0 then none else some v }
  | _ => s

/-- The BEGIN that a VERSION_ID of `kbID` is paired with. -/
def Waiting.begin (s : Waiting) (kbID : Bytes) : Option BeginData :=
  (takePendingBegin s.begins kbID).map Prod.fst

def waiting (log : List Record) : Waiting := log.foldl Waiting.next {}

/-- The replay input a reader of the log binds to each version. -/
def boundBy (log : List Record) : Int64 → Option BeginData := (rebuild log).beginDataByVersion

lemma waiting_snoc (log : List Record) (r : Record) :
    waiting (log ++ [r]) = (waiting log).next r := by
  simp [waiting]

lemma rebuild_snoc (log : List Record) (r : Record) :
    rebuild (log ++ [r]) = (rebuild log).step r := by
  simp [rebuild]

/-- The loop variables of `rebuildIndex` say what waits in the log. -/
structure Rebuild.Shows (s : Rebuild) (waits : Waiting) : Prop where
  begins : s.pendingBegin = waits.begins
  version : waits.version = if s.pendingVersionID = 0 then none else some s.pendingVersionID

lemma Rebuild.Shows.step {s : Rebuild} {waits : Waiting} (hshows : s.Shows waits)
    (r : Record) : (s.step r).Shows (waits.next r) := by
  obtain ⟨hbegins, hversion⟩ := hshows
  cases r with
  | begin bd =>
    by_cases hzero : s.pendingVersionID = 0
    · have hnone : waits.version = none := by rw [hversion, if_pos hzero]
      constructor <;> simp [Rebuild.step, Rebuild.pair, Waiting.next, hzero, hnone, hbegins]
    · have hsome : waits.version = some s.pendingVersionID := by rw [hversion, if_neg hzero]
      constructor <;> simp [Rebuild.step, Rebuild.pair, Waiting.next, hzero, hsome, hbegins]
  | versionID kbID v =>
    cases htake : takePendingBegin waits.begins kbID with
    | none => constructor <;> simp [Rebuild.step, Rebuild.pair, Waiting.next, hbegins, htake]
    | some taken =>
      constructor <;> simp [Rebuild.step, Rebuild.pair, Waiting.next, hbegins, htake, hversion]
  | _ => exact ⟨hbegins, hversion⟩

lemma rebuild_shows (log : List Record) : (rebuild log).Shows (waiting log) := by
  induction log using reverseRecOn with
  | nil => exact ⟨rfl, rfl⟩
  | append_singleton log r ih =>
    rw [rebuild_snoc, waiting_snoc]
    exact ih.step r

/-- The bindings behind a record that found `version` and `input` for each other. -/
def bindTo (bound : Int64 → Option BeginData) (version : Option Int64) (input : Option BeginData) :
    Int64 → Option BeginData :=
  match version, input with
  | some v, some bd => update bound v (some bd)
  | _, _ => bound

variable {bound : Int64 → Option BeginData} {input : Option BeginData} {v : Int64}
  {version : Option Int64} {w : FileWAL}

lemma bindTo_eq_some {bd : BeginData} (hbound : bindTo bound version input v = some bd) :
    bound v = some bd ∨ version = some v ∧ input = some bd := by
  unfold bindTo at hbound
  split at hbound
  · next u bd' =>
    by_cases hv : v = u
    · rw [hv, update_self] at hbound
      exact .inr ⟨by rw [hv], hbound⟩
    · rw [update_of_ne hv] at hbound
      exact .inl hbound
  · exact .inl hbound

/-- Versions that are still unbound show which of them a BEGIN was bound to. -/
lemma bindTo_version_inj {version' : Option Int64} {bd : BeginData}
    (hfree : ∀ v, version = some v → bound v = none)
    (hfree' : ∀ v, version' = some v → bound v = none) :
    bindTo bound version (some bd) = bindTo bound version' (some bd) ↔ version = version' := by
  refine ⟨fun heq => ?_, fun heq => by rw [heq]⟩
  have hat (v : Int64) := congrFun heq v
  cases version with
  | none =>
    cases version' with
    | none => rfl
    | some v =>
      have hv := hat v
      simp [bindTo, hfree' v rfl] at hv
  | some v =>
    have hv := hat v
    cases version' with
    | none => simp [bindTo, hfree v rfl] at hv
    | some u =>
      by_cases huv : v = u
      · rw [huv]
      · simp [bindTo, update_of_ne huv, hfree v rfl] at hv

lemma bindTo_input_inj {input' : Option BeginData} (hfree : bound v = none) :
    bindTo bound (some v) input = bindTo bound (some v) input' ↔ input = input' := by
  have hat (input : Option BeginData) : bindTo bound (some v) input v = input := by
    cases input with
    | none => exact hfree
    | some bd => exact update_self ..
  refine ⟨fun heq => ?_, fun heq => by rw [heq]⟩
  rw [← hat input, heq, hat input']

lemma boundBy_begin (log : List Record) (bd : BeginData) :
    boundBy (log ++ [Record.begin bd]) = bindTo (boundBy log) (waiting log).version (some bd) := by
  have hversion := (rebuild_shows log).version
  rw [boundBy, rebuild_snoc]
  by_cases hzero : (rebuild log).pendingVersionID = 0
  all_goals simp [Rebuild.step, Rebuild.pair, hzero, hversion, boundBy, bindTo]

lemma boundBy_versionID (log : List Record) (kbID : Bytes) (v : Int64) :
    boundBy (log ++ [Record.versionID kbID v]) =
      bindTo (boundBy log) (some v) ((waiting log).begin kbID) := by
  have hbegins := (rebuild_shows log).begins
  rw [boundBy, rebuild_snoc]
  cases htake : takePendingBegin (waiting log).begins kbID with
  | none | some => simp [Rebuild.step, Rebuild.pair, hbegins, htake, Waiting.begin, boundBy, bindTo]

lemma boundBy_of_not_pairs (log : List Record) {r : Record} (hpairs : r.pairs = false) :
    boundBy (log ++ [r]) = boundBy log := by
  rw [boundBy, rebuild_snoc]
  cases r with
  | begin | versionID => cases hpairs
  | _ => rfl

lemma FileWAL.write_begin_bound (w : FileWAL) (bd : BeginData) :
    (w.write (.begin bd)).beginDataByVersion =
      bindTo w.beginDataByVersion (w.pendingVersionIDByKB bd.kbID) (some bd) := by
  cases hwaits : w.pendingVersionIDByKB bd.kbID with
  | none =>
    rw [write_begin_of_none hwaits]
    rfl
  | some v =>
    rw [write_begin_of_some hwaits]
    rfl

lemma FileWAL.write_versionID_bound (kbID : Bytes) (hnew : w.index.versionIDsWritten v = false) :
    (w.write (.versionID kbID v)).beginDataByVersion =
      bindTo w.beginDataByVersion (some v) (w.pendingBeginByKB kbID) := by
  cases hwaits : w.pendingBeginByKB kbID with
  | none =>
    rw [write_versionID_of_none hnew hwaits]
    rfl
  | some bd =>
    rw [write_versionID_of_some hnew hwaits]
    rfl

/-! ### Sessions -/

inductive Action
  | write (call : Record)
  | reopen
deriving DecidableEq

/-- A restart is possible only if the file opens. -/
def FileWAL.act (w : FileWAL) : Action → Option FileWAL
  | .write call => some (w.write call)
  | .reopen => (newFileWAL w.file).toOption

/-- The file is the frames of `log`, and the index is what a reader of them builds. -/
structure Stored (w : FileWAL) (log : List Record) : Prop where
  file : w.file = log.flatMap Record.frame
  sane : ∀ r ∈ log, r.Sane
  index : w.index = (rebuild log).index

def FileWAL.logAfter (w : FileWAL) (log : List Record) (r : Record) : List Record :=
  if w.recorded r then log else log ++ [r]

lemma Stored.empty : Stored {} [] where
  file := rfl
  sane _ hr := nomatch hr
  index := rfl

lemma Stored.write {log : List Record} {r : Record} (hstored : Stored w log) (hsane : r.Sane) :
    Stored (w.write r) (w.logAfter log r) := by
  cases hrec : w.recorded r with
  | true =>
    rw [write_of_recorded hrec, logAfter, if_pos hrec]
    exact hstored
  | false =>
  rw [logAfter, if_neg (Bool.eq_false_iff.mp hrec)]
  constructor
  · rw [write_file hrec, hstored.file, flatMap_append, flatMap_singleton]
  · intro r' hr'
    rcases mem_append.mp hr' with hold | hnew
    · exact hstored.sane r' hold
    · rw [mem_singleton.mp hnew]
      exact hsane
  · rw [write_index hrec, hstored.index, rebuild_snoc]
    rfl

def reopened (log : List Record) : FileWAL where
  file := log.flatMap Record.frame
  index := (rebuild log).index
  beginDataByVersion := boundBy log

lemma Stored.newFileWAL {log : List Record} (hstored : Stored w log) :
    newFileWAL w.file = .ok (reopened log) := by
  rw [hstored.file]
  exact newFileWAL_frames hstored.sane

lemma Stored.reopened {log : List Record} (hstored : Stored w log) :
    Stored (reopened log) log := ⟨rfl, hstored.sane, rfl⟩

lemma Stored.log {w : FileWAL} {log : List Record} (hstored : Stored w log) : w.log = log :=
  log_of_frames hstored.sane hstored.file

end stratum.wal
