import Stratum.Wal.Waiting

open stratum.lib Function

namespace stratum.wal

open FileWAL Option

/-- Two logs a caller cannot tell apart by recovery, backfill and cursor requests. -/
structure SameAnswers (w w' : FileWAL) : Prop where
  recover : ∀ rec, w.recover rec = w'.recover rec
  changes : ∀ kbID fromExclusive toInclusive v,
    w.changesInRange kbID fromExclusive toInclusive v =
      w'.changesInRange kbID fromExclusive toInclusive v
  cursors : w.recoverCursors = w'.recoverCursors

/-- Closing the log now and opening it again changes no answer. -/
def ReopensSame (w : FileWAL) : Prop := ∃ w', newFileWAL w.file = .ok w' ∧ SameAnswers w w'

/-- A record is written in step when what waits for it in memory is what waits for it in the
file. -/
def InStep (w : FileWAL) : Record → Prop
  | .begin bd => w.pendingVersionIDByKB bd.kbID = (waiting w.log).version
  | .versionID kbID v =>
    w.index.versionIDsWritten v = true ∨ w.pendingBeginByKB kbID = (waiting w.log).begin kbID
  | _ => True

instance (w : FileWAL) (r : Record) : Decidable (InStep w r) := by
  cases r <;> unfold InStep <;> infer_instance

def Action.InStep (w : FileWAL) : Action → Prop
  | .write r => wal.InStep w r
  | .reopen => True

instance (w : FileWAL) (a : Action) : Decidable (a.InStep w) := by
  cases a <;> unfold Action.InStep <;> infer_instance

/-- A call a reader can take back: its payload is no longer than a reader accepts, and a
version id is one the replicated counter can have handed out. -/
def Action.Readable : Action → Prop
  | .write (.versionID kbID v) => (Record.versionID kbID v).Sane ∧ 0 < v
  | .write r => r.Sane
  | .reopen => True

instance (a : Action) : Decidable a.Readable := by
  unfold Action.Readable
  split <;> infer_instance

variable {r : Record} {v : Int64} {log : List Record} {w : FileWAL} {bd : BeginData}

lemma Action.Readable.sane (hreadable : (Action.write r).Readable) : r.Sane := by
  cases r with
  | versionID kbID v => exact hreadable.1
  | _ => exact hreadable

/-! ### Every version is bound once -/

/-- Only written versions are bound or wait, and none that waits is bound. -/
structure Once (written : Int64 → Bool) (bound : Int64 → Option BeginData)
    (waits : Int64 → Prop) : Prop where
  bound_written : ∀ v, bound v ≠ none → written v = true
  waits_written : ∀ v, waits v → written v = true
  waits_free : ∀ v, waits v → bound v = none

namespace Once

variable {written : Int64 → Bool} {bound : Int64 → Option BeginData} {waits waits' : Int64 → Prop}
  (h : Once written bound waits)

include h

lemma mono (hsub : ∀ v, waits' v → waits v) : Once written bound waits' where
  bound_written := h.bound_written
  waits_written v hv := h.waits_written v (hsub v hv)
  waits_free v hv := h.waits_free v (hsub v hv)

lemma free (hnew : written v = false) : bound v = none := by
  by_contra hbound
  rw [h.bound_written v hbound] at hnew
  cases hnew

lemma bind (hv : waits v) (bd : BeginData) (hsub : ∀ u, waits' u → waits u ∧ u ≠ v) :
    Once written (update bound v (some bd)) waits' where
  bound_written u hu := by
    by_cases huv : u = v
    · rw [huv]
      exact h.waits_written v hv
    · rw [update_of_ne huv] at hu
      exact h.bound_written u hu
  waits_written u hu := h.waits_written u (hsub u hu).1
  waits_free u hu := by
    rw [update_of_ne (hsub u hu).2]
    exact h.waits_free u (hsub u hu).1

lemma bindNew (hnew : written v = false) (input : Option BeginData)
    (hsub : ∀ u, waits' u → waits u ∨ u = v ∧ input = none) :
    Once (update written v true) (bindTo bound (some v) input) waits' where
  bound_written u hu := by
    by_cases huv : u = v
    · rw [huv, update_self]
    rw [update_of_ne huv]
    obtain ⟨bd, hbd⟩ := ne_none_iff_exists'.mp hu
    rcases bindTo_eq_some hbd with hold | ⟨hsame, -⟩
    · exact h.bound_written u (by rw [hold]; exact some_ne_none bd)
    · exact absurd (some.inj hsame).symm huv
  waits_written u hu := by
    by_cases huv : u = v
    · rw [huv, update_self]
    rw [update_of_ne huv]
    rcases hsub u hu with hold | ⟨hsame, -⟩
    · exact h.waits_written u hold
    · exact absurd hsame huv
  waits_free u hu := by
    cases hbind : bindTo bound (some v) input u with
    | none => rfl
    | some bd =>
    rcases bindTo_eq_some hbind with hold | ⟨hsame, hinput⟩
    · rcases hsub u hu with hwaits | ⟨rfl, -⟩
      · rw [h.waits_free u hwaits] at hold
        cases hold
      · rw [h.free hnew] at hold
        cases hold
    rcases hsub u hu with hwaits | ⟨-, hnone⟩
    · have hwritten := h.waits_written u hwaits
      rw [← some.inj hsame, hnew] at hwritten
      cases hwritten
    · rw [hnone] at hinput
      cases hinput

end Once

/-- A log behind readable writes and restarts. -/
structure Session (w : FileWAL) (log : List Record) : Prop extends Stored w log where
  positive : ∀ v, w.index.versionIDsWritten v = true → 0 < v
  memory : Once w.index.versionIDsWritten w.beginDataByVersion
    fun v => ∃ kbID, w.pendingVersionIDByKB kbID = some v
  apart : ∀ kbID kbID' v, w.pendingVersionIDByKB kbID = some v →
    w.pendingVersionIDByKB kbID' = some v → kbID = kbID'
  disk : Once w.index.versionIDsWritten (boundBy log) fun v => (waiting log).version = some v

lemma Session.empty : Session {} [] where
  toStored := Stored.empty
  positive _ hv := nomatch hv
  memory :=
    { bound_written := fun _ hv => absurd rfl hv
      waits_written := fun _ ⟨_, hv⟩ => nomatch hv
      waits_free := fun _ _ => rfl }
  apart _ _ _ hv := nomatch hv
  disk :=
    { bound_written := fun _ hv => absurd rfl hv
      waits_written := nofun
      waits_free := fun _ _ => rfl }

lemma Session.reopened (h : Session w log) : Session (reopened log) log where
  toStored := h.toStored.reopened
  positive := by
    rw [show (wal.reopened log).index = w.index from h.index.symm]
    exact h.positive
  memory := by
    rw [show (wal.reopened log).index = w.index from h.index.symm]
    exact h.disk.mono fun v ⟨_, hv⟩ => nomatch hv
  apart _ _ _ hv := nomatch hv
  disk := by
    rw [show (wal.reopened log).index = w.index from h.index.symm]
    exact h.disk

lemma Index.apply_versionIDsWritten (ix : Index) (hpairs : r.pairs = false) :
    (ix.apply r).versionIDsWritten = ix.versionIDsWritten := by
  cases r with
  | begin | versionID => cases hpairs
  | cursor kbID v =>
    rw [Index.apply]
    split <;> rfl
  | _ => rfl

lemma waiting_of_not_pairs (log : List Record) (hpairs : r.pairs = false) :
    waiting (log ++ [r]) = waiting log := by
  rw [waiting_snoc]
  cases r with
  | begin | versionID => cases hpairs
  | _ => rfl

lemma Session.write_begin (h : Session w log)
    (hstored : Stored (w.write (.begin bd)) (log ++ [Record.begin bd])) :
    Session (w.write (.begin bd)) (log ++ [Record.begin bd]) := by
  have hindex : (w.write (.begin bd)).index = w.index := write_index rfl
  have hdisk : Once w.index.versionIDsWritten (boundBy (log ++ [Record.begin bd]))
      fun v => (waiting (log ++ [Record.begin bd])).version = some v := by
    rw [boundBy_begin, waiting_snoc, Waiting.next]
    cases hwaits : (waiting log).version with
    | none =>
      refine h.disk.mono fun v hv => ?_
      cases hv
    | some u => exact h.disk.bind hwaits bd fun v hv => by simp at hv
  cases hwaits : w.pendingVersionIDByKB bd.kbID with
  | none =>
    have heq := write_begin_of_none hwaits
    refine ⟨hstored, by rw [hindex]; exact h.positive, ?_, ?_, by rw [hindex]; exact hdisk⟩
    · rw [heq]
      exact h.memory
    · rw [heq]
      exact h.apart
  | some u =>
    have heq := write_begin_of_some hwaits
    -- Only `bd.kbID` loses its waiting version, and no other knowledge base waits for it.
    have hother (kbID : Bytes) (v : Int64)
        (hv : update w.pendingVersionIDByKB bd.kbID none kbID = some v) :
        kbID ≠ bd.kbID ∧ w.pendingVersionIDByKB kbID = some v := by
      by_cases hkb : kbID = bd.kbID
      · rw [hkb, update_self] at hv
        cases hv
      · rw [update_of_ne hkb] at hv
        exact ⟨hkb, hv⟩
    refine ⟨hstored, by rw [hindex]; exact h.positive, ?_, ?_, by rw [hindex]; exact hdisk⟩
    · rw [heq]
      refine h.memory.bind ⟨bd.kbID, hwaits⟩ bd ?_
      rintro v ⟨kbID, hv⟩
      obtain ⟨hkb, hold⟩ := hother kbID v hv
      refine ⟨⟨kbID, hold⟩, fun hvu => hkb ?_⟩
      exact h.apart kbID bd.kbID u (hvu ▸ hold) hwaits
    · rw [heq]
      intro kbID kbID' v hv hv'
      exact h.apart kbID kbID' v (hother kbID v hv).2 (hother kbID' v hv').2

variable {kbID : Bytes}

lemma Session.write_versionID (h : Session w log) (hpos : 0 < v)
    (hnew : w.index.versionIDsWritten v = false)
    (hstored : Stored (w.write (.versionID kbID v)) (log ++ [Record.versionID kbID v])) :
    Session (w.write (.versionID kbID v)) (log ++ [Record.versionID kbID v]) := by
  have hrec : w.recorded (.versionID kbID v) = false := hnew
  have hwritten : (w.write (.versionID kbID v)).index.versionIDsWritten =
      update w.index.versionIDsWritten v true :=
    congrArg Index.versionIDsWritten (write_index hrec)
  have hpositive (u : Int64) (hu : update w.index.versionIDsWritten v true u = true) :
      0 < u := by
    by_cases huv : u = v
    · rw [huv]
      exact hpos
    · rw [update_of_ne huv] at hu
      exact h.positive u hu
  have hdisk : Once (update w.index.versionIDsWritten v true)
      (boundBy (log ++ [Record.versionID kbID v]))
      fun u => (waiting (log ++ [Record.versionID kbID v])).version = some u := by
    rw [boundBy_versionID, waiting_snoc]
    refine h.disk.bindNew hnew _ fun u hu => ?_
    rw [Waiting.next] at hu
    cases htake : takePendingBegin (waiting log).begins kbID with
    | some taken =>
      rw [htake] at hu
      exact .inl hu
    | none =>
    simp only [htake] at hu
    split at hu
    · cases hu
    · exact .inr ⟨(some.inj hu).symm, by rw [Waiting.begin, htake]; rfl⟩
  cases hwaits : w.pendingBeginByKB kbID with
  | some bd =>
    have heq := write_versionID_of_some hnew hwaits
    refine ⟨hstored, by rw [hwritten]; exact hpositive, ?_, ?_, by rw [hwritten]; exact hdisk⟩
    · rw [write_versionID_bound kbID hnew, heq]
      exact h.memory.bindNew hnew _ fun u hu => .inl hu
    · rw [heq]
      exact h.apart
  | none =>
    have heq := write_versionID_of_none hnew hwaits
    have hcases (kbID' : Bytes) (u : Int64)
        (hu : update w.pendingVersionIDByKB kbID (some v) kbID' = some u) :
        kbID' = kbID ∧ u = v ∨ kbID' ≠ kbID ∧ w.pendingVersionIDByKB kbID' = some u := by
      by_cases hkb : kbID' = kbID
      · rw [hkb, update_self] at hu
        exact .inl ⟨hkb, (some.inj hu).symm⟩
      · rw [update_of_ne hkb] at hu
        exact .inr ⟨hkb, hu⟩
    have hfresh (kbID' : Bytes) : w.pendingVersionIDByKB kbID' ≠ some v := by
      intro hold
      rw [h.memory.waits_written v ⟨kbID', hold⟩] at hnew
      cases hnew
    refine ⟨hstored, by rw [hwritten]; exact hpositive, ?_, ?_, by rw [hwritten]; exact hdisk⟩
    · rw [write_versionID_bound kbID hnew, heq]
      refine h.memory.bindNew hnew _ ?_
      rintro u ⟨kbID', hu⟩
      rcases hcases kbID' u hu with ⟨-, huv⟩ | ⟨-, hold⟩
      · exact .inr ⟨huv, hwaits⟩
      · exact .inl ⟨kbID', hold⟩
    rw [heq]
    intro kb kb' u hu hu'
    rcases hcases kb u hu with ⟨hkb, huv⟩ | ⟨-, hold⟩ <;>
      rcases hcases kb' u hu' with ⟨hkb', huv'⟩ | ⟨-, hold'⟩
    · rw [hkb, hkb']
    · exact absurd (huv ▸ hold') (hfresh kb')
    · exact absurd (huv' ▸ hold) (hfresh kb)
    · exact h.apart kb kb' u hold hold'

lemma Session.write (h : Session w log) (hreadable : (Action.write r).Readable) :
    Session (w.write r) (w.logAfter log r) := by
  have hstored := h.toStored.write hreadable.sane
  cases hrec : w.recorded r with
  | true =>
    rw [write_of_recorded hrec, logAfter, if_pos hrec]
    exact h
  | false =>
  rw [logAfter, if_neg (Bool.eq_false_iff.mp hrec)] at hstored ⊢
  cases hpairs : r.pairs with
  | false =>
    have heq := write_of_not_pairs hrec hpairs
    have hwritten := Index.apply_versionIDsWritten w.index hpairs
    refine ⟨hstored, ?_, ?_, ?_, ?_⟩ <;> rw [heq] <;> dsimp only
    · rw [hwritten]
      exact h.positive
    · rw [hwritten]
      exact h.memory
    · exact h.apart
    · rw [hwritten, boundBy_of_not_pairs log hpairs, waiting_of_not_pairs log hpairs]
      exact h.disk
  | true =>
    cases r with
    | begin bd => exact h.write_begin hstored
    | versionID kbID v => exact h.write_versionID hreadable.2 hrec hstored
    | _ => cases hpairs

/-! ### Answers -/

variable {w' : FileWAL}

lemma sameAnswers_of_bound (hindex : w.index = w'.index)
    (hbound : w.beginDataByVersion = w'.beginDataByVersion) : SameAnswers w w' where
  recover rec := by rw [recover, versionWrite, hindex, hbound]; rfl
  changes _ _ _ v := by rw [changesInRange, hbound]; rfl
  cursors := by rw [recoverCursors, recoverCursors, hindex]

lemma changesInRange_of_bound (hpos : 0 < v) (hbound : w.beginDataByVersion v = some bd) :
    w.changesInRange bd.kbID 0 v v =
      some { versionID := v, parentVersionID := bd.parentVersionID, changes := bd.changes } := by
  simp [changesInRange, hbound, hpos]

lemma bound_of_changesInRange {f t : Int64} {d : VersionDelta}
    (hchanges : w.changesInRange kbID f t v = some d) : w.beginDataByVersion v =
      some { kbID, parentVersionID := d.parentVersionID, changes := d.changes } := by
  unfold changesInRange at hchanges
  split at hchanges
  · next bd hbd =>
    obtain ⟨hrange, ⟨⟩⟩ := ite_none_right_eq_some.mp hchanges
    rw [hbd, ← hrange.2.2]
  · cases hchanges

lemma bound_eq_of_sameAnswers (hsame : SameAnswers w w') (hpos : 0 < v)
    (hbound : w.beginDataByVersion v = some bd) : w'.beginDataByVersion v = some bd := by
  have hchanges := changesInRange_of_bound hpos hbound
  rw [hsame.changes] at hchanges
  exact bound_of_changesInRange hchanges

lemma Session.reopensSame_iff (h : Session w log) :
    ReopensSame w ↔ w.beginDataByVersion = boundBy log := by
  constructor
  · rintro ⟨w', hopen, hsame⟩
    cases h.newFileWAL.symm.trans hopen
    funext v
    cases hmem : w.beginDataByVersion v with
    | some bd =>
      have hpos := h.positive v (h.memory.bound_written v (by rw [hmem]; exact some_ne_none bd))
      exact (bound_eq_of_sameAnswers hsame hpos hmem).symm
    | none =>
    cases hdisk : boundBy log v with
    | none => rfl
    | some bd =>
    have hpos := h.positive v (h.disk.bound_written v (by rw [hdisk]; exact some_ne_none bd))
    have hsym : SameAnswers (wal.reopened log) w :=
      ⟨fun rec => (hsame.recover rec).symm, fun _ _ _ _ => (hsame.changes ..).symm,
        hsame.cursors.symm⟩
    rw [← hmem]
    exact bound_eq_of_sameAnswers hsym hpos hdisk
  · intro hbound
    exact ⟨_, h.newFileWAL, sameAnswers_of_bound h.index hbound⟩

lemma Session.write_reopensSame_iff (h : Session w log) (hreadable : (Action.write r).Readable)
    (hsame : ReopensSame w) : ReopensSame (w.write r) ↔ InStep w r := by
  have hafter := h.write hreadable
  have hbound := h.reopensSame_iff.mp hsame
  have hlog := h.log
  cases hrec : w.recorded r with
  | true =>
    rw [write_of_recorded hrec]
    refine iff_of_true hsame ?_
    cases r with
    | begin bd => cases hrec
    | versionID kbID v => exact .inl hrec
    | _ => trivial
  | false =>
    rw [hafter.reopensSame_iff, logAfter, if_neg (Bool.eq_false_iff.mp hrec)]
    cases r with
    | begin bd =>
      rw [write_begin_bound, boundBy_begin, ← hbound, InStep, hlog]
      refine bindTo_version_inj (fun v hv => h.memory.waits_free v ⟨_, hv⟩) fun v hv => ?_
      rw [hbound]
      exact h.disk.waits_free v hv
    | versionID kbID v =>
      have hnew : w.index.versionIDsWritten v = false := hrec
      rw [write_versionID_bound kbID hnew, boundBy_versionID, ← hbound, InStep, hlog,
        bindTo_input_inj (h.memory.free hnew), hnew]
      simp
    | _ =>
      rw [write_of_not_pairs hrec rfl, boundBy_of_not_pairs log rfl]
      exact iff_of_true hbound trivial

/-- The two pairings of BEGIN and VERSION_ID, the writer's by knowledge base and the reader's
by position, agree in every state of a run of writes and restarts exactly when every record
of the run is written in step. -/
theorem reopensSame_iff_inStep (actions : List Action)
    (hreadable : ∀ a ∈ actions, a.Readable) :
    Always FileWAL.act ReopensSame {} actions ↔
      EachStep FileWAL.act (fun w a => a.InStep w) {} actions := by
  refine always_iff_eachStep (fun w => ∃ log, Session w log) ReopensSame Action.Readable
    ?_ ⟨[], Session.empty⟩ (Session.empty.reopensSame_iff.mpr rfl) hreadable
  rintro w a ⟨log, h⟩ hsame ha
  cases a with
  | write r =>
    exact ⟨w.write r, rfl, ⟨_, h.write ha⟩, h.write_reopensSame_iff ha hsame⟩
  | reopen =>
  refine ⟨wal.reopened log, ?_, ⟨log, h.reopened⟩, ?_⟩
  · rw [act, h.newFileWAL]
    rfl
  · exact iff_of_true (h.reopened.reopensSame_iff.mpr rfl) trivial

/-- A version of knowledge base `a` that this node only applied, and then a write to `b`. -/
def appliedThenWritten : List Record :=
  [.versionID [97] 1, .begin { kbID := [98], parentVersionID := 7 }]

/-- The writer leaves the version of `a` unbound; after a restart it carries the replay input
of the write to `b`, and is handed out as one of `b`'s versions. -/
theorem reopen_crosses_knowledge_bases :
    ∃ w w', w = ({} : FileWAL).writeAll appliedThenWritten ∧ newFileWAL w.file = .ok w' ∧
      w.changesInRange [98] 0 1 1 = none ∧
      w'.changesInRange [98] 0 1 1 =
        some { versionID := 1, parentVersionID := 7, changes := [] } := by
  have hsession := (Session.empty.write (r := .versionID [97] 1) ⟨by decide, by decide⟩).write
    (r := .begin { kbID := [98], parentVersionID := 7 }) (show Record.Sane _ by decide)
  exact ⟨_, _, rfl, hsession.newFileWAL, by decide, by decide⟩

/-- Both orders of BEGIN and VERSION_ID, in two knowledge bases and across a restart. -/
def bothOrders : List Action :=
  [.write (.begin { kbID := [97] }), .write (.versionID [97] 1), .write (.versionID [98] 2),
    .write (.begin { kbID := [98] }), .reopen, .write (.versionID [97] 3),
    .write (.begin { kbID := [97], parentVersionID := 1 })]

theorem bothOrders_reopensSame : Always FileWAL.act ReopensSame {} bothOrders :=
  (reopensSame_iff_inStep bothOrders (by decide)).mpr (by decide +kernel)

end stratum.wal
