import Stratum.Wal.DeleteByKB

open stratum.lib List

namespace stratum.wal

open Record FileWAL

/-! The cursor of one knowledge base through writes of every kind, rewrites and restarts. -/

/-- A log, and the highest value `WriteCursor` has acknowledged for the knowledge base. -/
structure CursorLog where
  w : FileWAL := {}
  acked : Option Int64 := none

/-- The calls; `order` is the one in which the map of a compaction yields what waits. -/
inductive CursorCall
  | write (call : Record)
  | compact (keepThrough : Bytes → Option Int64)
      (order : { order : List RawRecord → List RawRecord // ∀ records, (order records).Perm records })
  | deleteByKB (kbID : Bytes)
  | reopen

variable (kb : Bytes)

/-- The highest value acknowledged once a call has returned. -/
def acknowledged (acked : Option Int64) : Record → Option Int64
  | .cursor kbID v => if kbID = kb then max acked (some v) else acked
  | _ => acked

def CursorLog.step (s : CursorLog) : CursorCall → Option CursorLog
  | .write call => some { w := s.w.write call, acked := acknowledged kb s.acked call }
  | .compact keepThrough order =>
    (s.w.compact keepThrough order).toOption.map fun w => { s with w }
  | .deleteByKB kbID => (s.w.deleteByKB kbID).toOption.map fun w => { s with w }
  | .reopen => (newFileWAL s.w.file).toOption.map fun w => { s with w }

/-- Only other knowledge bases are removed. -/
def CursorCall.Elsewhere : CursorCall → Prop
  | .deleteByKB kbID => kbID ≠ kb
  | _ => True

/-- A record is one a reader accepts, a cursor of the knowledge base is a version number, and no
knowledge base is removed that the log has the cursor's version bound to. -/
def CursorLog.Sound (s : CursorLog) : CursorCall → Prop
  | .write call => call.Sane ∧ ∀ v, call = .cursor kb v → 0 < v
  | .deleteByKB kbID => ∀ v ∈ s.acked, s.w.owned kbID v = false
  | _ => True

instance (a : CursorCall) : Decidable (a.Elsewhere kb) := by
  induction a using CursorCall.casesOn <;> dsimp only [CursorCall.Elsewhere] <;> infer_instance

lemma forall_cursor_iff (call : Record) :
    (∀ v, call = .cursor kb v → 0 < v) ↔ call.parsedKBID = kb → call.tag = 0x08 →
      0 < call.parsedVersionID := by
  cases call with
  | cursor kbID v => simp [parsedKBID, parsedVersionID, tag]
  | _ => simp [tag]

instance (s : CursorLog) (a : CursorCall) : Decidable (s.Sound kb a) :=
  match a with
  | .write call => decidable_of_iff
      (call.Sane ∧ (call.parsedKBID = kb → call.tag = 0x08 → 0 < call.parsedVersionID))
      (and_congr_right fun _ => (forall_cursor_iff kb call).symm)
  | .deleteByKB _ => Option.decidableForallMem s.acked
  | .compact .. | .reopen => isTrue trivial

variable {kb} {s : CursorLog} {log : List Record} {kbID : Bytes} {v : Int64} {r : Record}

/-! ### The cursor a reader finds -/

def raised (kb : Bytes) (cursor : Option Int64) : Record → Option Int64
  | .cursor kbID v => if kbID = kb ∧ cursor.getD 0 < v then some v else cursor
  | _ => cursor

lemma Index.cursors_apply (ix : Index) (r : Record) :
    (ix.apply r).cursors kb = raised kb (ix.cursors kb) r := by
  cases r with
  | cursor kbID v =>
    rw [Index.apply, raised, Index.cursor]
    by_cases hkb : kbID = kb
    · subst hkb
      split <;> simp [*]
    · have hsame : ¬ (kbID = kb ∧ (ix.cursors kb).getD 0 < v) := fun h => hkb h.1
      rw [if_neg hsame]
      split
      · exact Function.update_of_ne (Ne.symm hkb) _ _
      · rfl
  | _ => rfl

lemma cursors_snoc (log : List Record) (r : Record) : (rebuild (log ++ [r])).index.cursors kb =
    raised kb ((rebuild log).index.cursors kb) r := by
  rw [rebuild_snoc]
  exact (rebuild log).index.cursors_apply r

lemma raised_eq_acknowledged {cursor : Option Int64} (hpos : ∀ v, r = .cursor kb v → 0 < v) :
    raised kb cursor r = acknowledged kb cursor r := by
  cases r with
  | cursor kbID v =>
    have hmax (m : Int64) : max m v = if m ≤ v then v else m := rfl
    rw [raised, acknowledged]
    by_cases hkb : kbID = kb
    · subst hkb
      cases cursor with
      | none => simp [hpos v rfl]
      | some m =>
      rw [if_pos rfl, Option.getD_some, Option.max_some_some, hmax]
      by_cases hlt : m < v
      · rw [if_pos ⟨rfl, hlt⟩, if_pos (Int64.le_of_lt hlt)]
      · rw [if_neg fun h => hlt h.2]
        split
        · next hle => rw [Int64.le_antisymm hle (Int64.not_lt.mp hlt)]
        · rfl
    · rw [if_neg fun h => hkb h.1, if_neg hkb]
  | _ => rfl

lemma le_raised (cursor : Option Int64) (r : Record) :
    cursor.getD 0 ≤ (raised kb cursor r).getD 0 := by
  cases r with
  | cursor kbID v =>
    rw [raised]
    split
    · next h => exact Int64.le_of_lt h.2
    · exact Int64.le_refl _
  | _ => exact Int64.le_refl _

lemma raised_mono {cursor cursor' : Option Int64} (r : Record)
    (hle : cursor'.getD 0 ≤ cursor.getD 0) :
    (raised kb cursor' r).getD 0 ≤ (raised kb cursor r).getD 0 := by
  cases r with
  | cursor kbID v =>
    by_cases hkb : kbID = kb
    · simp only [raised, hkb, true_and]
      by_cases hlt : cursor.getD 0 < v
      · rw [if_pos (Int64.lt_of_le_of_lt hle hlt), if_pos hlt]
        exact Int64.le_refl _
      · rw [if_neg hlt]
        split
        · exact Int64.not_lt.mp hlt
        · exact hle
    · rw [raised, raised, if_neg fun h => hkb h.1, if_neg fun h => hkb h.1]
      exact hle
  | _ => exact hle

section Filter

variable {keep : Record → Bool}

lemma cursor_filter_le (log : List Record) : (rebuild (log.filter keep)).index.cursor kb ≤
    (rebuild log).index.cursor kb := by
  induction log using reverseRecOn with
  | nil => exact Int64.le_refl _
  | append_singleton log r ih =>
  rw [filter_append, Index.cursor, Index.cursor, cursors_snoc]
  cases hkept : keep r with
  | true =>
    rw [filter_cons_of_pos hkept, filter_nil, cursors_snoc]
    exact raised_mono r ih
  | false =>
    rw [filter_cons_of_neg (by simp [hkept]), filter_nil, append_nil]
    exact Int64.le_trans ih (le_raised _ r)

lemma cursors_filter {cursor : Option Int64} (hcursor : (rebuild log).index.cursors kb = cursor)
    (hkeep : ∀ v ∈ cursor, keep (.cursor kb v) = true) :
    (rebuild (log.filter keep)).index.cursors kb = cursor := by
  induction log using reverseRecOn with
  | nil => exact hcursor
  | append_singleton log r ih =>
  rw [cursors_snoc] at hcursor
  rw [filter_append]
  by_cases hrise : ∃ v, r = .cursor kb v ∧ (rebuild log).index.cursor kb < v
  · -- the new record is the highest, kept by hypothesis, and the others stay below it
    obtain ⟨v, rfl, hlt⟩ := hrise
    rw [raised, if_pos ⟨rfl, hlt⟩] at hcursor
    subst hcursor
    rw [filter_cons_of_pos (hkeep v rfl), filter_nil, cursors_snoc, raised,
      if_pos ⟨rfl, Int64.lt_of_le_of_lt (cursor_filter_le log) hlt⟩]
  · have hstill {c : Option Int64} (hc : (rebuild log).index.cursors kb = c) : raised kb c r = c := by
      cases r with
      | cursor kbID v =>
        refine if_neg fun h => hrise ⟨v, by rw [h.1], ?_⟩
        rw [Index.cursor, hc]
        exact h.2
      | _ => rfl
    rw [hstill rfl] at hcursor
    have ih := ih hcursor
    cases hkept : keep r with
    | true => rw [filter_cons_of_pos hkept, filter_nil, cursors_snoc, ih, hstill hcursor]
    | false => rw [filter_cons_of_neg (by simp [hkept]), filter_nil, append_nil, ih]

end Filter

/-! ### Runs -/

/-- The file and the index say what was acknowledged. -/
structure CursorLog.Keeps (kb : Bytes) (s : CursorLog) (log : List Record) : Prop where
  file : s.w.file = log.flatMap frame
  sane : ∀ r ∈ log, r.Sane
  index : s.w.index.cursors kb = s.acked
  recovered : (rebuild log).index.cursors kb = s.acked

namespace CursorLog.Keeps

variable (h : s.Keeps kb log)

include h

lemma newFileWAL : wal.newFileWAL s.w.file = .ok (reopened log) := by
  rw [h.file]
  exact newFileWAL_frames h.sane

lemma write (hsane : r.Sane) (hpos : ∀ v, r = .cursor kb v → 0 < v) :
    ∃ log', Keeps kb { w := s.w.write r, acked := acknowledged kb s.acked r } log' := by
  have hindex : (s.w.index.apply r).cursors kb = _ := s.w.index.cursors_apply r
  rw [h.index, raised_eq_acknowledged hpos] at hindex
  cases hrec : s.w.recorded r with
  | true =>
    -- Nothing is written, and no higher value is acknowledged.
    have hsame : acknowledged kb s.acked r = s.acked := by
      rw [← raised_eq_acknowledged hpos, ← h.index]
      cases r with
      | cursor kbID v =>
        refine if_neg fun hlt => Int64.not_lt.mpr (of_decide_eq_true hrec) ?_
        rw [Index.cursor, hlt.1]
        exact hlt.2
      | _ => rfl
    rw [hsame, write_of_recorded hrec]
    exact ⟨log, h⟩
  | false =>
    refine ⟨log ++ [r], ?_, ?_, ?_, ?_⟩
    · rw [write_file hrec, h.file, flatMap_append, flatMap_singleton]
    · exact forall_mem_append.mpr ⟨h.sane, fun r' hr' => mem_singleton.mp hr' ▸ hsane⟩
    · rw [write_index hrec]
      exact hindex
    · rw [cursors_snoc, h.recovered, raised_eq_acknowledged hpos]

lemma compact (keepThrough : Bytes → Option Int64) {order : List RawRecord → List RawRecord}
    (horder : ∀ records, (order records).Perm records) :
    ∃ log', Keeps kb { s with w := s.w.compacted keepThrough order (log.map raw) } log' := by
  obtain ⟨log', hfile, hsub, hcursors⟩ := compacted_records log horder
  exact ⟨log', hfile, fun r hr => h.sane r (hsub r hr), h.index,
    (congrFun hcursors kb).trans h.recovered⟩

lemma deleteByKB (hkb : kbID ≠ kb) (howned : ∀ v ∈ s.acked, s.w.owned kbID v = false) :
    ∃ log', Keeps kb { s with w := s.w.withoutKB kbID (log.map raw) } log' := by
  refine ⟨log.filter fun r => !s.w.drops kbID r.raw, ?_,
    fun r hr => h.sane r (mem_of_mem_filter hr),
    (Function.update_of_ne (Ne.symm hkb) _ _).trans h.index,
    cursors_filter h.recovered fun v hv => ?_⟩
  · simp only [withoutKB, filter_map, flatMap_map]
    rfl
  · simp [drops, RawRecord.kbID, raw, parsedKBID, parsedVersionID, Ne.symm hkb, howned v hv]

lemma step {s' : CursorLog} {a : CursorCall} (hother : a.Elsewhere kb) (hsound : s.Sound kb a)
    (hstep : s.step kb a = some s') : ∃ log', s'.Keeps kb log' := by
  have hread := readLog_frames h.sane
  rw [← h.file] at hread
  cases a with
  | write r =>
    cases hstep
    exact h.write hsound.1 hsound.2
  | compact keepThrough order =>
    rw [CursorLog.step, FileWAL.compact, hread] at hstep
    cases hstep
    exact h.compact keepThrough order.2
  | deleteByKB kbID =>
    rw [CursorLog.step, FileWAL.deleteByKB, hread] at hstep
    cases hstep
    exact h.deleteByKB hother hsound
  | reopen =>
    rw [CursorLog.step, h.newFileWAL] at hstep
    cases hstep
    exact ⟨log, rfl, h.sane, h.recovered, h.recovered⟩

end CursorLog.Keeps

/-- In every run of such calls the highest value acknowledged for the knowledge base is the one
its log answers with, and the one the next process recovers. -/
theorem cursor_recovered
    (hreach : Reach (CursorLog.step kb) (fun s a => a.Elsewhere kb ∧ s.Sound kb a) {} s) :
    s.w.recoverCursors kb = s.acked ∧
      ∃ w, newFileWAL s.w.file = .ok w ∧ w.recoverCursors kb = s.acked := by
  have hinit : ({} : CursorLog).Keeps kb [] := ⟨rfl, fun _ hr => (nomatch hr), rfl, rfl⟩
  obtain ⟨log, h⟩ := hreach.invariant (fun s => ∃ log, s.Keeps kb log) ⟨[], hinit⟩
    fun _ _ _ _ ⟨_, h⟩ hsound hstep => h.step hsound.1 hsound.2 hstep
  exact ⟨h.index, _, h.newFileWAL, h.recovered⟩

/-- Version 2 of `a` and version 5 of `b` are written and acknowledged, the log is compacted, `b`
is removed, and the process is restarted. -/
theorem cursor_recovered_rewritten :
    ∃ s, Reach (CursorLog.step [97]) (fun s a => a.Elsewhere [97] ∧ s.Sound [97] a) {} s ∧
      s.acked = some 3 ∧ s.w.recoverCursors [97] = s.acked := by
  obtain ⟨s, hreach, hacked⟩ : ∃ s,
      Reach (CursorLog.step [97]) (fun s a => a.Elsewhere [97] ∧ s.Sound [97] a) {} s ∧
        s.acked = some 3 :=
    Reach.exists_decide [.write (.begin { kbID := [97] }), .write (.versionID [97] 2),
      .write (.cursor [97] 2), .write (.begin { kbID := [98] }), .write (.versionID [98] 5),
      .write (.cursor [98] 5), .write (.commit 2), .write (.cursor [97] 3),
      .compact (fun _ => some 2) ⟨id, fun _ => .rfl⟩, .deleteByKB [98], .reopen,
      .write (.cursor [97] 1)] (by decide +kernel)
  exact ⟨s, hreach, hacked, (cursor_recovered hreach).1⟩

/-- Version 2 is one of `b`, and the cursor of `a` is acknowledged at 2. Removing `b` drops the
record of the cursor with those of the version, and the next process has no cursor of `a`. -/
theorem cursor_lost :
    ∃ s, Reach (CursorLog.step [97]) (fun _ a => a.Elsewhere [97]) {} s ∧
      s.acked = some 2 ∧ s.w.recoverCursors [97] = none :=
  Reach.exists_decide [.write (.begin { kbID := [98] }), .write (.versionID [98] 2),
    .write (.cursor [97] 2), .deleteByKB [98], .reopen] (by decide +kernel)

end stratum.wal
