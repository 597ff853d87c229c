import Mathlib.Data.List.Count
import Stratum.Wal.Reopen

open stratum.lib Function List

namespace stratum.wal

open FileWAL Record AList

/-! Compaction: the log is rewritten without the replay inputs that every replica holds. -/

/-- The knowledge base a rewrite files a record under. -/
def RawRecord.kbID (raw : RawRecord) : Bytes :=
  match raw.record with
  | .begin bd => bd.kbID
  | .versionID kbID _ => kbID
  | .cursor kbID _ => kbID
  | _ => []

def maxCursorStep (cursors : Bytes → Int64) (raw : RawRecord) : Bytes → Int64 :=
  match raw.record with
  | .cursor kbID v => if cursors kbID < v then Function.update cursors kbID v else cursors
  | _ => cursors

/-- The highest cursor recorded for each knowledge base. -/
def maxCursorByKB (records : List RawRecord) : Bytes → Int64 :=
  records.foldl maxCursorStep fun _ => 0

structure Rewrite where
  out : List RawRecord := []
  pending : ByKB RawRecord := ∅
  reclaimed : Int64 → Bool := fun _ => false

namespace FileWAL

/-- A version's replay input may be dropped: it is committed and at or below the watermark of
its knowledge base. -/
def reclaimable (w : FileWAL) (kbID : Bytes) (versionID : Int64)
    (keepThrough : Bytes → Option Int64) : Bool :=
  match keepThrough kbID with
  | none => false
  | some watermark => if watermark < versionID then false else w.index.committedVersions versionID

def rewriteStep (w : FileWAL) (keepThrough : Bytes → Option Int64) (maxCursor : Bytes → Int64)
    (s : Rewrite) (raw : RawRecord) : Rewrite :=
  match raw.record with
  | .begin _ =>
    -- The BEGIN this one replaces never met its VERSION_ID and is kept.
    { s with
      out := s.out ++ (s.pending.lookup raw.kbID).toList
      pending := s.pending.insert raw.kbID raw }
  | .versionID kbID v =>
    match takePendingBegin s.pending kbID with
    | none => { s with out := s.out ++ [raw] }
    | some (paired, pending) =>
      if w.reclaimable paired.kbID v keepThrough then
        { s with pending, reclaimed := Function.update s.reclaimed v true }
      else { s with out := s.out ++ [paired, raw], pending }
  | .cursor kbID v => if v = maxCursor kbID then { s with out := s.out ++ [raw] } else s
  | _ => { s with out := s.out ++ [raw] }

def rewrite (w : FileWAL) (keepThrough : Bytes → Option Int64) (records : List RawRecord) :
    Rewrite :=
  records.foldl (w.rewriteStep keepThrough (maxCursorByKB records)) {}

/-- The log `Compact` swaps in, and the index trimmed to it. The BEGIN records still waiting
at the end are written in the order the map yields them, which is `order`. -/
def compacted (w : FileWAL) (keepThrough : Bytes → Option Int64)
    (order : List RawRecord → List RawRecord) (records : List RawRecord) : FileWAL :=
  let rewritten := w.rewrite keepThrough records
  { w with
    file := (rewritten.out ++ order (rewritten.pending.entries.map Sigma.snd)).flatMap RawRecord.raw
    index := { w.index with
      versionIDsWritten := fun v => w.index.versionIDsWritten v && !rewritten.reclaimed v
      committedVersions := fun v => w.index.committedVersions v && !rewritten.reclaimed v }
    beginDataByVersion := fun v =>
      if rewritten.reclaimed v then none else w.beginDataByVersion v }

def compact (w : FileWAL) (keepThrough : Bytes → Option Int64)
    (order : List RawRecord → List RawRecord) : Except OpenError FileWAL :=
  (readLog w.file).map fun s => w.compacted keepThrough order s.records

end FileWAL

/-! ### Logs whose BEGIN records come first -/

/-- The knowledge bases of the BEGIN records no VERSION_ID has taken, one for each. -/
def unpaired (log : List Record) : List Bytes :=
  log.foldl (fun kbIDs r =>
    match r with
    | .begin bd => bd.kbID :: kbIDs
    | .versionID kbID _ => kbIDs.erase kbID
    | _ => kbIDs) []

def versions (log : List Record) : List Int64 :=
  log.filterMap fun
    | .versionID _ v => some v
    | _ => none

/-- A log in which no BEGIN is written while a VERSION_ID waits, and every VERSION_ID finds
the BEGIN of its knowledge base or a log that has none left over. -/
inductive BeginFirst : List Record → Prop
  | nil : BeginFirst []
  | begin {log : List Record} (bd : BeginData) (hlog : BeginFirst log)
      (hwaits : (waiting log).version = none) : BeginFirst (log ++ [Record.begin bd])
  | versionID {log : List Record} {kbID : Bytes} {v : Int64} (hlog : BeginFirst log)
      (hkb : kbID ≠ []) (hv : v ≠ 0) (hnew : v ∉ versions log)
      (htaken : ((waiting log).begins.lookup kbID).isSome ∨ unpaired log = []) :
      BeginFirst (log ++ [Record.versionID kbID v])
  | other {log : List Record} {r : Record} (hlog : BeginFirst log) (hpairs : r.pairs = false) :
      BeginFirst (log ++ [r])

/-- What the last record of such a log meets in the log before it. -/
def FirstAt (log : List Record) : Record → Prop
  | .begin _ => (waiting log).version = none
  | .versionID kbID v => kbID ≠ [] ∧ v ≠ 0 ∧ v ∉ versions log ∧
    (((waiting log).begins.lookup kbID).isSome ∨ unpaired log = [])
  | _ => True

instance (log : List Record) (r : Record) : Decidable (FirstAt log r) := by
  induction r using Record.casesOn <;> dsimp only [FirstAt] <;> infer_instance

lemma beginFirst_snoc_iff {log : List Record} {r : Record} :
    BeginFirst (log ++ [r]) ↔ BeginFirst log ∧ FirstAt log r := by
  constructor
  · generalize hall : log ++ [r] = all
    rintro (_ | ⟨bd, hlog, hwaits⟩ | ⟨hlog, hkb, hv, hnew, htaken⟩ | ⟨hlog, hpairs⟩)
    · simp at hall
    all_goals obtain ⟨rfl, rfl⟩ := append_singleton_inj.mp hall
    · exact ⟨hlog, hwaits⟩
    · exact ⟨hlog, hkb, hv, hnew, htaken⟩
    · refine ⟨hlog, ?_⟩
      cases r with
      | begin | versionID => cases hpairs
      | _ => trivial
  · rintro ⟨hlog, hfirst⟩
    cases r with
    | begin bd => exact .begin bd hlog hfirst
    | versionID kbID v => exact .versionID hlog hfirst.1 hfirst.2.1 hfirst.2.2.1 hfirst.2.2.2
    | _ => exact .other hlog rfl

/-- The same over the reversed log, which a computer can go through. -/
def firstFromEnd : List Record → Bool
  | [] => true
  | r :: rest => firstFromEnd rest && decide (FirstAt rest.reverse r)

lemma beginFirst_iff_firstFromEnd (log : List Record) :
    BeginFirst log ↔ firstFromEnd log.reverse = true := by
  induction log using reverseRecOn with
  | nil => exact iff_of_true .nil rfl
  | append_singleton log r ih =>
    rw [beginFirst_snoc_iff, ih, reverse_append, reverse_singleton, singleton_append, firstFromEnd,
      reverse_reverse, Bool.and_eq_true, decide_eq_true_iff]

instance (log : List Record) : Decidable (BeginFirst log) :=
  decidable_of_iff _ (beginFirst_iff_firstFromEnd log).symm

lemma unpaired_begin (log : List Record) (bd : BeginData) :
    unpaired (log ++ [Record.begin bd]) = bd.kbID :: unpaired log := by
  simp [unpaired]

lemma unpaired_versionID (log : List Record) (kbID : Bytes) (v : Int64) :
    unpaired (log ++ [Record.versionID kbID v]) = (unpaired log).erase kbID := by
  simp [unpaired]

variable {r : Record} {log tail : List Record} {v : Int64} {kbID : Bytes} {bd : BeginData}
  {keepThrough : Bytes → Option Int64} {w : FileWAL}

lemma unpaired_of_not_pairs (log : List Record) (hpairs : r.pairs = false) :
    unpaired (log ++ [r]) = unpaired log := by
  rw [unpaired, foldl_append]
  cases r with
  | begin | versionID => cases hpairs
  | _ => rfl

lemma versions_append (log log' : List Record) :
    versions (log ++ log') = versions log ++ versions log' := by
  rw [versions, filterMap_append]
  rfl

lemma mem_versions : v ∈ versions log ↔ ∃ kbID, .versionID kbID v ∈ log := by
  rw [versions, mem_filterMap]
  constructor
  · rintro ⟨r, hr, hv⟩
    cases r with
    | versionID kbID u =>
      cases hv
      exact ⟨kbID, hr⟩
    | _ => cases hv
  · rintro ⟨kbID, hr⟩
    exact ⟨_, hr, rfl⟩

lemma mem_versions_of_bound (hv : boundBy log v ≠ none ∨ (waiting log).version = some v) :
    v ∈ versions log := by
  induction log using reverseRecOn with
  | nil => simp [boundBy, rebuild, waiting] at hv
  | append_singleton log r ih =>
  rw [versions_append, mem_append]
  cases r with
  | begin bd =>
    refine .inl (ih ?_)
    rw [boundBy_begin, waiting_snoc, Waiting.next] at hv
    cases hwaits : (waiting log).version with
    | none => simpa [hwaits, bindTo] using hv
    | some u =>
      by_cases huv : v = u
      · exact .inr (by rw [huv])
      · simpa [hwaits, bindTo, update_of_ne huv, Ne.symm huv] using hv
  | versionID kb u =>
    by_cases huv : v = u
    · exact .inr (by simp [versions, huv])
    refine .inl (ih ?_)
    have hbound : boundBy (log ++ [.versionID kb u]) v = boundBy log v := by
      rw [boundBy_versionID]
      cases (waiting log).begin kb with
      | none => rfl
      | some bd => exact update_of_ne huv _ _
    rw [hbound, waiting_snoc, Waiting.next] at hv
    refine hv.imp_right fun hwaits => ?_
    split at hwaits
    · exact hwaits
    · split at hwaits
      · cases hwaits
      · exact absurd (Option.some.inj hwaits).symm huv
  | _ =>
    rw [boundBy_of_not_pairs log rfl, waiting_of_not_pairs log rfl] at hv
    exact .inl (ih hv)

lemma takePendingBegin_of_ne {α : Type} (pending : ByKB α) (hkb : kbID ≠ []) :
    takePendingBegin pending kbID =
      (pending.lookup kbID).map fun begin => (begin, pending.erase kbID) := if_pos hkb

/-- What a VERSION_ID takes waited under some knowledge base, and nothing else changes. -/
lemma takePendingBegin_some {α : Type} {pending pending' : ByKB α} {begin : α}
    (htake : takePendingBegin pending kbID = some (begin, pending')) :
    ∃ kb, pending.lookup kb = some begin ∧ pending' = pending.erase kb := by
  unfold takePendingBegin at htake
  split at htake
  · obtain ⟨_, hlook, ⟨⟩⟩ := Option.map_eq_some_iff.mp htake
    exact ⟨kbID, hlook, rfl⟩
  split at htake
  · next kb _ hentries =>
    cases htake
    exact ⟨kb, mem_lookup_iff.mpr (hentries ▸ mem_cons_self), rfl⟩
  · cases htake

lemma lookup_of_erase {α : Type} {pending : ByKB α} {kb : Bytes} {begin : α}
    (hlook : (pending.erase kb).lookup kbID = some begin) : pending.lookup kbID = some begin := by
  by_cases hkb : kbID = kb
  · rw [hkb, lookup_erase] at hlook
    cases hlook
  · rwa [lookup_erase_ne hkb] at hlook

lemma Waiting.begin_of_ne (s : Waiting) (hkb : kbID ≠ []) :
    s.begin kbID = s.begins.lookup kbID := by
  rw [Waiting.begin, takePendingBegin_of_ne s.begins hkb, Option.map_map]
  exact Option.map_id' ..

lemma waiting_source (hbegin : (waiting log).begins.lookup kbID = some bd) :
    bd.kbID = kbID ∧ .begin bd ∈ log := by
  induction log using reverseRecOn generalizing kbID bd with
  | nil => cases hbegin
  | append_singleton log r ih =>
  have hold (h : (waiting log).begins.lookup kbID = some bd) :
      bd.kbID = kbID ∧ .begin bd ∈ log ++ [r] :=
    ⟨(ih h).1, mem_append_left _ (ih h).2⟩
  rw [waiting_snoc] at hbegin
  cases r with
  | begin bd' =>
    rw [Waiting.next] at hbegin
    split at hbegin
    · exact hold hbegin
    by_cases hkb : kbID = bd'.kbID
    · rw [hkb, lookup_insert] at hbegin
      cases hbegin
      exact ⟨hkb.symm, mem_append_right _ mem_cons_self⟩
    · rw [lookup_insert_ne hkb] at hbegin
      exact hold hbegin
  | versionID kb v =>
    rw [Waiting.next] at hbegin
    split at hbegin
    · next htake =>
      obtain ⟨_, -, rfl⟩ := takePendingBegin_some htake
      exact hold (lookup_of_erase hbegin)
    · exact hold hbegin
  | _ => exact hold hbegin

/-! ### What a rewrite keeps -/

section Simulation

variable (w : FileWAL) (keepThrough : Bytes → Option Int64) (maxCursor : Bytes → Int64)

/-- The rewrite loop behind the records of `log`. -/
def rewriteOf (log : List Record) : Rewrite :=
  (log.map Record.raw).foldl (w.rewriteStep keepThrough maxCursor) {}

def rewrittenLog (log : List Record) : List Record :=
  (rewriteOf w keepThrough maxCursor log).out.map RawRecord.record

lemma rewriteOf_snoc (log : List Record) (r : Record) :
    rewriteOf w keepThrough maxCursor (log ++ [r]) =
      w.rewriteStep keepThrough maxCursor (rewriteOf w keepThrough maxCursor log) r.raw := by
  simp [rewriteOf]

/-- The records a rewrite copies without looking at others: all but the cursors a later one
replaces, and the pairs. -/
def copies (r : Record) : Bool :=
  match r with
  | .begin _ => false
  | .versionID .. => false
  | .cursor kbID v => v = maxCursor kbID
  | _ => true

/-- A rewrite holds records of the log with the bytes they had there: BEGINs that wait, and in its
output the copied records next to pairs. -/
structure Copied (log : List Record) : Prop where
  out : ∀ raw ∈ (rewriteOf w keepThrough maxCursor log).out, ∃ r ∈ log, raw = r.raw
  pending : ∀ kbID raw, (rewriteOf w keepThrough maxCursor log).pending.lookup kbID = some raw →
    ∃ bd, .begin bd ∈ log ∧ raw = (Record.begin bd).raw
  copied : (rewrittenLog w keepThrough maxCursor log).filter (fun r => !r.pairs) =
    log.filter (copies maxCursor)

section

variable {w keepThrough maxCursor}

/-- One more record, for which the rewrite writes `added`. -/
lemma Copied.snoc (h : Copied w keepThrough maxCursor log) (added : List RawRecord)
    {pending : ByKB RawRecord} {reclaimed : Int64 → Bool}
    (hstep : rewriteOf w keepThrough maxCursor (log ++ [r]) =
      ⟨(rewriteOf w keepThrough maxCursor log).out ++ added, pending, reclaimed⟩)
    (hadded : ∀ raw ∈ added, ∃ r' ∈ log ++ [r], raw = r'.raw)
    (hpending : ∀ kbID raw, pending.lookup kbID = some raw →
      (rewriteOf w keepThrough maxCursor log).pending.lookup kbID = some raw ∨
        ∃ bd, .begin bd = r ∧ raw = (Record.begin bd).raw)
    (hcopied : (added.map RawRecord.record).filter (fun r => !r.pairs) =
      [r].filter (copies maxCursor)) : Copied w keepThrough maxCursor (log ++ [r]) where
  out raw hraw := by
    rw [hstep] at hraw
    rcases mem_append.mp hraw with hold | hnew
    · obtain ⟨r', hr', heq⟩ := h.out raw hold
      exact ⟨r', mem_append_left _ hr', heq⟩
    · exact hadded raw hnew
  pending kbID raw hlook := by
    rw [hstep] at hlook
    obtain hold | ⟨bd, rfl, heq⟩ := hpending kbID raw hlook
    · obtain ⟨bd, hbd, heq⟩ := h.pending kbID raw hold
      exact ⟨bd, mem_append_left _ hbd, heq⟩
    · exact ⟨bd, mem_append_right _ mem_cons_self, heq⟩
  copied := by
    rw [rewrittenLog, hstep, map_append, filter_append, filter_append, hcopied, ← h.copied]
    rfl

lemma Copied.begin (h : Copied w keepThrough maxCursor log) (bd : BeginData) :
    Copied w keepThrough maxCursor (log ++ [Record.begin bd]) := by
  have hwaits (raw : RawRecord)
      (hraw : raw ∈ ((rewriteOf w keepThrough maxCursor log).pending.lookup bd.kbID).toList) :=
    h.pending bd.kbID raw (Option.mem_toList.mp hraw)
  refine h.snoc _ (rewriteOf_snoc w keepThrough maxCursor log (.begin bd)) ?_ ?_ ?_
  · intro raw hraw
    obtain ⟨bd', hbd', heq⟩ := hwaits raw hraw
    exact ⟨_, mem_append_left _ hbd', heq⟩
  · intro kbID raw hlook
    by_cases hkb : kbID = bd.kbID
    · rw [hkb] at hlook
      exact .inr ⟨bd, rfl, (Option.some.inj ((lookup_insert ..).symm.trans hlook)).symm⟩
    · exact .inl ((lookup_insert_ne hkb).symm.trans hlook)
  · refine filter_eq_nil_iff.mpr fun r hr => ?_
    obtain ⟨raw, hraw, rfl⟩ := mem_map.mp hr
    obtain ⟨bd', -, rfl⟩ := hwaits raw hraw
    exact Bool.false_ne_true

lemma Copied.versionID (h : Copied w keepThrough maxCursor log) (kbID : Bytes) (v : Int64) :
    Copied w keepThrough maxCursor (log ++ [Record.versionID kbID v]) := by
  have hself : ∃ r ∈ log ++ [Record.versionID kbID v], (Record.versionID kbID v).raw = r.raw :=
    ⟨_, mem_append_right _ mem_cons_self, rfl⟩
  have hstep := rewriteOf_snoc w keepThrough maxCursor log (.versionID kbID v)
  simp only [rewriteStep, Record.raw] at hstep
  split at hstep
  · refine h.snoc [(Record.versionID kbID v).raw] hstep ?_ (fun _ _ => .inl) rfl
    exact fun raw hraw => mem_singleton.mp hraw ▸ hself
  next paired pending htake =>
  obtain ⟨kb, hlook, rfl⟩ := takePendingBegin_some htake
  obtain ⟨bd, hbd, rfl⟩ := h.pending kb paired hlook
  split at hstep
  · rw [← append_nil (rewriteOf w keepThrough maxCursor log).out] at hstep
    exact h.snoc [] hstep (fun _ hraw => nomatch hraw)
      (fun _ _ hlook => .inl (lookup_of_erase hlook)) rfl
  · refine h.snoc [(Record.begin bd).raw, (Record.versionID kbID v).raw] hstep ?_
      (fun _ _ hlook => .inl (lookup_of_erase hlook)) rfl
    intro raw hraw
    rcases mem_pair.mp hraw with rfl | rfl
    · exact ⟨_, mem_append_left _ hbd, rfl⟩
    · exact hself

lemma rewriteOf_of_not_pairs (hpairs : r.pairs = false) :
    rewriteOf w keepThrough maxCursor (log ++ [r]) =
      { rewriteOf w keepThrough maxCursor log with
        out := (rewriteOf w keepThrough maxCursor log).out ++
          ([r].filter (copies maxCursor)).map Record.raw } := by
  rw [rewriteOf_snoc]
  cases r with
  | begin | versionID => cases hpairs
  | cursor kbID v =>
    by_cases hmax : v = maxCursor kbID
    all_goals simp [rewriteStep, Record.raw, copies, hmax]
  | _ => rfl

lemma Copied.other (h : Copied w keepThrough maxCursor log) (hpairs : r.pairs = false) :
    Copied w keepThrough maxCursor (log ++ [r]) := by
  refine h.snoc _ (rewriteOf_of_not_pairs hpairs) ?_ (fun _ _ => .inl) ?_
  · intro raw hraw
    obtain ⟨r', hr', rfl⟩ := mem_map.mp hraw
    exact ⟨r', mem_append_right _ (mem_filter.mp hr').1, rfl⟩
  · rw [map_map, show (RawRecord.record ∘ Record.raw) = id from rfl, map_id]
    refine filter_eq_self.mpr fun r' hr' => ?_
    simp [mem_singleton.mp (mem_filter.mp hr').1, hpairs]

end

lemma rewriteOf_copied (log : List Record) : Copied w keepThrough maxCursor log := by
  induction log using reverseRecOn with
  | nil => exact ⟨fun _ hraw => (nomatch hraw), fun _ _ hlook => (nomatch hlook), rfl⟩
  | append_singleton log r ih =>
  cases r with
  | begin bd => exact ih.begin bd
  | versionID kbID v => exact ih.versionID kbID v
  | _ => exact ih.other rfl

lemma mem_of_mem_rewrittenLog (hr : r ∈ rewrittenLog w keepThrough maxCursor log) : r ∈ log := by
  obtain ⟨raw, hraw, rfl⟩ := mem_map.mp hr
  obtain ⟨r, hmem, rfl⟩ := (rewriteOf_copied w keepThrough maxCursor log).out raw hraw
  exact hmem

/-- The rewrite and the reader see the same records waiting, and the reader of the rewritten
log binds what the reader of the log binds, without the reclaimed versions. A BEGIN that the
rewritten log still has waiting was left over in the log. -/
structure Mirrors (log : List Record) : Prop where
  queue : ∀ kbID, (rewriteOf w keepThrough maxCursor log).pending.lookup kbID =
    ((waiting log).begins.lookup kbID).map fun bd => (Record.begin bd).raw
  version : (waiting (rewrittenLog w keepThrough maxCursor log)).version = (waiting log).version
  bound : ∀ v, boundBy (rewrittenLog w keepThrough maxCursor log) v =
    if (rewriteOf w keepThrough maxCursor log).reclaimed v then none else boundBy log v
  settled : (waiting log).version ≠ none → unpaired log = []
  leftover : ∀ kbID,
    ((waiting log).begins.lookup kbID).isSome.toNat +
      ((waiting (rewrittenLog w keepThrough maxCursor log)).begins.lookup kbID).isSome.toNat ≤
        (unpaired log).count kbID
  reclaimed : ∀ v, (rewriteOf w keepThrough maxCursor log).reclaimed v = true →
    ∃ kbID, .versionID kbID v ∈ log ∧ w.reclaimable kbID v keepThrough = true
  kept : ∀ v, v ∈ versions (rewrittenLog w keepThrough maxCursor log) ↔
    v ∈ versions log ∧ (rewriteOf w keepThrough maxCursor log).reclaimed v = false

variable {w keepThrough maxCursor}

lemma Mirrors.nil : Mirrors w keepThrough maxCursor [] where
  queue _ := rfl
  version := rfl
  bound _ := rfl
  settled hwaits := absurd rfl hwaits
  leftover _ := le_rfl
  reclaimed _ hv := nomatch hv
  kept v := by simp [rewrittenLog, rewriteOf]

/-- One more record: the rewrite writes `added` for it, and the reader meets it in the log. -/
lemma Mirrors.snoc (h : Mirrors w keepThrough maxCursor log) {out : List Record}
    (hout : rewrittenLog w keepThrough maxCursor log = out) (added : List Record)
    {pending : ByKB RawRecord} {reclaimed : Int64 → Bool}
    (hstep : rewriteOf w keepThrough maxCursor (log ++ [r]) =
      ⟨(rewriteOf w keepThrough maxCursor log).out ++ added.map Record.raw, pending, reclaimed⟩)
    (hqueue : ∀ kbID, pending.lookup kbID =
      ((waiting (log ++ [r])).begins.lookup kbID).map fun bd => (Record.begin bd).raw)
    (hversion : (waiting (out ++ added)).version = (waiting (log ++ [r])).version)
    (hbound : ∀ v, boundBy (out ++ added) v =
      if reclaimed v then none else boundBy (log ++ [r]) v)
    (hsettled : (waiting (log ++ [r])).version ≠ none → unpaired (log ++ [r]) = [])
    (hleftover : ∀ kbID, ((waiting (log ++ [r])).begins.lookup kbID).isSome.toNat +
      ((waiting (out ++ added)).begins.lookup kbID).isSome.toNat ≤
        (unpaired (log ++ [r])).count kbID)
    (hreclaimed : ∀ v, reclaimed v = true →
      (rewriteOf w keepThrough maxCursor log).reclaimed v = true ∨
        ∃ kbID, .versionID kbID v = r ∧ w.reclaimable kbID v keepThrough = true)
    (hkept : ∀ v ∈ versions log,
      reclaimed v = (rewriteOf w keepThrough maxCursor log).reclaimed v)
    (hadded : ∀ v, v ∈ versions added ↔ v ∈ versions [r] ∧ reclaimed v = false) :
    Mirrors w keepThrough maxCursor (log ++ [r]) := by
  have hlog : rewrittenLog w keepThrough maxCursor (log ++ [r]) = out ++ added := by
    rw [rewrittenLog, hstep, ← hout, map_append, map_map]
    exact congrArg _ (map_id _)
  refine ⟨?_, ?_, ?_, hsettled, ?_, ?_, ?_⟩
  · rwa [hstep]
  · rwa [hlog]
  · rwa [hlog, hstep]
  · rwa [hlog]
  · rw [hstep]
    intro v hv
    obtain hold | ⟨kbID, rfl, hrec⟩ := hreclaimed v hv
    · obtain ⟨kbID, hmem, hrec⟩ := h.reclaimed v hold
      exact ⟨kbID, mem_append_left _ hmem, hrec⟩
    · exact ⟨kbID, mem_append_right _ mem_cons_self, hrec⟩
  · intro v
    rw [hlog, hstep, versions_append, versions_append, mem_append, mem_append, ← hout, h.kept v,
      hadded v, or_and_right]
    exact or_congr_left (and_congr_right fun hmem => hkept v hmem ▸ Iff.rfl)

lemma Mirrors.other (h : Mirrors w keepThrough maxCursor log) (hpairs : r.pairs = false) :
    Mirrors w keepThrough maxCursor (log ++ [r]) := by
  generalize hout : rewrittenLog w keepThrough maxCursor log = out
  have hversions : versions [r] = [] := by
    cases r with
    | begin | versionID => cases hpairs
    | _ => rfl
  have hstep := @rewriteOf_of_not_pairs r log w keepThrough maxCursor hpairs
  -- Copied or not, the record leaves the pairing alone.
  have hadded : waiting (out ++ [r].filter (copies maxCursor)) = waiting out ∧
      boundBy (out ++ [r].filter (copies maxCursor)) = boundBy out ∧
      versions ([r].filter (copies maxCursor)) = [] := by
    cases hkept : copies maxCursor r with
    | true =>
      rw [filter_singleton, hkept]
      exact ⟨waiting_of_not_pairs _ hpairs, boundBy_of_not_pairs _ hpairs, hversions⟩
    | false => simp [hkept, versions]
  refine h.snoc hout _ hstep ?_ ?_ ?_ ?_ ?_ (fun _ => .inl) (fun _ _ => rfl) ?_
  · rw [waiting_of_not_pairs log hpairs]
    exact h.queue
  · rw [hadded.1, waiting_of_not_pairs log hpairs, ← hout]
    exact h.version
  · rw [hadded.2.1, boundBy_of_not_pairs log hpairs, ← hout]
    exact h.bound
  · rw [waiting_of_not_pairs log hpairs, unpaired_of_not_pairs log hpairs]
    exact h.settled
  · rw [hadded.1, waiting_of_not_pairs log hpairs, unpaired_of_not_pairs log hpairs, ← hout]
    exact h.leftover
  · simp [hadded.2.2, hversions]

lemma waiting_begin_of_none (bd : BeginData) (hwaits : (waiting log).version = none) :
    waiting (log ++ [Record.begin bd]) =
      { waiting log with begins := (waiting log).begins.insert bd.kbID bd } := by
  rw [waiting_snoc, Waiting.next, if_neg (by simp [hwaits])]

/-- A new BEGIN takes its place in the queue; the one it replaces is written out. -/
lemma Mirrors.begin (bd : BeginData) (h : Mirrors w keepThrough maxCursor log)
    (hwaits : (waiting log).version = none) :
    Mirrors w keepThrough maxCursor (log ++ [Record.begin bd]) := by
  generalize hout : rewrittenLog w keepThrough maxCursor log = out
  generalize hprev : ((waiting log).begins.lookup bd.kbID).toList.map Record.begin = prev
  have hstep : rewriteOf w keepThrough maxCursor (log ++ [Record.begin bd]) =
      { rewriteOf w keepThrough maxCursor log with
        out := (rewriteOf w keepThrough maxCursor log).out ++ prev.map Record.raw
        pending := (rewriteOf w keepThrough maxCursor log).pending.insert bd.kbID
          (Record.begin bd).raw } := by
    rw [rewriteOf_snoc, ← hprev, map_map, ← Option.toList_map]
    exact congrArg (Rewrite.mk · _ _) (congrArg _ (congrArg _ (h.queue bd.kbID)))
  have hunwaited : (waiting out).version = none := hout ▸ h.version.trans hwaits
  have hwaiting := waiting_begin_of_none bd hwaits
  -- What the rewrite writes out here is a BEGIN, and no version waits for it.
  have hafter : (waiting (out ++ prev)).version = none ∧ boundBy (out ++ prev) = boundBy out ∧
      ∀ kbID, ((waiting (out ++ prev)).begins.lookup kbID).isSome.toNat ≤
        if kbID = bd.kbID ∧ ((waiting log).begins.lookup bd.kbID).isSome then 1
        else ((waiting out).begins.lookup kbID).isSome.toNat := by
    rw [← hprev]
    cases hprev : (waiting log).begins.lookup bd.kbID with
    | none => simp [hunwaited]
    | some prev =>
    have hkey : prev.kbID = bd.kbID := (waiting_source hprev).1
    simp only [Option.toList_some, map_singleton]
    rw [waiting_begin_of_none prev hunwaited, boundBy_begin, hunwaited]
    refine ⟨rfl, rfl, fun kbID => ?_⟩
    by_cases hkb : kbID = bd.kbID
    · simp [hkb, Bool.toNat_le]
    · have hne : kbID ≠ prev.kbID := by rwa [hkey]
      simp [hkb, lookup_insert_ne hne]
  obtain ⟨hversion, hbound, hbegins⟩ := hafter
  have hboundLog : boundBy (log ++ [Record.begin bd]) = boundBy log := by
    rw [boundBy_begin, hwaits]
    rfl
  refine h.snoc hout prev hstep ?_ ?_ ?_ ?_ ?_ (fun _ => .inl) (fun _ _ => rfl) ?_
  · rw [hwaiting]
    intro kbID
    by_cases hkb : kbID = bd.kbID
    · rw [hkb, lookup_insert, lookup_insert]
      rfl
    · rw [lookup_insert_ne hkb, lookup_insert_ne hkb]
      exact h.queue kbID
  · rw [hversion, hwaiting]
    exact hwaits.symm
  · rw [hbound, hboundLog, ← hout]
    exact h.bound
  · rw [hwaiting]
    exact absurd hwaits
  · intro kbID
    have hbegins := hbegins kbID
    have hold := h.leftover kbID
    rw [hout] at hold
    rw [hwaiting, unpaired_begin, count_cons]
    by_cases hkb : kbID = bd.kbID
    · subst hkb
      cases hprev : (waiting log).begins.lookup bd.kbID <;> simp [hprev] at hbegins hold ⊢ <;> omega
    simp only [hkb, false_and, if_false] at hbegins
    rw [lookup_insert_ne hkb]
    omega
  · simp [← hprev, versions]

lemma waiting_versionID_of_some (v : Int64) (hkb : kbID ≠ [])
    (hbegin : (waiting log).begins.lookup kbID = some bd) : waiting (log ++ [Record.versionID kbID v]) =
      { waiting log with begins := (waiting log).begins.erase kbID } := by
  rw [waiting_snoc, Waiting.next, takePendingBegin_of_ne _ hkb, hbegin]
  rfl

lemma waiting_versionID_of_none (hkb : kbID ≠ []) (hv : v ≠ 0)
    (hbegin : (waiting log).begins.lookup kbID = none) :
    waiting (log ++ [Record.versionID kbID v]) = { waiting log with version := some v } := by
  rw [waiting_snoc, Waiting.next, takePendingBegin_of_ne _ hkb, hbegin]
  simp [hv]

lemma boundBy_unpaired (hkb : kbID ≠ []) (hbegin : (waiting log).begins.lookup kbID = none) :
    boundBy (log ++ [Record.versionID kbID v]) = boundBy log := by
  rw [boundBy_versionID, Waiting.begin_of_ne _ hkb, hbegin]
  rfl

lemma boundBy_paired (hkb : kbID ≠ []) (hbegin : (waiting log).begins.lookup kbID = some bd) :
    boundBy (log ++ [Record.versionID kbID v]) = update (boundBy log) v (some bd) := by
  rw [boundBy_versionID, Waiting.begin_of_ne _ hkb, hbegin]
  rfl

section

variable (h : Mirrors w keepThrough maxCursor log)

include h

/-- Without a BEGIN left over, no knowledge base has one waiting, before or after. -/
lemma Mirrors.lookup_of_settled (hsettled : unpaired log = []) (kbID : Bytes) :
    (waiting log).begins.lookup kbID = none ∧
      (waiting (rewrittenLog w keepThrough maxCursor log)).begins.lookup kbID = none := by
  have hcount := h.leftover kbID
  rw [hsettled, count_nil, Nat.le_zero, Nat.add_eq_zero_iff] at hcount
  simpa using hcount

lemma kept_of_new (hnew : v ∉ versions log) :
    (rewriteOf w keepThrough maxCursor log).reclaimed v = false := by
  by_contra hdone
  obtain ⟨kb, hmem, -⟩ := h.reclaimed v (Bool.not_eq_false _ ▸ hdone)
  exact hnew (mem_versions.mpr ⟨kb, hmem⟩)

/-- A version without a BEGIN is copied, and waits in the rewritten log as it did. -/
lemma Mirrors.lone (hkb : kbID ≠ []) (hv : v ≠ 0) (hnew : v ∉ versions log)
    (hsettled : unpaired log = []) :
    Mirrors w keepThrough maxCursor (log ++ [Record.versionID kbID v]) := by
  generalize hout : rewrittenLog w keepThrough maxCursor log = out
  have hnone (kb : Bytes) := h.lookup_of_settled hsettled kb
  rw [hout] at hnone
  have hqueue : (rewriteOf w keepThrough maxCursor log).pending.lookup kbID = none := by
    rw [h.queue, (hnone kbID).1]
    rfl
  have hstep := rewriteOf_snoc w keepThrough maxCursor log (.versionID kbID v)
  simp only [rewriteStep, Record.raw, takePendingBegin_of_ne _ hkb, hqueue, Option.map_none] at hstep
  have hwaiting := waiting_versionID_of_none hkb hv (hnone kbID).1
  have hwaiting' := waiting_versionID_of_none hkb hv (hnone kbID).2
  have hsettled' : unpaired (log ++ [Record.versionID kbID v]) = [] := by
    rw [unpaired_versionID, hsettled]
    rfl
  refine h.snoc hout [.versionID kbID v] hstep ?_ ?_ ?_ (fun _ => hsettled') ?_ (fun _ => .inl)
    (fun _ _ => rfl) ?_
  · rw [hwaiting]
    exact h.queue
  · rw [hwaiting, hwaiting']
  · rw [boundBy_unpaired hkb (hnone kbID).2, boundBy_unpaired hkb (hnone kbID).1, ← hout]
    exact h.bound
  · intro kb
    rw [hwaiting, hwaiting']
    simp [hnone kb]
  · rintro u
    simp only [versions, filterMap_cons, filterMap_nil, mem_singleton, iff_self_and]
    rintro rfl
    exact kept_of_new h hnew

section

variable (hkb : kbID ≠ []) (hnew : v ∉ versions log)
  (hbegin : (waiting log).begins.lookup kbID = some bd)

include hbegin

lemma Mirrors.unwaited : (waiting log).version = none := by
  by_contra hsome
  rw [(h.lookup_of_settled (h.settled hsome) kbID).1] at hbegin
  cases hbegin

include hkb

lemma Mirrors.queue_paired (kb : Bytes) :
    ((rewriteOf w keepThrough maxCursor log).pending.erase kbID).lookup kb =
      ((waiting (log ++ [Record.versionID kbID v])).begins.lookup kb).map
        fun bd => (Record.begin bd).raw := by
  rw [waiting_versionID_of_some v hkb hbegin]
  by_cases hsame : kb = kbID
  · rw [hsame, lookup_erase, lookup_erase]
    rfl
  · rw [lookup_erase_ne hsame, lookup_erase_ne hsame]
    exact h.queue kb

lemma Mirrors.settled_paired : (waiting (log ++ [Record.versionID kbID v])).version ≠ none →
    unpaired (log ++ [Record.versionID kbID v]) = [] := by
  rw [waiting_versionID_of_some v hkb hbegin]
  exact absurd (h.unwaited hbegin)

lemma Mirrors.step_paired : rewriteOf w keepThrough maxCursor (log ++ [Record.versionID kbID v]) =
    if w.reclaimable kbID v keepThrough then
      ⟨(rewriteOf w keepThrough maxCursor log).out,
        (rewriteOf w keepThrough maxCursor log).pending.erase kbID,
        update (rewriteOf w keepThrough maxCursor log).reclaimed v true⟩
    else
      ⟨(rewriteOf w keepThrough maxCursor log).out ++
          [Record.begin bd, .versionID kbID v].map Record.raw,
        (rewriteOf w keepThrough maxCursor log).pending.erase kbID,
        (rewriteOf w keepThrough maxCursor log).reclaimed⟩ := by
  have hqueue : (rewriteOf w keepThrough maxCursor log).pending.lookup kbID =
      some (Record.begin bd).raw := by
    rw [h.queue, hbegin]
    rfl
  have hstep := rewriteOf_snoc w keepThrough maxCursor log (.versionID kbID v)
  simp only [rewriteStep, Record.raw, takePendingBegin_of_ne _ hkb, hqueue,
    Option.map_some] at hstep
  rwa [show RawRecord.kbID ⟨Record.begin bd, (Record.begin bd).frame⟩ = kbID from
    (waiting_source hbegin).1] at hstep

include hnew

lemma Mirrors.reclaims (hrec : w.reclaimable kbID v keepThrough = true) :
    Mirrors w keepThrough maxCursor (log ++ [Record.versionID kbID v]) := by
  have hwaiting := waiting_versionID_of_some v hkb hbegin
  have hfree : boundBy log v = none := by
    by_contra hsome
    exact hnew (mem_versions_of_bound (.inl hsome))
  have hstep := h.step_paired hkb (v := v) hbegin
  rw [if_pos hrec, ← append_nil (rewriteOf w keepThrough maxCursor log).out] at hstep
  refine h.snoc rfl [] hstep (h.queue_paired hkb hbegin) ?_ ?_ (h.settled_paired hkb hbegin) ?_
    ?_ ?_ ?_
  · rw [append_nil, hwaiting]
    exact h.version
  · intro u
    rw [append_nil, boundBy_paired hkb hbegin, h.bound u]
    by_cases huv : u = v
    · simp [huv, hfree]
    · simp [huv]
  · intro kb
    have hold := h.leftover kb
    rw [append_nil, hwaiting, unpaired_versionID, count_erase]
    by_cases hsame : kb = kbID
    · subst hsame
      simp [hbegin] at hold ⊢
      omega
    · rw [lookup_erase_ne hsame]
      simp [Ne.symm hsame]
      exact hold
  · intro u hu
    by_cases huv : u = v
    · exact .inr ⟨kbID, by rw [huv], huv ▸ hrec⟩
    · rw [update_of_ne huv] at hu
      exact .inl hu
  · exact fun u hu => update_of_ne (ne_of_mem_of_not_mem hu hnew) _ _
  · simp +contextual [versions]

lemma Mirrors.writes (hrec : ¬ w.reclaimable kbID v keepThrough = true) :
    Mirrors w keepThrough maxCursor (log ++ [Record.versionID kbID v]) := by
  generalize hout : rewrittenLog w keepThrough maxCursor log = out
  have hkey : bd.kbID = kbID := (waiting_source hbegin).1
  have hwaits := h.unwaited hbegin
  have hunwaited : (waiting out).version = none := hout ▸ h.version.trans hwaits
  have hwaiting := waiting_versionID_of_some v hkb hbegin
  have hstep := h.step_paired hkb (v := v) hbegin
  rw [if_neg hrec] at hstep
  have hfirst := waiting_begin_of_none bd hunwaited
  have hlook : (waiting (out ++ [Record.begin bd])).begins.lookup kbID = some bd := by
    rw [hfirst, hkey]
    exact lookup_insert ..
  have hsecond := waiting_versionID_of_some v hkb hlook
  have hboundOut : boundBy (out ++ [Record.begin bd] ++ [Record.versionID kbID v]) =
      update (boundBy out) v (some bd) := by
    rw [boundBy_paired hkb hlook, boundBy_begin, hunwaited]
    rfl
  refine h.snoc hout [.begin bd, .versionID kbID v] hstep (h.queue_paired hkb hbegin) ?_ ?_
    (h.settled_paired hkb hbegin) ?_ (fun _ => .inl) (fun _ _ => rfl) ?_
  all_goals try rw [append_cons out]
  · rw [hsecond, hfirst, hwaiting]
    exact hunwaited.trans hwaits.symm
  · intro u
    rw [hboundOut, boundBy_paired hkb hbegin]
    by_cases huv : u = v
    · simp [huv, kept_of_new h hnew]
    · simp only [update_of_ne huv, ← hout]
      exact h.bound u
  · intro kb
    have hold := h.leftover kb
    rw [hout] at hold
    rw [hsecond, hfirst, hwaiting, unpaired_versionID, count_erase]
    by_cases hsame : kb = kbID
    · subst hsame
      simp [lookup_erase]
    have hne : kb ≠ bd.kbID := by rwa [hkey]
    rw [lookup_erase_ne hsame, lookup_erase_ne hsame, lookup_insert_ne hne]
    simp [Ne.symm hsame]
    exact hold
  · intro u
    simp only [versions, filterMap_cons, filterMap_nil, mem_singleton, iff_self_and]
    rintro rfl
    exact kept_of_new h hnew

end

end

lemma BeginFirst.mirrors (hlog : BeginFirst log) : Mirrors w keepThrough maxCursor log := by
  induction hlog with
  | nil => exact .nil
  | begin bd _ hwaits ih => exact ih.begin bd hwaits
  | @versionID log kbID v _ hkb hv hnew htaken ih =>
    cases hbegin : (waiting log).begins.lookup kbID with
    | some bd =>
      by_cases hrec : w.reclaimable kbID v keepThrough = true
      · exact ih.reclaims hkb hnew hbegin hrec
      · exact ih.writes hkb hnew hbegin hrec
    | none =>
      refine ih.lone hkb hv hnew (htaken.resolve_left ?_)
      simp [hbegin]
  | other _ hpairs ih => exact ih.other hpairs

end Simulation

/-! ### The index of a rewritten log -/

lemma rebuild_index (log : List Record) : (rebuild log).index = log.foldl Index.apply {} := by
  induction log using reverseRecOn with
  | nil => rfl
  | append_singleton log r ih =>
    rw [rebuild_snoc, foldl_append, ← ih]
    rfl

lemma rebuild_index_eq (log : List Record) : (rebuild log).index =
      { (log.filter fun r => !r.pairs).foldl Index.apply {} with
        versionIDsWritten := fun v => decide (v ∈ versions log) } := by
  induction log using reverseRecOn with
  | nil => rfl
  | append_singleton log r ih =>
  rw [rebuild_snoc, versions_append, filter_append, foldl_append]
  change Index.apply _ _ = _
  rw [ih]
  generalize (log.filter fun r => !r.pairs).foldl Index.apply {} = ix
  cases r with
  | versionID kbID v =>
    have hwritten : update (fun u => decide (u ∈ versions log)) v true =
        fun u => decide (u ∈ versions log ++ versions [.versionID kbID v]) := by
      funext u
      by_cases huv : u = v
      all_goals simp [huv, versions]
    simp [Index.apply, pairs, hwritten]
  | cursor kbID v =>
    by_cases hbelow : (ix.cursors kbID).getD 0 < v <;>
      simp [Index.apply, Index.cursor, pairs, hbelow, versions]
  | _ => simp [pairs, Index.apply, versions]

lemma Index.cursor_le_apply (ix : Index) (r : Record) (kbID : Bytes) :
    ix.cursor kbID ≤ (ix.apply r).cursor kbID := by
  cases r with
  | cursor kb v =>
    rw [Index.apply]
    split
    · next hbelow =>
      by_cases hkb : kbID = kb
      · subst hkb
        simp only [Index.cursor, update_self]
        exact Int64.le_of_lt hbelow
      · simp only [Index.cursor, update_of_ne hkb]
        exact Int64.le_refl _
    · exact Int64.le_refl _
  | _ => exact Int64.le_refl _

lemma Index.foldl_cursor_pos (log : List Record)
    (hcursor : (log.foldl Index.apply {}).cursors kbID = some v) : 0 < v := by
  induction log using reverseRecOn generalizing v with
  | nil => cases hcursor
  | append_singleton log r ih =>
  rw [foldl_append] at hcursor
  cases r with
  | cursor kb u =>
    simp only [foldl_cons, foldl_nil, Index.apply] at hcursor
    split at hcursor
    · next hbelow =>
      by_cases hkb : kbID = kb
      · subst hkb
        simp only [update_self, Option.some.injEq] at hcursor
        subst hcursor
        cases hold : (log.foldl Index.apply {}).cursors kbID with
        | none =>
          rw [Index.cursor, hold] at hbelow
          exact hbelow
        | some m =>
          rw [Index.cursor, hold] at hbelow
          exact Int64.lt_trans (ih hold) hbelow
      · simp only [update_of_ne hkb] at hcursor
        exact ih hcursor
    · exact ih hcursor
  | _ => exact ih hcursor

/-- What the records outside the pairing say. -/
def marks (log : List Record) : Index := (log.filter fun r => !r.pairs).foldl Index.apply {}

lemma marks_of_pairs (log : List Record) (hpairs : r.pairs = true) :
    marks (log ++ [r]) = marks log := by
  simp [marks, hpairs]

lemma marks_of_not_pairs (log : List Record) (hpairs : r.pairs = false) :
    marks (log ++ [r]) = (marks log).apply r := by
  simp [marks, hpairs]

lemma maxCursorByKB_eq (log : List Record) :
    maxCursorByKB (log.map Record.raw) = (marks log).cursor := by
  induction log using reverseRecOn with
  | nil => rfl
  | append_singleton log r ih =>
  rw [maxCursorByKB, map_append, foldl_append]
  change maxCursorStep (maxCursorByKB _) r.raw = _
  rw [ih]
  cases hpairs : r.pairs with
  | true =>
    rw [marks_of_pairs log hpairs]
    cases r with
    | begin | versionID => rfl
    | _ => cases hpairs
  | false =>
    rw [marks_of_not_pairs log hpairs]
    cases r with
    | cursor kbID v =>
      simp only [maxCursorStep, Record.raw, Index.apply]
      split
      · funext kb
        by_cases hkb : kb = kbID
        all_goals simp [hkb, Index.cursor]
      · rfl
    | begin | versionID => cases hpairs
    | _ => rfl

/-- The cursors left when only those equal to a bound are kept. -/
def atBound (bound : Bytes → Int64) (cursors : Bytes → Option Int64) (kbID : Bytes) :
    Option Int64 :=
  if cursors kbID = some (bound kbID) then some (bound kbID) else none

variable (bound : Bytes → Int64)

lemma atBound_update (cursors : Bytes → Option Int64) (kbID : Bytes) (cursor : Option Int64) :
    atBound bound (update cursors kbID cursor) =
      update (atBound bound cursors) kbID
        (if cursor = some (bound kbID) then some (bound kbID) else none) := by
  funext kb
  by_cases hkb : kb = kbID
  all_goals simp [hkb, atBound]

/-- A cursor that is kept or dropped by the bound moves both indexes alike. -/
lemma copies_cursor (ix : Index) (kbID : Bytes) (v : Int64)
    (hpos : ∀ m, ix.cursors kbID = some m → 0 < m)
    (hbound : (ix.apply (.cursor kbID v)).cursor kbID ≤ bound kbID) : (if v = bound kbID then
        Index.apply { ix with cursors := atBound bound ix.cursors } (.cursor kbID v)
      else { ix with cursors := atBound bound ix.cursors }) =
      { ix.apply (.cursor kbID v) with
        cursors := atBound bound (ix.apply (.cursor kbID v)).cursors } := by
  by_cases hmoves : ix.cursor kbID < v
  · -- The cursor moves to `v`, so it was below the bound and the kept ones say nothing yet.
    have happly : ix.apply (.cursor kbID v) =
        { ix with cursors := update ix.cursors kbID (some v) } := if_pos hmoves
    have hle : v ≤ bound kbID := by simpa [happly, Index.cursor] using hbound
    have hnone : atBound bound ix.cursors kbID = none := by
      refine if_neg fun hat => ?_
      rw [Index.cursor, hat] at hmoves
      exact Int64.lt_irrefl (Int64.lt_of_lt_of_le hmoves hle)
    have hv : 0 < v := by
      cases hcursor : ix.cursors kbID with
      | none =>
        rw [Index.cursor, hcursor] at hmoves
        exact hmoves
      | some m =>
        rw [Index.cursor, hcursor] at hmoves
        exact Int64.lt_trans (hpos m hcursor) hmoves
    rw [happly]
    rw [atBound_update]
    by_cases hmax : v = bound kbID
    · rw [if_pos hmax, Index.apply, if_pos (by simpa [Index.cursor, hnone] using hv)]
      simp [← hmax]
    · rw [if_neg hmax, if_neg (by simpa using hmax), ← hnone, update_eq_self]
  · have happly : ix.apply (.cursor kbID v) = ix := if_neg hmoves
    rw [happly] at hbound ⊢
    by_cases hmax : v = bound kbID
    · rw [if_pos hmax, Index.apply, if_neg]
      intro hkept
      apply hmoves
      simp only [Index.cursor, atBound] at hkept hbound ⊢
      split at hkept
      · exact absurd (hmax ▸ hkept) Int64.lt_irrefl
      next hat =>
      cases hcursor : ix.cursors kbID with
      | none => exact hkept
      | some m =>
        rw [hcursor] at hat hbound
        refine Int64.lt_of_le_of_ne (hmax ▸ hbound) fun hm => hat ?_
        rw [show m = v from hm, hmax]
    · exact if_neg hmax

/-- Dropping the cursors below a bound that all of them respect leaves the rest of the index
as it was. -/
lemma foldl_copies (log : List Record) (hbound : ∀ kbID, (marks log).cursor kbID ≤ bound kbID) :
    (log.filter (copies bound)).foldl Index.apply {} =
      { marks log with cursors := atBound bound (marks log).cursors } := by
  induction log using reverseRecOn with
  | nil => rfl
  | append_singleton log r ih =>
  rw [filter_append, foldl_append]
  cases hpairs : r.pairs with
  | true =>
    have hdrop : [r].filter (copies bound) = [] := by
      cases r with
      | begin | versionID => rfl
      | _ => cases hpairs
    rw [marks_of_pairs log hpairs] at hbound ⊢
    rw [ih hbound, hdrop]
    rfl
  | false =>
    rw [marks_of_not_pairs log hpairs] at hbound ⊢
    rw [ih fun kbID => Int64.le_trans (Index.cursor_le_apply ..) (hbound kbID)]
    generalize hix : marks log = ix at hbound ⊢
    cases r with
    | begin | versionID => cases hpairs
    | cursor kbID v =>
      have hpos (m : Int64) (hm : ix.cursors kbID = some m) : 0 < m := by
        rw [← hix] at hm
        exact Index.foldl_cursor_pos _ hm
      rw [← copies_cursor bound ix kbID v hpos (hbound kbID)]
      by_cases hmax : v = bound kbID
      all_goals simp [copies, hmax]
    | _ => rfl

lemma atBound_cursor (ix : Index) : atBound ix.cursor ix.cursors = ix.cursors := by
  funext kbID
  cases hcursor : ix.cursors kbID with
  | none => simp [atBound, hcursor]
  | some v => simp [atBound, Index.cursor, hcursor]

/-- A reader of the rewritten log finds the index of the log, without the reclaimed
versions. -/
lemma Mirrors.index (h : Mirrors w keepThrough (marks log).cursor log) :
    (rebuild (rewrittenLog w keepThrough (marks log).cursor log)).index =
      { (rebuild log).index with
        versionIDsWritten := fun v => (rebuild log).index.versionIDsWritten v &&
          !(rewriteOf w keepThrough (marks log).cursor log).reclaimed v } := by
  have hmarks := foldl_copies (marks log).cursor log fun kbID => Int64.le_refl _
  have hwritten : (fun v => decide (v ∈ versions (rewrittenLog w keepThrough (marks log).cursor log))) =
      fun v => decide (v ∈ versions log) &&
        !(rewriteOf w keepThrough (marks log).cursor log).reclaimed v := by
    funext v
    rw [decide_eq_decide.mpr (h.kept v), Bool.decide_and]
    simp
  rw [rebuild_index_eq, rebuild_index_eq log, (rewriteOf_copied w keepThrough _ log).copied, hmarks,
    atBound_cursor, hwritten]
  rfl

/-! ### The BEGIN records behind a rewritten log -/

lemma boundBy_append_begins (hwaits : (waiting log).version = none)
    (htail : ∀ r ∈ tail, ∃ bd, r = .begin bd) : boundBy (log ++ tail) = boundBy log := by
  induction tail generalizing log with
  | nil => rw [append_nil]
  | cons r tail ih =>
  obtain ⟨bd, rfl⟩ := htail r mem_cons_self
  have hwaits' : (waiting (log ++ [Record.begin bd])).version = none := by
    rw [waiting_begin_of_none bd hwaits]
    exact hwaits
  rw [← singleton_append, ← append_assoc,
    ih hwaits' fun r hr => htail r (mem_cons_of_mem _ hr), boundBy_begin, hwaits]
  rfl

lemma index_append_begins (log : List Record) (htail : ∀ r ∈ tail, ∃ bd, r = .begin bd) :
    (rebuild (log ++ tail)).index = (rebuild log).index := by
  rw [rebuild_index, rebuild_index, foldl_append]
  induction tail with
  | nil => rfl
  | cons r tail ih =>
    obtain ⟨bd, rfl⟩ := htail r mem_cons_self
    exact ih fun r hr => htail r (mem_cons_of_mem _ hr)

lemma flatMap_raw {records : List RawRecord} (hraw : ∀ raw ∈ records, raw = raw.record.raw) :
    records.flatMap RawRecord.raw = (records.map RawRecord.record).flatMap frame := by
  induction records with
  | nil => rfl
  | cons raw records ih =>
    rw [flatMap_cons, ih fun raw hr => hraw raw (mem_cons_of_mem _ hr),
      congrArg RawRecord.raw (hraw raw mem_cons_self)]
    rfl

/-! ### Compaction preserves recovery -/

/-- What compaction promises for `w`: the same entries for every version that is uncommitted
or above the watermark of its knowledge base, and the same marks and cursors. -/
structure Preserved (w : FileWAL) (keepThrough : Bytes → Option Int64) (w' : FileWAL) : Prop where
  changes : ∀ kbID v, .versionID kbID v ∈ w.log →
    (w.index.committedVersions v = false ∨
      ∀ watermark, keepThrough kbID = some watermark → watermark < v) →
    ∀ kb f t, w'.changesInRange kb f t v = w.changesInRange kb f t v
  recover : ∀ kbID v, .versionID kbID v ∈ w.log →
    (w.index.committedVersions v = false ∨
      ∀ watermark, keepThrough kbID = some watermark → watermark < v) →
    ∀ rec, rec.type = .versionWrite → rec.versionID = v → w'.recover rec = w.recover rec
  marks : ∀ rec, rec.type ≠ .versionWrite → w'.recover rec = w.recover rec
  cursors : w'.recoverCursors = w.recoverCursors

/-- Compacting `w`, with any watermarks and in whatever order the map yields what waits, and
then opening the compacted file, both preserve recovery. -/
def CompactsSafely (w : FileWAL) : Prop :=
  ∀ keepThrough order, (∀ records, (order records).Perm records) →
    ∃ w' w'', w.compact keepThrough order = .ok w' ∧ newFileWAL w'.file = .ok w'' ∧
      Preserved w keepThrough w' ∧ Preserved w keepThrough w''

/-- A version that must be preserved is not reclaimed: its VERSION_ID is the only one. -/
lemma Mirrors.not_reclaimed {maxCursor : Bytes → Int64} (h : Mirrors w keepThrough maxCursor log)
    (honce : ∀ kb kb' u, .versionID kb u ∈ log → .versionID kb' u ∈ log → kb = kb')
    (hmem : .versionID kbID v ∈ log)
    (hkeep : w.index.committedVersions v = false ∨ ∀ watermark, keepThrough kbID = some watermark →
      watermark < v) : (rewriteOf w keepThrough maxCursor log).reclaimed v = false := by
  by_contra hdone
  obtain ⟨kb, hkb, hrec⟩ := h.reclaimed v (Bool.not_eq_false _ ▸ hdone)
  rw [honce kb kbID v hkb hmem, reclaimable] at hrec
  split at hrec
  · cases hrec
  next watermark hwatermark =>
  split at hrec
  · cases hrec
  next habove =>
  rcases hkeep with huncommitted | hall
  · rw [huncommitted] at hrec
    cases hrec
  · exact habove (hall watermark hwatermark)

lemma BeginFirst.once (hlog : BeginFirst log) {kb kb' : Bytes} {u : Int64}
    (hmem : .versionID kb u ∈ log) (hmem' : .versionID kb' u ∈ log) : kb = kb' := by
  induction hlog with
  | nil => cases hmem
  | begin bd _ _ ih =>
    simp only [mem_append, mem_singleton, reduceCtorEq, or_false] at hmem hmem'
    exact ih hmem hmem'
  | @versionID log kbID v _ _ _ hnew _ ih =>
    simp only [mem_append, mem_singleton, versionID.injEq] at hmem hmem'
    rcases hmem with hold | ⟨rfl, rfl⟩ <;> rcases hmem' with hold' | ⟨rfl, hsame⟩
    · exact ih hold hold'
    · exact absurd (mem_versions.mpr ⟨kb, hsame ▸ hold⟩) hnew
    · exact absurd (mem_versions.mpr ⟨kb', hold'⟩) hnew
    · rfl
  | @other log r _ hpairs ih =>
    have hold (kbID : Bytes) (h : .versionID kbID u ∈ log ++ [r]) : .versionID kbID u ∈ log := by
      rcases mem_append.mp h with h | h
      · exact h
      · rw [← mem_singleton.mp h] at hpairs
        cases hpairs
    exact ih (hold kb hmem) (hold kb' hmem')

lemma preserved_of_agree {w w' : FileWAL} {keepThrough : Bytes → Option Int64}
    (hagree : ∀ kbID v, .versionID kbID v ∈ w.log →
      (w.index.committedVersions v = false ∨
        ∀ watermark, keepThrough kbID = some watermark → watermark < v) →
      w'.beginDataByVersion v = w.beginDataByVersion v ∧
        w'.index.versionIDsWritten v = w.index.versionIDsWritten v ∧
        w'.index.committedVersions v = w.index.committedVersions v)
    (hmarks : { w'.index with
        versionIDsWritten := w.index.versionIDsWritten
        committedVersions := w.index.committedVersions } = w.index) :
    Preserved w keepThrough w' where
  changes kbID v hmem hkeep kb f t := by
    rw [changesInRange, (hagree kbID v hmem hkeep).1]
    rfl
  recover kbID v hmem hkeep rec htype hv := by
    subst hv
    obtain ⟨hbound, hwritten, hcommitted⟩ := hagree kbID rec.versionID hmem hkeep
    simp only [recover, htype, versionWrite, hbound, hwritten, hcommitted]
    rfl
  marks rec htype := by
    cases hrec : rec.type with
    | versionWrite => exact absurd hrec htype
    | deleteMark | versionDelete =>
      simp only [recover, hrec]
      rw [← hmarks]
  cursors := by
    rw [recoverCursors, recoverCursors, ← hmarks]

lemma Stored.compact (hstored : Stored w log) (keepThrough : Bytes → Option Int64)
    (order : List RawRecord → List RawRecord) :
    w.compact keepThrough order = .ok (w.compacted keepThrough order (log.map Record.raw)) := by
  rw [FileWAL.compact, hstored.file, readLog_frames hstored.sane]
  rfl

lemma rewrite_eq (w : FileWAL) (keepThrough : Bytes → Option Int64) (log : List Record) :
    w.rewrite keepThrough (log.map Record.raw) = rewriteOf w keepThrough (marks log).cursor log := by
  rw [rewrite, maxCursorByKB_eq]
  rfl

/-- The file behind a compaction: the rewritten log, and the BEGIN records still waiting. -/
lemma compacted_file {order : List RawRecord → List RawRecord} (log : List Record)
    (horder : ∀ records, (order records).Perm records) :
    ∃ tail, (w.compacted keepThrough order (log.map Record.raw)).file =
        (rewrittenLog w keepThrough (marks log).cursor log ++ tail).flatMap frame ∧
      (∀ r ∈ tail, ∃ bd, r = .begin bd ∧ r ∈ log) ∧
      ((∀ kbID, (rewriteOf w keepThrough (marks log).cursor log).pending.lookup kbID = none) →
        tail = []) := by
  have h := rewriteOf_copied w keepThrough (marks log).cursor log
  let pending := (rewriteOf w keepThrough (marks log).cursor log).pending.entries.map Sigma.snd
  have hlook (raw : RawRecord) (hraw : raw ∈ order pending) : ∃ kbID,
      (rewriteOf w keepThrough (marks log).cursor log).pending.lookup kbID = some raw := by
    obtain ⟨⟨kbID, raw'⟩, hentry, rfl⟩ := mem_map.mp ((horder pending).mem_iff.mp hraw)
    exact ⟨kbID, mem_lookup_iff.mpr hentry⟩
  refine ⟨(order pending).map RawRecord.record, ?_, ?_, ?_⟩
  · rw [compacted, rewrite_eq]
    rw [flatMap_raw, map_append]
    · rfl
    intro raw hraw
    rcases mem_append.mp hraw with hout | htail
    · obtain ⟨_, -, rfl⟩ := h.out raw hout
      rfl
    · obtain ⟨kbID, hpending⟩ := hlook raw htail
      obtain ⟨_, -, rfl⟩ := h.pending kbID raw hpending
      rfl
  · intro r hr
    obtain ⟨raw, hraw, rfl⟩ := mem_map.mp hr
    obtain ⟨kbID, hpending⟩ := hlook raw hraw
    obtain ⟨bd, hbd, rfl⟩ := h.pending kbID raw hpending
    exact ⟨bd, rfl, hbd⟩
  intro hnone
  rw [map_eq_nil_iff, eq_nil_iff_forall_not_mem]
  intro raw hraw
  obtain ⟨kbID, hpending⟩ := hlook raw hraw
  rw [hnone kbID] at hpending
  cases hpending

/-- The records of a compacted file are records of the log, and the reader of it finds the cursors
it had. -/
lemma compacted_records (log : List Record) {order : List RawRecord → List RawRecord}
    (horder : ∀ records, (order records).Perm records) :
    ∃ log', (w.compacted keepThrough order (log.map Record.raw)).file = log'.flatMap frame ∧
      (∀ r ∈ log', r ∈ log) ∧ (rebuild log').index.cursors = (rebuild log).index.cursors := by
  obtain ⟨tail, hfile, hbegins, -⟩ := compacted_file log horder
  have htail (r : Record) (hr : r ∈ tail) : ∃ bd, r = .begin bd := (hbegins r hr).imp fun _ => And.left
  refine ⟨_, hfile, fun r hr => ?_, ?_⟩
  · rcases mem_append.mp hr with hout | hadded
    · exact mem_of_mem_rewrittenLog w keepThrough _ hout
    · obtain ⟨_, -, hmem⟩ := hbegins r hadded
      exact hmem
  · rw [index_append_begins _ htail, rebuild_index_eq, rebuild_index_eq log,
      (rewriteOf_copied w keepThrough _ log).copied,
      foldl_copies (marks log).cursor log fun kbID => Int64.le_refl _]
    exact atBound_cursor (marks log)

/-- A compacted file of a log whose BEGIN records come first binds what the log binds, without the
reclaimed versions. -/
lemma Mirrors.boundBy_tail (h : Mirrors w keepThrough (marks log).cursor log)
    (htail : ∀ r ∈ tail, ∃ bd, r = .begin bd)
    (hempty : (∀ kbID, (rewriteOf w keepThrough (marks log).cursor log).pending.lookup kbID = none) →
      tail = []) (v : Int64) :
    boundBy (rewrittenLog w keepThrough (marks log).cursor log ++ tail) v =
      if (rewriteOf w keepThrough (marks log).cursor log).reclaimed v then none
      else boundBy log v := by
  by_cases hwaits : (waiting log).version = none
  · rw [boundBy_append_begins (h.version.trans hwaits) htail]
    exact h.bound v
  · rw [hempty fun kbID => ?_, append_nil]
    · exact h.bound v
    · rw [h.queue, (h.lookup_of_settled (h.settled hwaits) kbID).1]
      rfl

/-- A log whose BEGIN records come first, and whose bindings in memory are those of the
file, is compacted safely. -/
lemma Session.compactsSafely {w : FileWAL} {log : List Record} (hsession : Session w log)
    (hlog : BeginFirst log) (hbound : w.beginDataByVersion = boundBy log) : CompactsSafely w := by
  intro keepThrough order horder
  have h : Mirrors w keepThrough (marks log).cursor log := hlog.mirrors
  obtain ⟨tail, hfile, hbegins, hempty⟩ := compacted_file log horder
  have htail : ∀ r ∈ tail, ∃ bd, r = .begin bd := fun r hr =>
    let ⟨bd, hbd, _⟩ := hbegins r hr
    ⟨bd, hbd⟩
  have hsane : ∀ r ∈ rewrittenLog w keepThrough (marks log).cursor log ++ tail, r.Sane := by
    intro r hr
    rcases mem_append.mp hr with hout | hadded
    · exact hsession.sane r (mem_of_mem_rewrittenLog w keepThrough _ hout)
    · obtain ⟨_, _, hmem⟩ := hbegins r hadded
      exact hsession.sane r hmem
  have hopen := newFileWAL_frames hsane
  rw [← hfile] at hopen
  refine ⟨_, _, hsession.toStored.compact keepThrough order, hopen, ?_, ?_⟩
  · -- In memory only the reclaimed versions are forgotten.
    refine preserved_of_agree (fun kbID v hmem hkeep => ?_) rfl
    rw [hsession.log] at hmem
    have hkept := h.not_reclaimed (fun _ _ _ => hlog.once) hmem hkeep
    simp [compacted, rewrite_eq, hkept]
  have hindex := h.index
  have hlogIndex := hsession.index
  refine preserved_of_agree (fun kbID v hmem hkeep => ?_) ?_
  · rw [hsession.log] at hmem
    have hkept := h.not_reclaimed (fun _ _ _ => hlog.once) hmem hkeep
    have hboundOut : boundBy (rewrittenLog w keepThrough (marks log).cursor log ++ tail) v =
        boundBy log v := by
      rw [h.boundBy_tail htail hempty v, hkept]
      rfl
    refine ⟨?_, ?_, ?_⟩
    · rw [hbound]
      exact hboundOut
    · simp only [index_append_begins _ htail, hindex, hlogIndex, hkept, Bool.not_false,
        Bool.and_true]
    · simp only [index_append_begins _ htail, hindex, hlogIndex]
  · simp only [index_append_begins _ htail, hindex, hlogIndex]

/-- A BEGIN is written while no VERSION_ID waits, and a VERSION_ID of a named knowledge base
while the same BEGIN of it waits in memory and in the file, or none is left over there. -/
def BeginsFirst (w : FileWAL) : Action → Prop
  | .write (.begin bd) =>
    (waiting w.log).version = none ∧ w.pendingVersionIDByKB bd.kbID = none
  | .write (.versionID kbID v) => w.index.versionIDsWritten v = true ∨ kbID ≠ [] ∧
    w.pendingBeginByKB kbID = (waiting w.log).begins.lookup kbID ∧
    ((w.pendingBeginByKB kbID).isSome ∨ unpaired w.log = [])
  | _ => True

instance (w : FileWAL) (a : Action) : Decidable (BeginsFirst w a) := by
  induction a using Action.casesOn with
  | write r => induction r using Record.casesOn <;> dsimp only [BeginsFirst] <;> infer_instance
  | reopen => dsimp only [BeginsFirst]; infer_instance

lemma BeginFirst.write (hsession : Session w log) (hlog : BeginFirst log)
    (hreadable : (Action.write r).Readable) (hfirst : BeginsFirst w (.write r)) :
    InStep w r ∧ BeginFirst (w.logAfter log r) := by
  cases hrec : w.recorded r with
  | true =>
    rw [logAfter, if_pos hrec]
    refine ⟨?_, hlog⟩
    cases r with
    | begin bd => cases hrec
    | versionID kbID v => exact .inl hrec
    | _ => trivial
  | false =>
    rw [logAfter, if_neg (Bool.eq_false_iff.mp hrec)]
    cases r with
    | begin bd =>
      obtain ⟨hdisk, hmemory⟩ := hfirst
      refine ⟨hmemory.trans hdisk.symm, .begin bd hlog ?_⟩
      rw [← hsession.log]
      exact hdisk
    | versionID kbID v =>
      have hnew : w.index.versionIDsWritten v = false := hrec
      rcases hfirst with hwritten | ⟨hkb, hsame, htaken⟩
      · rw [hnew] at hwritten
        cases hwritten
      refine ⟨.inr (hsame.trans (Waiting.begin_of_ne _ hkb).symm), .versionID hlog hkb ?_ ?_ ?_⟩
      · rintro rfl
        exact Int64.lt_irrefl hreadable.2
      · intro hmem
        rw [hsession.index, rebuild_index_eq] at hnew
        exact of_decide_eq_false hnew hmem
      · rw [hsession.log] at hsame htaken
        rw [← hsame]
        exact htaken
    | _ => exact ⟨trivial, .other hlog rfl⟩

/-- Compaction preserves recovery in every state of a run of writes and restarts in which
BEGIN records come first. -/
theorem compactsSafely_of_beginsFirst {w : FileWAL}
    (hreach : Reach act (fun w a => a.Readable ∧ BeginsFirst w a) {} w) :
    CompactsSafely w := by
  have hinv : ∃ log, Session w log ∧ BeginFirst log ∧ w.beginDataByVersion = boundBy log := by
    refine hreach.invariant (fun w => ∃ log, Session w log ∧ BeginFirst log ∧
      w.beginDataByVersion = boundBy log) ⟨[], Session.empty, .nil, rfl⟩ ?_
    rintro t t' a - ⟨log, hsession, hlog, hbound⟩ ⟨hreadable, hfirst⟩ hstep
    cases a with
    | write r =>
      cases hstep
      obtain ⟨hin, hlog'⟩ := hlog.write hsession hreadable hfirst
      have hsession' := hsession.write hreadable
      have hsame := (hsession.write_reopensSame_iff hreadable
        (hsession.reopensSame_iff.mpr hbound)).mpr hin
      exact ⟨_, hsession', hlog', hsession'.reopensSame_iff.mp hsame⟩
    | reopen =>
      rw [act, hsession.newFileWAL] at hstep
      cases hstep
      exact ⟨log, hsession.reopened, hlog, rfl⟩
  obtain ⟨log, hsession, hlog, hbound⟩ := hinv
  exact hsession.compactsSafely hlog hbound

/-- An abandoned write and two committed ones, with a restart in between. -/
def inlineWrites : List Action :=
  [.write (.begin { kbID := [97] }), .write (.begin { kbID := [97], parentVersionID := 1 }),
    .write (.versionID [97] 2), .write (.begin { kbID := [98] }), .write (.versionID [98] 3),
    .write (.commit 2), .reopen, .write (.cursor [97] 2), .write (.commit 3)]

theorem inlineWrites_compactsSafely :
    ∃ w, Reach act (fun w a => a.Readable ∧ BeginsFirst w a) {} w ∧
      w.index.committedVersions 3 = true ∧ CompactsSafely w := by
  obtain ⟨w, hreach, hcommitted⟩ : ∃ w, Reach act (fun w a => a.Readable ∧ BeginsFirst w a) {} w ∧
      w.index.committedVersions 3 = true :=
    Reach.exists_decide inlineWrites (by decide +kernel)
  exact ⟨w, hreach, hcommitted, compactsSafely_of_beginsFirst hreach⟩

/-- One write in each of two knowledge bases, its VERSION_ID applied before its BEGIN. -/
def dispatched : List Record :=
  [.versionID [97] 1, .begin { kbID := [97], changes := [⟨0, [100], [49]⟩] }, .versionID [98] 2,
    .begin { kbID := [98], changes := [⟨0, [100], [50]⟩] }]

/-- The log a compaction leaves of it, for one of the two orders the map may yield. -/
def trailing : List Record :=
  [.versionID [97] 1, .versionID [98] 2, .begin { kbID := [97], changes := [⟨0, [100], [49]⟩] },
    .begin { kbID := [98], changes := [⟨0, [100], [50]⟩] }]

/-- No version is reclaimed, and yet the uncommitted version of `b` is replayed with the
changes of `a` after a compaction and a restart. -/
theorem compact_rebinds_dispatched :
    ∃ w w' w'', w = ({} : FileWAL).writeAll dispatched ∧
      w.compact (fun _ => none) List.reverse = .ok w' ∧ newFileWAL w'.file = .ok w'' ∧
      w.versionWrite 2 =
        { type := .versionWrite, kbID := [98], versionID := 2, changes := [⟨0, [100], [50]⟩] } ∧
      w''.recover
        { type := .versionWrite, kbID := [97], versionID := 2, changes := [⟨0, [100], [49]⟩] } =
          true := by
  have hsession := (((Session.empty.write (r := .versionID [97] 1) ⟨by decide, by decide⟩).write
    (r := .begin { kbID := [97], changes := [⟨0, [100], [49]⟩] }) (show Record.Sane _ by decide)).write
    (r := .versionID [98] 2) ⟨by decide, by decide⟩).write
    (r := .begin { kbID := [98], changes := [⟨0, [100], [50]⟩] }) (show Record.Sane _ by decide)
  have hstored : Stored (({} : FileWAL).writeAll dispatched) dispatched := hsession.toStored
  have hfile : ((({} : FileWAL).writeAll dispatched).compacted (fun _ => none) reverse
      (dispatched.map Record.raw)).file = (trailing.map Record.raw).flatMap RawRecord.raw := by
    congr 1
  have hraw : ∀ raw ∈ trailing.map Record.raw, raw = raw.record.raw := by
    intro raw hraw
    obtain ⟨r, -, rfl⟩ := mem_map.mp hraw
    rfl
  have hopen := newFileWAL_frames (show ∀ r ∈ trailing, r.Sane by decide)
  exact ⟨_, _, _, rfl, hstored.compact _ _, hopen, by decide, by decide⟩

end stratum.wal
