import Stratum.Wal.DeleteByKB

open stratum.lib List

namespace stratum.wal

open FileWAL AList

/-! Whose replay input a version is given. A BEGIN record does not name its version, so the
runs here remember for which version each `WriteBegin` was called. -/

/-- A node's log, and the `WriteBegin` calls made so far with the version each was for. -/
structure Node where
  fileWAL : FileWAL := {}
  begun : List (Int64 × BeginData) := []

inductive Event
  /-- The creation of a version is applied: `WriteVersionID`. -/
  | apply (kbID : Bytes) (versionID : Int64)
  /-- A local write, a retry of one or a backfill of the version starts: `WriteBegin`. -/
  | begin (versionID : Int64) (begin : BeginData)
  /-- Any other `Write*` call. -/
  | other (call : Record)
  /-- The log is compacted; `order` is the one in which the map yields what waits. -/
  | compact (keepThrough : Bytes → Option Int64)
      (order : { order : List RawRecord → List RawRecord // ∀ records, (order records).Perm records })
  | deleteByKB (kbID : Bytes)
  | restart

namespace Node

def step (n : Node) : Event → Option Node
  | .apply kbID v => some { n with fileWAL := n.fileWAL.write (.versionID kbID v) }
  | .begin v bd => some { fileWAL := n.fileWAL.write (.begin bd), begun := (v, bd) :: n.begun }
  | .other call => some { n with fileWAL := n.fileWAL.write call }
  | .compact keepThrough order =>
    (n.fileWAL.compact keepThrough order).toOption.map fun fileWAL => { n with fileWAL }
  | .deleteByKB kbID => (n.fileWAL.deleteByKB kbID).toOption.map fun fileWAL => { n with fileWAL }
  | .restart => (newFileWAL n.fileWAL.file).toOption.map fun fileWAL => { n with fileWAL }

/-- `WriteBegin` was called for the version with this parent and these changes. -/
def Begun (n : Node) (v parentVersionID : Int64) (changes : List DocChange) : Prop :=
  ∃ call ∈ n.begun, call.1 = v ∧ call.2.parentVersionID = parentVersionID ∧ call.2.changes = changes
  deriving Decidable

/-- What `w` answers for a version is what `WriteBegin` was called with for it; an entry of
`Recover` without changes carries no replay input. -/
structure Own (n : Node) (w : FileWAL) : Prop where
  changes : ∀ kbID f t v d, w.changesInRange kbID f t v = some d →
    n.Begun v d.parentVersionID d.changes
  recover : ∀ rec, w.recover rec = true → rec.type = .versionWrite → rec.changes ≠ [] →
    n.Begun rec.versionID rec.parentVersionID rec.changes

/-- The answers given now, and those the next process would give. -/
def InputsOwn (n : Node) : Prop :=
  n.Own n.fileWAL ∧ ∀ w, newFileWAL n.fileWAL.file = .ok w → n.Own w

/-- A record is written for the version it will be paired with: what waits for it, in memory
or in the file, belongs to the same version. -/
def Matched (n : Node) : Event → Prop
  | .begin v bd => ∀ u,
    n.fileWAL.pendingVersionIDByKB bd.kbID = some u ∨ (waiting n.fileWAL.log).version = some u →
      u = v ∨ n.Begun u bd.parentVersionID bd.changes
  | .apply kbID v => n.fileWAL.index.versionIDsWritten v = true ∨ ∀ bd,
    n.fileWAL.pendingBeginByKB kbID = some bd ∨ (waiting n.fileWAL.log).begin kbID = some bd →
      n.Begun v bd.parentVersionID bd.changes
  | _ => True

/-- The log is rewritten only while its BEGIN records come first. What `DeleteByKB` takes for a
version of the knowledge base has its VERSION_ID there. -/
def Tidy (n : Node) : Event → Prop
  | .compact .. => BeginFirst n.fileWAL.log
  | .deleteByKB kbID => BeginFirst n.fileWAL.log ∧ ∀ r ∈ n.fileWAL.log,
    r.pairs = true → n.fileWAL.owned kbID r.parsedVersionID = true → r.parsedKBID = kbID
  | _ => True

end Node

def Event.Readable : Event → Prop
  | .apply kbID v => (Action.write (.versionID kbID v)).Readable
  | .begin _ bd => (Action.write (.begin bd)).Readable
  | .other call => (Action.write call).Readable ∧ call.pairs = false
  | .deleteByKB kbID => kbID ≠ []
  | .compact .. | .restart => True

instance (e : Event) : Decidable e.Readable := by
  cases e <;> unfold Event.Readable <;> infer_instance

variable {bd : BeginData} {n : Node} {v : Int64} {log : List Record} {fileWAL : FileWAL}
  {bound : Int64 → Option BeginData}

namespace Node

lemma matched_begin_iff : n.Matched (.begin v bd) ↔
      ∀ u ∈ [n.fileWAL.pendingVersionIDByKB bd.kbID, (waiting n.fileWAL.log).version].flatMap
        Option.toList, u = v ∨ n.Begun u bd.parentVersionID bd.changes := by
  simp [Matched, or_imp]

lemma matched_apply_iff {kbID : Bytes} :
    n.Matched (.apply kbID v) ↔ n.fileWAL.index.versionIDsWritten v = true ∨
      ∀ bd ∈ [n.fileWAL.pendingBeginByKB kbID, (waiting n.fileWAL.log).begin kbID].flatMap
        Option.toList, n.Begun v bd.parentVersionID bd.changes := by
  simp [Matched, or_imp]

-- The instance over the list is named: the one for finite types would try every version.
instance (n : Node) : (e : Event) → Decidable (n.Matched e)
  | .begin _ _ => @decidable_of_iff _ _ matched_begin_iff.symm (List.decidableBAll _ _)
  | .apply _ _ => decidable_of_iff _ matched_apply_iff.symm
  | .other _ | .compact .. | .deleteByKB _ | .restart => isTrue trivial

instance (n : Node) : (e : Event) → Decidable (n.Tidy e)
  | .compact .. => inferInstanceAs (Decidable (BeginFirst _))
  | .deleteByKB _ => inferInstanceAs (Decidable (BeginFirst _ ∧ ∀ r ∈ n.fileWAL.log, _))
  | .apply .. | .begin .. | .other _ | .restart => isTrue trivial

/-- Every binding is one `WriteBegin` was called with for the version. -/
def BoundOwn (n : Node) (bound : Int64 → Option BeginData) : Prop :=
  ∀ v bd, bound v = some bd → n.Begun v bd.parentVersionID bd.changes

lemma own_iff_boundOwn {w : FileWAL} (hpos : ∀ v, w.beginDataByVersion v ≠ none → 0 < v) :
    n.Own w ↔ n.BoundOwn w.beginDataByVersion := by
  constructor
  · intro hown v bd hbound
    have hv := hpos v (by rw [hbound]; exact Option.some_ne_none bd)
    exact hown.changes _ _ _ _ _ (changesInRange_of_bound hv hbound)
  · intro hbound
    refine ⟨fun kbID f t v d hd => hbound v _ (bound_of_changesInRange hd), ?_⟩
    intro rec hrec htype hchanges
    rw [recover, htype] at hrec
    have heq : rec = w.versionWrite rec.versionID := by
      simp only [Bool.and_eq_true] at hrec
      exact of_decide_eq_true hrec.2
    unfold versionWrite at heq
    split at heq
    · next bd hbd =>
      have hown := hbound rec.versionID bd hbd
      rw [heq]
      exact hown
    · rw [heq] at hchanges
      exact absurd rfl hchanges

/-- A log behind readable calls: every version in it or bound or waiting in memory is positive. -/
structure Holds (w : FileWAL) (log : List Record) : Prop where
  file : w.file = log.flatMap Record.frame
  sane : ∀ r ∈ log, r.Sane
  positive : ∀ v ∈ versions log, 0 < v
  bound : ∀ v, w.beginDataByVersion v ≠ none → 0 < v
  waits : ∀ kbID v, w.pendingVersionIDByKB kbID = some v → 0 < v

namespace Holds

variable {w : FileWAL} {r : Record} {kbID : Bytes} (h : Holds w log)

include h

lemma newFileWAL : wal.newFileWAL w.file = .ok (wal.reopened log) := by
  rw [h.file]
  exact newFileWAL_frames h.sane

lemma log_eq : w.log = log := log_of_frames h.sane h.file

lemma boundBy_pos (v : Int64) (hv : boundBy log v ≠ none) : 0 < v :=
  h.positive v (mem_versions_of_bound (.inl hv))

lemma reopened : Holds (wal.reopened log) log :=
  ⟨rfl, h.sane, h.positive, h.boundBy_pos, fun _ _ hv => nomatch hv⟩

/-- A record appended to the file, with bindings and waiting versions of positive ids. -/
lemma append {w' : FileWAL} (hfile : w'.file = w.file ++ r.frame) (hsane : r.Sane)
    (hpos : ∀ v ∈ versions [r], 0 < v) (hbound : ∀ v, w'.beginDataByVersion v ≠ none → 0 < v)
    (hwaits : ∀ kbID v, w'.pendingVersionIDByKB kbID = some v → 0 < v) : Holds w' (log ++ [r]) where
  file := by rw [hfile, h.file, flatMap_append, flatMap_singleton]
  sane := forall_mem_append.mpr ⟨h.sane, fun r' hr' => mem_singleton.mp hr' ▸ hsane⟩
  positive v hv := by
    rw [versions_append] at hv
    exact (mem_append.mp hv).elim (h.positive v) (hpos v)
  bound := hbound
  waits := hwaits

lemma bindTo_pos {version : Option Int64} {input : Option BeginData}
    (hversion : ∀ v, version = some v → 0 < v) (v : Int64)
    (hv : bindTo w.beginDataByVersion version input v ≠ none) : 0 < v := by
  obtain ⟨bd, hbd⟩ := Option.ne_none_iff_exists'.mp hv
  rcases bindTo_eq_some hbd with hold | ⟨hsome, -⟩
  · exact h.bound v (by rw [hold]; exact Option.some_ne_none bd)
  · exact hversion v hsome

lemma update_pos {version : Option Int64} (hversion : ∀ v, version = some v → 0 < v) (kb : Bytes)
    (v : Int64) (hv : Function.update w.pendingVersionIDByKB kbID version kb = some v) : 0 < v := by
  by_cases hkb : kb = kbID
  · rw [hkb, Function.update_self] at hv
    exact hversion v hv
  · rw [Function.update_of_ne hkb] at hv
    exact h.waits kb v hv

lemma write_begin (hsane : (Record.begin bd).Sane) :
    Holds (w.write (.begin bd)) (log ++ [.begin bd]) := by
  refine h.append (write_file rfl) hsane (fun _ hv => absurd hv not_mem_nil) (fun v => ?_) fun kbID v => ?_
  · rw [write_begin_bound]
    exact h.bindTo_pos (h.waits bd.kbID) v
  · cases hwaits : w.pendingVersionIDByKB bd.kbID with
    | none =>
      rw [write_begin_of_none hwaits]
      exact h.waits kbID v
    | some u =>
      rw [write_begin_of_some hwaits]
      refine h.update_pos ?_ kbID v
      exact nofun

lemma write_versionID (hsane : (Record.versionID kbID v).Sane) (hpos : 0 < v)
    (hnew : w.index.versionIDsWritten v = false) :
    Holds (w.write (.versionID kbID v)) (log ++ [.versionID kbID v]) := by
  refine h.append (write_file hnew) hsane (fun u hu => ?_) (fun u => ?_) fun kb u => ?_
  · rw [mem_singleton.mp (show u ∈ [v] from hu)]
    exact hpos
  · rw [write_versionID_bound kbID hnew]
    exact h.bindTo_pos (fun u hu => Option.some.inj hu ▸ hpos) u
  · cases hwaits : w.pendingBeginByKB kbID with
    | some bd =>
      rw [write_versionID_of_some hnew hwaits]
      exact h.waits kb u
    | none =>
      rw [write_versionID_of_none hnew hwaits]
      exact h.update_pos (fun u hu => Option.some.inj hu ▸ hpos) kb u

lemma write_other (hsane : r.Sane) (hpairs : r.pairs = false) (hrec : w.recorded r = false) :
    Holds (w.write r) (log ++ [r]) := by
  have hversions : versions [r] = [] := by
    cases r with
    | begin | versionID => cases hpairs
    | _ => rfl
  refine h.append (write_file hrec) hsane (by rw [hversions]; exact nofun) ?_ ?_
  · rw [write_of_not_pairs hrec hpairs]
    exact h.bound
  · rw [write_of_not_pairs hrec hpairs]
    exact h.waits

/-- A compaction of a log whose BEGIN records come first takes no input to another version. -/
lemma compact (hfirst : BeginFirst log) (keepThrough : Bytes → Option Int64)
    {order : List RawRecord → List RawRecord} (horder : ∀ records, (order records).Perm records) :
    ∃ log', Holds (w.compacted keepThrough order (log.map Record.raw)) log' ∧
      ∀ v bd, boundBy log' v = some bd → boundBy log v = some bd := by
  obtain ⟨tail, hfile, hbegins, hempty⟩ :=
    @compacted_file keepThrough w order log horder
  have hsub (r : Record) (hr : r ∈ rewrittenLog w keepThrough (marks log).cursor log ++ tail) :
      r ∈ log := by
    rcases mem_append.mp hr with hout | hadded
    · exact mem_of_mem_rewrittenLog w keepThrough _ hout
    · obtain ⟨_, -, hmem⟩ := hbegins r hadded
      exact hmem
  refine ⟨_, ⟨hfile, fun r hr => h.sane r (hsub r hr), fun v hv => ?_, fun v hv => ?_, h.waits⟩,
    fun v bd hbound => ?_⟩
  · obtain ⟨kbID, hmem⟩ := mem_versions.mp hv
    exact h.positive v (mem_versions.mpr ⟨kbID, hsub _ hmem⟩)
  · refine h.bound v fun hnone => hv ?_
    simp [compacted, hnone]
  · rw [hfirst.mirrors.boundBy_tail (fun r hr => (hbegins r hr).imp fun _ => And.left) hempty] at hbound
    split at hbound
    · cases hbound
    · exact hbound

lemma deleteByKB (hkb : kbID ≠ []) (hfirst : BeginFirst log)
    (howned : ∀ r ∈ log, r.pairs = true → w.owned kbID r.parsedVersionID = true →
      r.parsedKBID = kbID) :
    ∃ log', Holds (w.withoutKB kbID (log.map Record.raw)) log' ∧
      ∀ v bd, boundBy log' v = some bd → boundBy log v = some bd := by
  have hthin : Thinned (· ≠ kbID) (log.filter fun r => !w.drops kbID r.raw) log := by
    refine hfirst.thinned (fun bd => ?_) fun kb v hmem => ?_
    · rw [Bool.not_eq_true', ← Bool.not_eq_true, drops_iff]
      simp [RawRecord.kbID, Record.raw, Record.parsedKBID, Record.parsedVersionID, Ne.symm hkb]
    · rw [Bool.not_eq_true', ← Bool.not_eq_true, drops_iff]
      refine ⟨fun hkept hsame => hkept (.inl (.inl hsame)), ?_⟩
      rintro hne ((hsame | hsame) | ⟨-, hown⟩)
      · exact hne hsame
      · exact hne hsame
      · exact hne (howned _ hmem rfl hown)
  refine ⟨_, ⟨?_, fun r hr => h.sane r (mem_of_mem_filter hr),
    fun v hv => h.positive v (hthin.versions v hv), fun v hv => ?_,
    h.update_pos fun _ hv => by cases hv⟩, hthin.bound⟩
  · simp only [withoutKB, filter_map, flatMap_map]
    rfl
  · refine h.bound v fun hnone => hv ?_
    simp [withoutKB, hnone]

end Holds

lemma inputsOwn_iff (h : Holds n.fileWAL log) :
    n.InputsOwn ↔ n.BoundOwn n.fileWAL.beginDataByVersion ∧ n.BoundOwn (boundBy log) := by
  rw [InputsOwn, own_iff_boundOwn h.bound]
  refine and_congr_right fun _ => ⟨fun hown => ?_, fun hown w hopen => ?_⟩
  · exact (own_iff_boundOwn h.boundBy_pos).mp (hown _ h.newFileWAL)
  · cases h.newFileWAL.symm.trans hopen
    exact (own_iff_boundOwn h.boundBy_pos).mpr hown

/-- A rewritten log that binds nothing new, in memory or in the file, keeps every answer right. -/
lemma inputsOwn_rewritten {log' : List Record} (h : Holds n.fileWAL log) (hown : n.InputsOwn)
    (hafter : Holds fileWAL log')
    (hmemory : ∀ v bd, fileWAL.beginDataByVersion v = some bd →
      n.fileWAL.beginDataByVersion v = some bd)
    (hdisk : ∀ v bd, boundBy log' v = some bd → boundBy log v = some bd) :
    InputsOwn { n with fileWAL } := by
  have hboth := (inputsOwn_iff h).mp hown
  exact (inputsOwn_iff (n := { n with fileWAL }) hafter).mpr
    ⟨fun v bd hbound => hboth.1 v bd (hmemory v bd hbound),
      fun v bd hbound => hboth.2 v bd (hdisk v bd hbound)⟩

lemma begun_cons {u parentVersionID : Int64} {changes : List DocChange} :
    Begun { fileWAL, begun := (v, bd) :: n.begun } u parentVersionID changes ↔
      (v = u ∧ bd.parentVersionID = parentVersionID ∧ bd.changes = changes) ∨
        n.Begun u parentVersionID changes := by
  simp [Begun]

lemma boundOwn_begin {version : Option Int64} (hown : n.BoundOwn bound) :
    BoundOwn { fileWAL, begun := (v, bd) :: n.begun } (bindTo bound version (some bd)) ↔
      ∀ u, version = some u → u = v ∨ n.Begun u bd.parentVersionID bd.changes := by
  constructor
  · rintro hafter u rfl
    rcases begun_cons.mp (hafter u bd (Function.update_self ..)) with ⟨hvu, -⟩ | hbefore
    · exact .inl hvu.symm
    · exact .inr hbefore
  · intro hwaits u bd' hbound
    rcases bindTo_eq_some hbound with hold | ⟨hversion, hinput⟩
    · exact begun_cons.mpr (.inr (hown u bd' hold))
    cases hinput
    rcases hwaits u hversion with rfl | hbefore
    · exact begun_cons.mpr (.inl ⟨rfl, rfl, rfl⟩)
    · exact begun_cons.mpr (.inr hbefore)

/-- A VERSION_ID keeps a set of bindings right exactly when the BEGIN that waits is its
own. -/
lemma boundOwn_apply {input : Option BeginData} (hown : n.BoundOwn bound) :
    n.BoundOwn (bindTo bound (some v) input) ↔
      ∀ bd, input = some bd → n.Begun v bd.parentVersionID bd.changes := by
  constructor
  · rintro hafter bd rfl
    exact hafter v bd (Function.update_self ..)
  · intro hwaits u bd hbound
    rcases bindTo_eq_some hbound with hold | ⟨hversion, hinput⟩
    · exact hown u bd hold
    · cases hversion
      exact hwaits bd hinput

lemma step_begin (h : Holds n.fileWAL log) (hown : n.InputsOwn)
    (hafter : Holds (n.fileWAL.write (.begin bd)) (log ++ [Record.begin bd])) :
    InputsOwn { fileWAL := n.fileWAL.write (.begin bd), begun := (v, bd) :: n.begun } ↔
      n.Matched (.begin v bd) := by
  obtain ⟨hmemory, hdisk⟩ := (inputsOwn_iff h).mp hown
  rw [inputsOwn_iff hafter, write_begin_bound, boundBy_begin, boundOwn_begin hmemory,
    boundOwn_begin hdisk, Matched, h.log_eq]
  exact ⟨fun hboth u hu => hu.elim (hboth.1 u) (hboth.2 u),
    fun hall => ⟨fun u hu => hall u (.inl hu), fun u hu => hall u (.inr hu)⟩⟩

lemma step_apply {kbID : Bytes} (h : Holds n.fileWAL log) (hown : n.InputsOwn)
    (hnew : n.fileWAL.index.versionIDsWritten v = false)
    (hafter : Holds (n.fileWAL.write (.versionID kbID v)) (log ++ [Record.versionID kbID v])) :
    InputsOwn { n with fileWAL := n.fileWAL.write (.versionID kbID v) } ↔ n.Matched (.apply kbID v) := by
  obtain ⟨hmemory, hdisk⟩ := (inputsOwn_iff h).mp hown
  have hmemory' : BoundOwn { n with fileWAL := n.fileWAL.write (.versionID kbID v) } _ := hmemory
  have hdisk' : BoundOwn { n with fileWAL := n.fileWAL.write (.versionID kbID v) } _ := hdisk
  rw [inputsOwn_iff hafter, write_versionID_bound kbID hnew, boundBy_versionID,
    boundOwn_apply hmemory', boundOwn_apply hdisk', Matched, h.log_eq, hnew]
  simp only [Bool.false_eq_true, false_or]
  exact ⟨fun hboth bd hbd => hbd.elim (hboth.1 bd) (hboth.2 bd),
    fun hall => ⟨fun bd hbd => hall bd (.inl hbd), fun bd hbd => hall bd (.inr hbd)⟩⟩

/-- A readable event keeps every answer right exactly when it is matched, a rewrite where the log is
tidy. -/
lemma step_inputsOwn_iff {e : Event} (h : Holds n.fileWAL log) (hown : n.InputsOwn)
    (hreadable : e.Readable) (htidy : n.Tidy e) :
    ∃ n', n.step e = some n' ∧ (∃ log', Holds n'.fileWAL log') ∧ (n'.InputsOwn ↔ n.Matched e) := by
  have hread := readLog_frames h.sane
  rw [← h.file] at hread
  cases e with
  | begin v bd =>
    have hcall : (Record.begin bd).Sane := hreadable
    have hafter := h.write_begin hcall
    exact ⟨_, rfl, ⟨_, hafter⟩, step_begin h hown hafter⟩
  | apply kbID v =>
    have hcall : (Record.versionID kbID v).Sane ∧ 0 < v := hreadable
    cases hnew : n.fileWAL.index.versionIDsWritten v with
    | true =>
      have hsame : n.fileWAL.write (.versionID kbID v) = n.fileWAL :=
        write_of_recorded (r := .versionID kbID v) hnew
      refine ⟨_, rfl, ⟨log, ?_⟩, ?_⟩
      · rw [hsame]
        exact h
      · rw [hsame]
        exact iff_of_true hown (.inl hnew)
    | false =>
      have hafter := h.write_versionID hcall.1 hcall.2 hnew
      exact ⟨_, rfl, ⟨_, hafter⟩, step_apply h hown hnew hafter⟩
  | other call =>
    cases hrec : n.fileWAL.recorded call with
    | true =>
      refine ⟨n, by rw [step, write_of_recorded hrec], ⟨log, h⟩, iff_of_true hown trivial⟩
    | false =>
      have hafter := h.write_other hreadable.1.sane hreadable.2 hrec
      refine ⟨_, rfl, ⟨_, hafter⟩, iff_of_true (inputsOwn_rewritten h hown hafter ?_ ?_) trivial⟩
      · rw [write_of_not_pairs hrec hreadable.2]
        exact fun _ _ => id
      · rw [boundBy_of_not_pairs log hreadable.2]
        exact fun _ _ => id
  | compact keepThrough order =>
    obtain ⟨log', hafter, hdisk⟩ := h.compact (h.log_eq ▸ htidy) keepThrough order.2
    refine ⟨_, by rw [step, FileWAL.compact, hread]; rfl, ⟨log', hafter⟩,
      iff_of_true (inputsOwn_rewritten h hown hafter (fun v bd hbound => ?_) hdisk) trivial⟩
    rw [compacted] at hbound
    dsimp only at hbound
    split at hbound
    · cases hbound
    · exact hbound
  | deleteByKB kbID =>
    rw [Tidy, h.log_eq] at htidy
    obtain ⟨hfirst, howned⟩ := htidy
    obtain ⟨log', hafter, hdisk⟩ := h.deleteByKB hreadable hfirst howned
    refine ⟨_, by rw [step, FileWAL.deleteByKB, hread]; rfl, ⟨log', hafter⟩,
      iff_of_true (inputsOwn_rewritten h hown hafter (fun v bd hbound => ?_) hdisk) trivial⟩
    rw [withoutKB] at hbound
    dsimp only at hbound
    split at hbound
    · cases hbound
    · exact hbound
  | restart =>
    refine ⟨{ n with fileWAL := reopened log }, ?_, ⟨log, h.reopened⟩, iff_of_true ?_ trivial⟩
    · rw [step, h.newFileWAL]
      rfl
    · have hdisk := ((inputsOwn_iff h).mp hown).2
      exact (inputsOwn_iff h.reopened).mpr ⟨hdisk, hdisk⟩

end Node

/-- The log pairs by position, so every answer of a run belongs to its version exactly when
each BEGIN and VERSION_ID of the run is written while only its own counterpart waits; a rewrite
of the log leaves that as it is where BEGIN records come first. -/
theorem inputsOwn_iff_matched (events : List Event)
    (hreadable : EachStep Node.step (fun n e => e.Readable ∧ n.Tidy e) {} events) :
    Always Node.step Node.InputsOwn {} events ↔ EachStep Node.step Node.Matched {} events := by
  have hempty : Node.Holds {} [] :=
    ⟨rfl, fun _ hr => (nomatch hr), fun _ hv => (nomatch hv), fun _ hv => absurd rfl hv,
      fun _ _ hv => nomatch hv⟩
  have hinit : ({} : Node).InputsOwn := by
    rw [Node.inputsOwn_iff hempty]
    constructor
    · exact nofun
    · intro _ _ hbound
      cases hbound
  refine always_iff_eachStep_of_admitted (fun n => ∃ log, Node.Holds n.fileWAL log) Node.InputsOwn
    (fun n e => e.Readable ∧ n.Tidy e) ?_ ⟨[], hempty⟩ hinit hreadable
  rintro n e ⟨log, h⟩ hown ⟨he, htidy⟩
  exact Node.step_inputsOwn_iff h hown he htidy

/-- Two versions of one knowledge base are applied before the first of them is backfilled. -/
def appliedAhead : List Event :=
  [.apply [97] 1, .apply [97] 2, .begin 1 { kbID := [97], changes := [⟨0, [100], [49]⟩] }]

/-- The second version is answered for with the first one's changes. -/
theorem appliedAhead_misbinds :
    ∃ n d, lib.run Node.step (fun _ _ => True) {} appliedAhead = some n ∧
      n.fileWAL.changesInRange [97] 1 2 2 = some d ∧ d.changes = [⟨0, [100], [49]⟩] ∧
      ¬ n.Begun 2 d.parentVersionID d.changes :=
  ⟨_, _, rfl, rfl, rfl, by decide⟩

/-- Writes to two knowledge bases, a compaction that reclaims the first, the removal of the other
knowledge base and a restart, then a version that is applied before its backfill. -/
def inTurn : List Event :=
  [.begin 1 { kbID := [97] }, .apply [97] 1, .other (.commit 1),
    .begin 2 { kbID := [98], changes := [⟨0, [100], [49]⟩] }, .apply [98] 2,
    .begin 3 { kbID := [97], parentVersionID := 1, changes := [⟨0, [100], [50]⟩] }, .apply [97] 3,
    .compact (fun _ => some 1) ⟨reverse, reverse_perm⟩, .deleteByKB [98], .restart,
    .apply [97] 4, .begin 4 { kbID := [97], parentVersionID := 3 }]

theorem inTurn_inputsOwn : Always Node.step Node.InputsOwn {} inTurn :=
  (inputsOwn_iff_matched inTurn (by decide +kernel)).mpr (by decide +kernel)

end stratum.wal
