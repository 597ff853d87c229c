import Stratum.Version.BaseMeta

namespace stratum.version

open stratum.metadata stratum.coordinator stratum.docstore stratum.versiondoc Function Option List World StateMachine

variable {w : World} {i v : Nat} {m : VersionMeta} {kbID : String} {c : Creation}

namespace Base

variable (hbase : Base w)

include hbase

lemma change_unique {job : Job} (hjob : job ∈ w.jobs) {c c' : DocChange} (hc : c ∈ job.changes)
    (hc' : c' ∈ job.changes) (hdoc : c.docID = c'.docID) : c = c' :=
  inj_on_of_nodup_map (hbase.created_nodup (hbase.job_created hjob)) hc hc' hdoc

lemma not_landed_next (hv : w.sm.nextVersionID ≤ v) : w.landed v = false := by
  cases hlanded : w.landed v with
  | false => rfl
  | true =>
    obtain ⟨c, hc⟩ := hbase.landed_created hlanded
    have hlt := (hbase.created_lt hc).1
    omega

lemma landed_of_durable (hm : w.sm.versions v = some m) (hdurable : m.dataStatus = .durable) :
    w.landed v = true := by
  cases hlanded : w.landed v with
  | true => rfl
  | false =>
    rw [(hbase.waiting hm hlanded).data] at hdurable
    cases hdurable

lemma live_of_admitted {parent : Nat} (hadmitted : w.sm.parentRefused kbID parent = none)
    (hne : parent ≠ 0) : w.Live kbID parent := by
  obtain ⟨m, hm, hkb, hdurable, hdel, -⟩ := parentRefused_none hadmitted hne
  exact ⟨m, hm, hkb, hdel, hbase.landed_of_durable hm hdurable⟩

lemma repeated {job : Job} (hcreated : w.created job.versionID = some job.creation)
    (hdigest : job.digest = none) : Base { w with jobs := w.jobs ++ [job] } :=
  { hbase with
    waiting := fun hm hlanded => { hbase.waiting hm hlanded with }
    job_created := by
      intro j hj
      obtain hj | hj := mem_append.mp hj
      · exact hbase.job_created hj
      · rw [mem_singleton.mp hj]
        exact hcreated
    job_landed := by
      intro j hj hsome
      obtain hj | hj := mem_append.mp hj
      · exact hbase.job_landed hj hsome
      · rw [mem_singleton.mp hj, hdigest] at hsome
        cases hsome }

end Base

section Allocated

variable {now : Int} {kbID : String} {parent : Nat} {changes : List DocChange} {key : String}
  (hbase : Base w)

include hbase

lemma live_allocated {kb : String} :
    (w.allocated now kbID parent changes key).Live kb v ↔ w.Live kb v := by
  unfold World.Live allocated
  simp only [allocateVersion_versions]
  constructor
  · rintro ⟨m, hm, hrest⟩
    by_cases hv : v = w.sm.nextVersionID
    · have hnot := hbase.not_landed_next (le_of_eq hv.symm)
      rw [hnot] at hrest
      cases hrest.2.2
    · rw [if_neg hv] at hm
      exact ⟨m, hm, hrest⟩
  · rintro ⟨m, hm, hrest⟩
    have hlt := hbase.wf.lt_next hm
    refine ⟨m, ?_, hrest⟩
    rw [if_neg (by omega)]
    exact hm

lemma created_allocated (hc : (w.allocated now kbID parent changes key).created v = some c) :
    (v = w.sm.nextVersionID ∧ c = { kbID, parentVersionID := parent, changes } ∧
        (w.allocated now kbID parent changes key).lineage v = w.lineage parent ++ changes) ∨
      (v < w.sm.nextVersionID ∧ w.created v = some c ∧
        (w.allocated now kbID parent changes key).lineage v = w.lineage v) := by
  unfold allocated at hc ⊢
  dsimp only at hc ⊢
  by_cases hv : v = w.sm.nextVersionID
  · subst hv
    rw [update_self, some.injEq] at hc
    exact .inl ⟨rfl, hc.symm, update_self _ _ _⟩
  · rw [update_of_ne hv] at hc ⊢
    exact .inr ⟨(hbase.created_lt hc).1, hc, rfl⟩

lemma created_allocated_of_some (hc : w.created v = some c) :
    (w.allocated now kbID parent changes key).created v = some c := by
  have hlt := (hbase.created_lt hc).1
  unfold allocated
  dsimp only
  rw [update_of_ne (by omega), hc]

omit hbase in
lemma lineage_allocated (hv : v < w.sm.nextVersionID) :
    (w.allocated now kbID parent changes key).lineage v = w.lineage v :=
  update_of_ne (ne_of_lt hv) _ _

lemma version_created_allocated
    (hm : (w.allocated now kbID parent changes key).sm.versions v = some m) :
    ∃ c, (w.allocated now kbID parent changes key).created v = some c ∧ c.kbID = m.kbID := by
  obtain ⟨rfl, rfl⟩ | hm := eq_some_of_allocateVersion hm
  · exact ⟨_, update_self _ _ _, rfl⟩
  · obtain ⟨c, hc, hkb⟩ := hbase.version_created hm
    exact ⟨c, created_allocated_of_some hbase hc, hkb⟩

lemma job_created_allocated {job : Job}
    (hjob : job ∈ (w.allocated now kbID parent changes key).jobs) :
    (w.allocated now kbID parent changes key).created job.versionID = some job.creation := by
  obtain hjob | hjob := mem_append.mp hjob
  · exact created_allocated_of_some hbase (hbase.job_created hjob)
  · rw [mem_singleton.mp hjob]
    exact update_self _ _ _

lemma job_landed_allocated {job : Job}
    (hjob : job ∈ (w.allocated now kbID parent changes key).jobs)
    (hdigest : job.digest.isSome) : w.landed job.versionID = true := by
  obtain hjob | hjob := mem_append.mp hjob
  · exact hbase.job_landed hjob hdigest
  · rw [mem_singleton.mp hjob] at hdigest
    cases hdigest

section Admitted

variable (hadmitted : w.sm.parentRefused kbID parent = none)

include hadmitted

lemma parent_lt_next : parent < w.sm.nextVersionID := by
  by_cases hne : parent = 0
  · rw [hne]
    exact hbase.wf.next_pos
  · obtain ⟨m, hm, -⟩ := hbase.live_of_admitted hadmitted hne
    exact hbase.wf.lt_next hm

lemma waiting_allocated (hm : (w.allocated now kbID parent changes key).sm.versions v = some m)
    (hlanded : w.landed v = false) : Waiting (w.allocated now kbID parent changes key) v m := by
  obtain ⟨rfl, rfl⟩ | hm := eq_some_of_allocateVersion hm
  · exact ⟨rfl, rfl, rfl,
      fun hne => (live_allocated hbase).mpr (hbase.live_of_admitted hadmitted hne),
      _, update_self _ _ _, rfl⟩
  have hwait := hbase.waiting hm hlanded
  obtain ⟨c, hc, hcp⟩ := hwait.created
  exact ⟨hwait.index, hwait.data, hwait.deleting,
    fun hne => (live_allocated hbase).mpr (hwait.parent hne),
    c, created_allocated_of_some hbase hc, hcp⟩

lemma Base.allocated (hnodup : (changes.map (·.docID)).Nodup) :
    Base (w.allocated now kbID parent changes key) where
  wf := hbase.wf.allocated key hadmitted
  lineage_zero := (lineage_allocated hbase.wf.next_pos).trans hbase.lineage_zero
  version_created := version_created_allocated hbase
  created_lt := by
    intro v c hc
    have hnext : (w.allocated now kbID parent changes key).sm.nextVersionID =
        w.sm.nextVersionID + 1 := rfl
    obtain ⟨rfl, rfl, -⟩ | ⟨hlt, hc, -⟩ := created_allocated hbase hc
    · exact ⟨by omega, parent_lt_next hbase hadmitted⟩
    · have hold := hbase.created_lt hc
      exact ⟨by omega, hold.2⟩
  created_nodup := by
    intro v c hc
    obtain ⟨-, rfl, -⟩ | ⟨-, hc, -⟩ := created_allocated hbase hc
    · exact hnodup
    · exact hbase.created_nodup hc
  created_parent := by
    intro v c hc hne
    obtain ⟨-, rfl, -⟩ | ⟨-, hc, -⟩ := created_allocated hbase hc
    · obtain ⟨p, hp, hkb⟩ := (hbase.live_of_admitted hadmitted hne).created hbase
      exact ⟨p, created_allocated_of_some hbase hp, hkb⟩
    · obtain ⟨p, hp, hkb⟩ := hbase.created_parent hc hne
      exact ⟨p, created_allocated_of_some hbase hp, hkb⟩
  lineage_created := by
    intro v c hc
    obtain ⟨rfl, rfl, hlin⟩ | ⟨hlt, hc, hlin⟩ := created_allocated hbase hc
    · rw [hlin, lineage_allocated (parent_lt_next hbase hadmitted)]
    have hold := (hbase.created_lt hc).2
    rw [hlin, lineage_allocated (by omega)]
    exact hbase.lineage_created hc
  job_created := job_created_allocated hbase
  job_landed := job_landed_allocated hbase
  landed_created := by
    intro v hlanded
    obtain ⟨c, hc⟩ := hbase.landed_created hlanded
    exact ⟨c, created_allocated_of_some hbase hc⟩
  waiting := waiting_allocated hbase hadmitted
  list_created := by
    intro kb v docID hdoc
    obtain ⟨c, hc, hkb, hmem⟩ := hbase.list_created hdoc
    refine ⟨c, created_allocated_of_some hbase hc, hkb, ?_⟩
    rw [lineage_allocated (hbase.created_lt hc).1]
    exact hmem
  list_live := by
    intro kb v hlive
    rw [live_allocated hbase] at hlive
    obtain ⟨c, hc, -⟩ := hlive.created hbase
    rw [lineage_allocated (hbase.created_lt hc).1]
    exact hbase.list_live hlive
  record_live := by
    intro kb v c hlive hc
    rw [live_allocated hbase] at hlive
    obtain ⟨c', hc', -⟩ := hlive.created hbase
    rw [created_allocated_of_some hbase hc', some.injEq] at hc
    subst hc
    exact hbase.record_live hlive hc'
  record_created := by
    intro kb docID v x hx
    obtain ⟨c, hc, hrest⟩ := hbase.record_created hx
    exact ⟨c, created_allocated_of_some hbase hc, hrest⟩

end Admitted

end Allocated

namespace Base

variable {svc : Services} {kbMeta : KnowledgeBaseMeta} {job : Job} {done : List DocChange}

/-- After documents of a job are stored, each record is an old one or the job's change. -/
lemma record_written (hsub : ∀ change ∈ done, change ∈ job.changes) {docID : String} {x : Value}
    (hx : (writeDocuments svc job.kbID job.versionID kbMeta w.stores done).docStore.db kbID docID v
      = some x) : w.stores.docStore.db kbID docID v = some x ∨
      (kbID = job.kbID ∧ v = job.versionID ∧
        ∃ change ∈ job.changes, change.docID = docID ∧ x = encodeValue change.value) := by
  rw [writeDocuments_db] at hx
  split at hx
  · exact .inl hx
  next change hlast =>
  by_cases hkb : kbID = job.kbID
  · rw [if_pos hkb] at hx
    by_cases hv : v = job.versionID
    · obtain ⟨hmem, hdoc⟩ := lastChange_mem hlast
      rw [hv, update_self, some.injEq] at hx
      exact .inr ⟨hkb, hv, change, hsub change hmem, hdoc, hx.symm⟩
    · rw [update_of_ne hv] at hx
      exact .inl (hkb ▸ hx)
  · rw [if_neg hkb] at hx
    exact .inl hx

section

variable (hbase : Base w) (hjob : job ∈ w.jobs)

include hbase hjob

lemma record_kept (hsub : ∀ change ∈ done, change ∈ job.changes) (hc : w.created v = some c)
    {change : DocChange} (hchange : change ∈ c.changes)
    (hx : w.stores.docStore.db kbID change.docID v = some (encodeValue change.value)) :
    (writeDocuments svc job.kbID job.versionID kbMeta w.stores done).docStore.db
      kbID change.docID v = some (encodeValue change.value) := by
  rw [writeDocuments_db]
  cases hlast : lastChange done change.docID with
  | none => exact hx
  | some other =>
  dsimp only
  by_cases hkb : kbID = job.kbID
  · rw [if_pos hkb]
    by_cases hv : v = job.versionID
    · subst hv
      obtain ⟨hmem, hdoc⟩ := lastChange_mem hlast
      rw [hbase.job_created hjob, some.injEq] at hc
      subst hc
      rw [update_self, hbase.change_unique hjob (hsub _ hmem) hchange hdoc]
    · rw [update_of_ne hv, ← hkb]
      exact hx
  · rw [if_neg hkb]
    exact hx

lemma documents (hsub : ∀ change ∈ done, change ∈ job.changes) :
    Base { w with stores := writeDocuments svc job.kbID job.versionID kbMeta w.stores done } := by
  apply hbase.of_stores
  · intro kbID v docID hdoc
    rw [writeDocuments_versionDocList] at hdoc
    exact hbase.list_created hdoc
  · intro kbID v hlive
    rw [writeDocuments_versionDocList]
    exact hbase.list_live hlive
  · intro kbID v c hlive hc change hchange
    exact hbase.record_kept hjob hsub hc hchange (hbase.record_live hlive hc change hchange)
  intro kbID docID v x hx
  obtain hold | ⟨rfl, rfl, hnew⟩ := record_written hsub hx
  · exact hbase.record_created hold
  · exact ⟨job.creation, hbase.job_created hjob, rfl, hnew⟩

lemma derived_subset : applyChanges (w.parentDocs job.kbID job.parentVersionID) job.changes ⊆
      docSet (w.lineage job.versionID) := by
  rw [hbase.lineage_created (hbase.job_created hjob), docSet_append]
  refine applyChanges_mono ?_ _
  intro docID hdoc
  unfold parentDocs at hdoc
  by_cases hne : job.parentVersionID = 0
  · rw [if_pos hne] at hdoc
    exact absurd hdoc (Finset.notMem_empty docID)
  rw [if_neg hne] at hdoc
  obtain ⟨-, -, -, hmem⟩ := hbase.list_created hdoc
  exact hmem

variable (hm : w.sm.versions job.versionID = some m)

include hm

lemma kbID_of_job : m.kbID = job.kbID := by
  obtain ⟨c, hc, hkb⟩ := hbase.version_created hm
  rw [hbase.job_created hjob, some.injEq] at hc
  subst hc
  exact hkb.symm

variable (hlanded : w.landed job.versionID = false)

include hlanded

lemma live_parent (hne : job.parentVersionID ≠ 0) : w.Live job.kbID job.parentVersionID := by
  have hwait := hbase.waiting hm hlanded
  obtain ⟨c, hc, hparent⟩ := hwait.created
  rw [hbase.job_created hjob, some.injEq] at hc
  subst hc
  have hparent' : m.parentVersionID = job.parentVersionID := hparent.symm
  have hlive := hwait.parent (hparent'.symm ▸ hne)
  rwa [hparent', hbase.kbID_of_job hjob hm] at hlive

/-- The set derived for an unwritten version is the whole of its history's set: its parent is
live. -/
lemma subset_derived : docSet (w.lineage job.versionID) ⊆
      applyChanges (w.parentDocs job.kbID job.parentVersionID) job.changes := by
  rw [hbase.lineage_created (hbase.job_created hjob), docSet_append]
  refine applyChanges_mono ?_ _
  unfold parentDocs
  by_cases hne : job.parentVersionID = 0
  · rw [if_pos hne]
    change docSet (w.lineage job.parentVersionID) ⊆ ∅
    rw [hne, hbase.lineage_zero]
    exact Finset.Subset.refl _
  · rw [if_neg hne]
    exact hbase.list_live (hbase.live_parent hjob hm hlanded hne)

end

lemma live_committed (hlive : (w.committed svc kbMeta i job).Live kbID v) :
    w.Live kbID v ∨ (v = job.versionID ∧ w.landed v = false ∧
      ∃ m, w.sm.versions v = some m ∧ m.kbID = kbID) := by
  obtain ⟨m, hm, hkb, hdel, hlanded⟩ := hlive
  cases hold : w.landed v with
  | true => exact .inl ⟨m, hm, hkb, hdel, hold⟩
  | false =>
  refine .inr ⟨?_, rfl, m, hm, hkb⟩
  by_contra hv
  unfold committed at hlanded
  dsimp only at hlanded
  rw [update_of_ne hv, hold] at hlanded
  cases hlanded

lemma committed_live (hlive : w.Live kbID v) : (w.committed svc kbMeta i job).Live kbID v := by
  obtain ⟨m, hm, hkb, hdel, hlanded⟩ := hlive
  refine ⟨m, hm, hkb, hdel, ?_⟩
  unfold committed
  dsimp only
  by_cases hv : v = job.versionID
  · rw [hv, update_self]
  · rw [update_of_ne hv, hlanded]

variable (hbase : Base w)

include hbase

lemma committed (hjob : w.jobs[i]? = some job) : Base (w.committed svc kbMeta i job) := by
  have hmem : job ∈ w.jobs := mem_of_getElem? hjob
  have hcreated := hbase.job_created hmem
  have hjobs : ∀ j ∈ (w.committed svc kbMeta i job).jobs,
      j ∈ w.jobs ∨ (j.versionID = job.versionID ∧ j.creation = job.creation) := by
    intro j hj
    obtain hj | rfl := mem_or_eq_of_mem_set hj
    · exact .inl hj
    · exact .inr ⟨rfl, rfl⟩
  refine
    { hbase with
      job_created := ?_
      job_landed := ?_
      landed_created := ?_
      waiting := ?_
      list_created := ?_
      list_live := ?_
      record_live := ?_
      record_created := ?_ }
  · intro j hj
    obtain hj | ⟨hid, hcreation⟩ := hjobs j hj
    · exact hbase.job_created hj
    · rw [hid, hcreation]
      exact hcreated
  · intro j hj hdigest
    unfold World.committed
    dsimp only
    by_cases hid : j.versionID = job.versionID
    · rw [hid, update_self]
    · rw [update_of_ne hid]
      exact hbase.job_landed ((hjobs j hj).resolve_right fun h => hid h.1) hdigest
  · intro v hlanded
    by_cases hv : v = job.versionID
    · exact ⟨job.creation, hv ▸ hcreated⟩
    unfold World.committed at hlanded
    dsimp only at hlanded
    rw [update_of_ne hv] at hlanded
    exact hbase.landed_created hlanded
  · intro v m hm hlanded
    have hold : w.landed v = false := by
      unfold World.committed at hlanded
      dsimp only at hlanded
      by_cases hv : v = job.versionID
      · rw [hv, update_self] at hlanded
        cases hlanded
      · rwa [update_of_ne hv] at hlanded
    have hwait := hbase.waiting hm hold
    exact ⟨hwait.index, hwait.data, hwait.deleting, fun hne => committed_live (hwait.parent hne),
      hwait.created⟩
  · intro kbID v docID hdoc
    unfold World.committed at hdoc
    by_cases hown : kbID = job.kbID ∧ v = job.versionID
    · obtain ⟨rfl, rfl⟩ := hown
      rw [VersionDocList.listDocIDs_writeMany_self, Finset.mem_union] at hdoc
      obtain hdoc | hdoc := hdoc
      · exact hbase.list_created hdoc
      · exact ⟨job.creation, hcreated, rfl, hbase.derived_subset hmem hdoc⟩
    · rw [VersionDocList.listDocIDs_writeMany_of_ne _ hown] at hdoc
      exact hbase.list_created hdoc
  · intro kbID v hlive docID hdoc
    have hdoc' : docID ∈ docSet (w.lineage v) := hdoc
    unfold World.committed
    obtain hold | ⟨rfl, hlanded, m, hm, rfl⟩ := live_committed hlive
    · have hin := hbase.list_live hold hdoc'
      by_cases hown : kbID = job.kbID ∧ v = job.versionID
      · obtain ⟨rfl, rfl⟩ := hown
        rw [VersionDocList.listDocIDs_writeMany_self]
        exact Finset.mem_union_left _ hin
      · rw [VersionDocList.listDocIDs_writeMany_of_ne _ hown]
        exact hin
    · rw [hbase.kbID_of_job hmem hm, VersionDocList.listDocIDs_writeMany_self]
      exact Finset.mem_union_right _ (hbase.subset_derived hmem hm hlanded hdoc')
  · intro kbID v c hlive hc change hchange
    obtain hold | ⟨rfl, hlanded, m, hm, rfl⟩ := live_committed hlive
    · exact hbase.record_kept hmem (fun _ h => h) hc hchange
        (hbase.record_live hold hc change hchange)
    have hc' : w.created job.versionID = some c := hc
    rw [hcreated, some.injEq] at hc'
    subst hc'
    have hlast : lastChange job.changes change.docID = some change :=
      lastChange_of_mem (hbase.created_nodup hcreated) hchange
    unfold World.committed
    rw [writeDocuments_db, hlast]
    dsimp only
    rw [if_pos (hbase.kbID_of_job hmem hm), update_self]
  · intro kbID docID v x hx
    obtain hold | ⟨rfl, rfl, hnew⟩ := record_written (fun _ h => h) hx
    · exact hbase.record_created hold
    · exact ⟨job.creation, hcreated, rfl, hnew⟩

lemma attempt (hjob : w.jobs[i]? = some job) : Base (w.attempt svc i job) := by
  obtain hsame | ⟨kbMeta, -, hdocs | hall⟩ := w.attempt_cases svc i job
  · rw [hsame]
    exact hbase
  · rw [hdocs]
    exact hbase.documents (mem_of_getElem? hjob) fun _ h => h
  · rw [hall]
    exact hbase.committed hjob

lemma dropVersion {u : Nat} (hdel : w.Deleting kbID u) (finished : Bool) :
    Base { w with stores := w.reclaim kbID u finished } := by
  obtain ⟨hlist, hdocs⟩ := w.reclaim_records kbID u finished
  have hother : ∀ {kb v}, w.Live kb v → ¬ (kb = kbID ∧ v = u) := by
    rintro kb v hlive ⟨-, rfl⟩
    exact hdel.not_live hlive
  have hrecord : ∀ kb docID v, (w.reclaim kbID u finished).docStore.db kb docID v =
      w.stores.docStore.db kb docID v ∨
        ((kb = kbID ∧ v = u) ∧ (w.reclaim kbID u finished).docStore.db kb docID v = none) := by
    intro kb docID v
    obtain hsame | ⟨anchor, -, hcut⟩ := hdocs
    · exact .inl (by rw [hsame])
    rw [hcut]
    obtain hsame | ⟨hkb, -, hcut⟩ :=
      DocStore.deleteByVersionExceptVisibleFrom_db w.stores.docStore kbID u anchor kb docID
    · exact .inl (by rw [hsame])
    rw [hcut]
    by_cases hv : v = u
    · exact .inr ⟨⟨hkb, hv⟩, by rw [hv, update_self]⟩
    · exact .inl (by rw [update_of_ne hv, hkb])
  apply hbase.of_stores
  · intro kb v docID hdoc
    apply hbase.list_created
    obtain hsame | hcut := hlist
    · rwa [hsame] at hdoc
    rw [hcut] at hdoc
    by_cases hown : kb = kbID ∧ v = u
    · obtain ⟨rfl, rfl⟩ := hown
      rw [VersionDocList.listDocIDs_deleteByVersion_self] at hdoc
      exact absurd hdoc (Finset.notMem_empty docID)
    · rwa [VersionDocList.listDocIDs_deleteByVersion_of_ne hown] at hdoc
  · intro kb v hlive
    obtain hsame | hcut := hlist
    · rw [hsame]
      exact hbase.list_live hlive
    · rw [hcut, VersionDocList.listDocIDs_deleteByVersion_of_ne (hother hlive)]
      exact hbase.list_live hlive
  · intro kb v c hlive hc change hchange
    obtain hsame | ⟨hown, -⟩ := hrecord kb change.docID v
    · rw [hsame]
      exact hbase.record_live hlive hc change hchange
    · exact absurd hown (hother hlive)
  intro kb docID v x hx
  obtain hsame | ⟨-, hnone⟩ := hrecord kb docID v
  · exact hbase.record_created (hsame ▸ hx)
  · rw [hnone] at hx
    cases hx

lemma request {now : Int} {parent : Nat} {changes : List DocChange} {key : String}
    (hfaithful : w.FaithfulRequest (.request now kbID parent changes key)) :
    Base (w.request now kbID parent changes key) := by
  obtain ⟨hnodup, hrepeat⟩ := hfaithful
  obtain hsame | ⟨v, hv, hagain⟩ | ⟨-, hadmitted, hnew⟩ :=
    w.request_cases now kbID parent changes key
  · rw [hsame]
    exact hbase
  · rw [hagain]
    exact hbase.repeated (hrepeat v hv) rfl
  · rw [hnew]
    exact hbase.allocated hadmitted hnodup

lemma step {a : Action} {w' : World} (hfaithful : w.FaithfulRequest a)
    (hstep : w.step svc a = some w') : Base w' := by
  cases a with
  | createKB | rollback | deleteVersion | discard =>
    cases hstep
    exact hbase.command trivial
  | request now kbID parent changes key =>
    cases hstep
    exact hbase.request hfaithful
  | writePart i done =>
    obtain ⟨job, kbMeta, hjob, -, hsub, rfl⟩ := step_writePart hstep
    exact hbase.documents (mem_of_getElem? hjob) hsub
  | write i =>
    obtain ⟨job, hjob, rfl⟩ := map_eq_some_iff.mp hstep
    exact hbase.attempt hjob
  | report i =>
    obtain ⟨job, hjob, hstep⟩ := bind_eq_some_iff.mp hstep
    obtain ⟨digest, hdigest, rfl⟩ := map_eq_some_iff.mp hstep
    exact hbase.command (hbase.job_landed (mem_of_getElem? hjob) (by rw [hdigest]; rfl))
  | indexStatus v status nodeID =>
    obtain ⟨hguard, ⟨⟩⟩ := ite_none_right_eq_some.mp hstep
    exact hbase.command hguard
  | dropVersion kbID v finished =>
    obtain ⟨hdel, ⟨⟩⟩ := ite_none_right_eq_some.mp hstep
    exact hbase.dropVersion hdel finished
  | removeVersion kbID v =>
    obtain ⟨hdel, ⟨⟩⟩ := ite_none_right_eq_some.mp hstep
    exact hbase.command hdel

end Base

end stratum.version
