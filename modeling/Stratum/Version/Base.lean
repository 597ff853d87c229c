import Stratum.Metadata.Effect
import Stratum.Version.World

namespace stratum.version

open stratum.metadata stratum.coordinator stratum.docstore

/-- A version whose storage write has not finished: it is still pending on both sides, its
metadata is as the request left it, and its parent is live. -/
structure Waiting (w : World) (v : Nat) (m : VersionMeta) : Prop where
  index : m.indexStatus = .pending
  data : m.dataStatus = .pending
  deleting : m.deleting = false
  parent : m.parentVersionID ≠ 0 → w.Live m.kbID m.parentVersionID
  created : ∃ c, w.created v = some c ∧ c.parentVersionID = m.parentVersionID

/-- What holds of the metadata, the jobs and the stores in every run, whatever the documents
read as. -/
structure Base (w : World) : Prop where
  wf : WellFormed w.sm
  lineage_zero : w.lineage 0 = []
  version_created : ∀ {v m}, w.sm.versions v = some m → ∃ c, w.created v = some c ∧ c.kbID = m.kbID
  created_lt : ∀ {v c}, w.created v = some c → v < w.sm.nextVersionID ∧ c.parentVersionID < v
  created_nodup : ∀ {v c}, w.created v = some c → (c.changes.map (·.docID)).Nodup
  created_parent : ∀ {v c}, w.created v = some c → c.parentVersionID ≠ 0 →
    ∃ p, w.created c.parentVersionID = some p ∧ p.kbID = c.kbID
  lineage_created : ∀ {v c}, w.created v = some c →
    w.lineage v = w.lineage c.parentVersionID ++ c.changes
  job_created : ∀ {job}, job ∈ w.jobs → w.created job.versionID = some job.creation
  job_landed : ∀ {job}, job ∈ w.jobs → job.digest.isSome = true → w.landed job.versionID = true
  landed_created : ∀ {v}, w.landed v = true → ∃ c, w.created v = some c
  waiting : ∀ {v m}, w.sm.versions v = some m → w.landed v = false → Waiting w v m
  list_created : ∀ {kbID v docID}, docID ∈ w.stores.versionDocList.listDocIDs kbID v →
    ∃ c, w.created v = some c ∧ c.kbID = kbID ∧ docID ∈ docSet (w.lineage v)
  list_live : ∀ {kbID v}, w.Live kbID v →
    docSet (w.lineage v) ⊆ w.stores.versionDocList.listDocIDs kbID v
  record_live : ∀ {kbID v c}, w.Live kbID v → w.created v = some c → ∀ change ∈ c.changes,
    w.stores.docStore.db kbID change.docID v = some (encodeValue change.value)
  record_created : ∀ {kbID docID v x}, w.stores.docStore.db kbID docID v = some x →
    ∃ c, w.created v = some c ∧ c.kbID = kbID ∧
      ∃ change ∈ c.changes, change.docID = docID ∧ x = encodeValue change.value

namespace World

variable {w : World} {kbID : String} {v : Nat}

lemma Live.created (hbase : Base w) (hlive : w.Live kbID v) :
    ∃ c, w.created v = some c ∧ c.kbID = kbID := by
  obtain ⟨m, hm, rfl, -, -⟩ := hlive
  exact hbase.version_created hm

lemma Live.listed (hbase : Base w) (hlive : w.Live kbID v) : v ∈ w.sm.versionsByKB kbID := by
  obtain ⟨m, hm, rfl, -, -⟩ := hlive
  exact hbase.wf.listed hm

/-- Live versions in a state with other metadata but the same stores were live before. -/
lemma Live.of_sm {sm' : StateMachine}
    (hkeep : ∀ m', sm'.versions v = some m' →
      ∃ m, w.sm.versions v = some m ∧ m'.kbID = m.kbID ∧ (m.deleting = true → m'.deleting = true))
    (hlive : World.Live { w with sm := sm' } kbID v) : w.Live kbID v := by
  obtain ⟨m', hm', hkb, hdel, hlanded⟩ := hlive
  obtain ⟨m, hm, hkb', hdel'⟩ := hkeep m' hm'
  refine ⟨m, hm, hkb'.symm.trans hkb, ?_, hlanded⟩
  cases hmd : m.deleting with
  | false => rfl
  | true =>
    rw [hdel' hmd] at hdel
    cases hdel

end World

namespace Base

variable {w : World}

lemma init (limit : Nat) (epoch : String) : Base (World.init limit epoch) where
  wf := wellFormed_newStateMachine limit epoch
  lineage_zero := rfl
  version_created h := nomatch h
  created_lt h := nomatch h
  created_nodup h := nomatch h
  created_parent h := nomatch h
  lineage_created h := nomatch h
  job_created h := absurd h List.not_mem_nil
  job_landed h := absurd h List.not_mem_nil
  landed_created h := nomatch h
  waiting h := nomatch h
  list_created h := nomatch h
  list_live h := by
    obtain ⟨m, hm, -⟩ := h
    cases hm
  record_live h := by
    obtain ⟨m, hm, -⟩ := h
    cases hm
  record_created h := nomatch h

/-- A step that changes the metadata only, keeps the versions it has and keeps the unwritten
ones waiting, keeps the whole invariant. -/
lemma of_sm (hbase : Base w) {sm' : StateMachine} (hwf : WellFormed sm')
    (hnext : sm'.nextVersionID = w.sm.nextVersionID)
    (hkeep : ∀ v m', sm'.versions v = some m' →
      ∃ m, w.sm.versions v = some m ∧ m'.kbID = m.kbID ∧ (m.deleting = true → m'.deleting = true))
    (hwaiting : ∀ v m', sm'.versions v = some m' → w.landed v = false →
      Waiting { w with sm := sm' } v m') : Base { w with sm := sm' } where
  wf := hwf
  lineage_zero := hbase.lineage_zero
  version_created hm' := by
    obtain ⟨m, hm, hkb, -⟩ := hkeep _ _ hm'
    rw [hkb]
    exact hbase.version_created hm
  created_lt hc := by
    rw [hnext]
    exact hbase.created_lt hc
  created_nodup hc := hbase.created_nodup hc
  created_parent hc := hbase.created_parent hc
  lineage_created hc := hbase.lineage_created hc
  job_created hjob := hbase.job_created hjob
  job_landed hjob := hbase.job_landed hjob
  landed_created hlanded := hbase.landed_created hlanded
  waiting hm' hlanded := hwaiting _ _ hm' hlanded
  list_created hdoc := hbase.list_created hdoc
  list_live hlive := hbase.list_live (hlive.of_sm (hkeep _))
  record_live hlive := hbase.record_live (hlive.of_sm (hkeep _))
  record_created hx := hbase.record_created hx

lemma of_stores (hbase : Base w) {stores : Stores}
    (hlist : ∀ {kbID v docID}, docID ∈ stores.versionDocList.listDocIDs kbID v →
      ∃ c, w.created v = some c ∧ c.kbID = kbID ∧ docID ∈ docSet (w.lineage v))
    (hlive : ∀ {kbID v}, w.Live kbID v →
      docSet (w.lineage v) ⊆ stores.versionDocList.listDocIDs kbID v)
    (hrecord : ∀ {kbID v c}, w.Live kbID v → w.created v = some c → ∀ change ∈ c.changes,
      stores.docStore.db kbID change.docID v = some (encodeValue change.value))
    (hsource : ∀ {kbID docID v x}, stores.docStore.db kbID docID v = some x →
      ∃ c, w.created v = some c ∧ c.kbID = kbID ∧
        ∃ change ∈ c.changes, change.docID = docID ∧ x = encodeValue change.value) :
    Base { w with stores := stores } :=
  { hbase with
    waiting := fun hm hlanded => { hbase.waiting hm hlanded with }
    list_created := hlist
    list_live := hlive
    record_live := hrecord
    record_created := hsource }

end Base

end stratum.version
