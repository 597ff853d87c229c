import Stratum.Version.Content

namespace stratum.version

open stratum.lib stratum.metadata stratum.coordinator stratum.docstore stratum.versiondoc Option World

/-- The actions of a history of requests, dispatches and storage writes, with the reports
that follow them. -/
def Action.Writes : Action → Prop
  | .deleteVersion .. | .dropVersion .. | .removeVersion .. | .discard .. => False
  | .createKB _ | .request .. | .writePart .. | .write _ | .report _ | .indexStatus ..
  | .rollback .. => True

instance (a : Action) : Decidable a.Writes := by
  induction a using Action.casesOn <;> dsimp only [Action.Writes] <;> infer_instance

variable {kbID : String} {v : Nat} {sm' : StateMachine} {done changes : List DocChange} {job : Job}
  {kbMeta : KnowledgeBaseMeta}

namespace World

def Durable (w : World) (kbID : String) (v : Nat) : Prop :=
  (w.sm.versions v).any fun m => m.kbID = kbID ∧ m.dataStatus = .durable
  deriving Decidable

lemma durable_iff {w : World} : w.Durable kbID v ↔
    ∃ m, w.sm.versions v = some m ∧ m.kbID = kbID ∧ m.dataStatus = .durable := by
  simp [Durable, any_eq_true]

/-- A request under a known key repeats the first one word for word, and the version it is
answered with is durable, or no later version is. -/
def ReplayStep (w : World) (a : Action) : Prop :=
  w.FaithfulRequest a ∧
    match a with
    | .request _ kbID _ _ clientRequestID =>
      ∀ u ∈ w.sm.requestedVersion kbID clientRequestID,
        w.Durable kbID u ∨ ∀ x ∈ w.sm.versionsByKB kbID, u < x → ¬ w.Durable kbID x
    | _ => True

instance (w : World) (a : Action) : Decidable (w.ReplayStep a) := by
  induction a using Action.casesOn <;> dsimp only [ReplayStep] <;> infer_instance

end World

/-- The knowledge base and the deletion mark of a version. -/
def mark (sm : StateMachine) (v : Nat) : Option (String × Bool) :=
  (sm.versions v).map fun m => (m.kbID, m.deleting)

lemma mark_steady {sm : StateMachine} (hsteady : SteadyAll sm sm') (v : Nat) :
    mark sm' v = mark sm v := by
  unfold mark
  cases hm' : sm'.versions v with
  | some m' =>
    obtain ⟨m, hm, hone⟩ := hsteady.before hm'
    simp [hm, hone.kbID, hone.deleting]
  | none =>
  cases hm : sm.versions v with
  | none => rfl
  | some m =>
    obtain ⟨m', hsome, -⟩ := hsteady.after hm
    rw [hm'] at hsome
    cases hsome

/-- Every version ever allocated is still there, unmarked. -/
def Present (w : World) : Prop :=
  ∀ v c, w.created v = some c → mark w.sm v = some (c.kbID, false)

variable {w w' : World} {svc : Services}

section

variable (hpresent : Present w)

include hpresent

namespace Present

lemma report {cmd : Command} (hcmd : cmd.Reports) :
    Present { w with sm := (w.sm.apply 0 cmd).1 } := by
  intro v c hc
  exact (mark_steady (.apply w.sm 0 hcmd) v).trans (hpresent v c hc)

lemma live {c : Creation} (hc : w.created v = some c)
    (hlanded : w.landed v = true) : w.Live c.kbID v := by
  obtain ⟨m, hm, hmark⟩ := map_eq_some_iff.mp (hpresent v c hc)
  obtain ⟨hkb, hdel⟩ := Prod.mk.inj hmark
  exact ⟨m, hm, hkb, hdel, hlanded⟩

lemma allocated (hbase : Base w) {now : Int} {parent : Nat}
    {key : String} : Present (w.allocated now kbID parent changes key) := by
  intro v c hc
  unfold mark World.allocated
  rw [StateMachine.allocateVersion_versions]
  obtain ⟨rfl, rfl, -⟩ | ⟨hlt, hc, -⟩ := created_allocated hbase hc
  · rw [if_pos rfl]
    rfl
  · rw [if_neg (ne_of_lt hlt)]
    exact hpresent v c hc

lemma request (hbase : Base w) (now : Int) (kbID : String) (parent : Nat) (changes : List DocChange)
    (key : String) : Present (w.request now kbID parent changes key) := by
  obtain hsame | ⟨v, -, hagain⟩ | ⟨-, -, hnew⟩ := w.request_cases now kbID parent changes key
  · rw [hsame]
    exact hpresent
  · rw [hagain]
    exact hpresent
  · rw [hnew]
    exact hpresent.allocated hbase

lemma attempt (i : Nat) (job : Job) : Present (w.attempt svc i job) := by
  obtain hsame | ⟨kbMeta, -, hdocs | hall⟩ := w.attempt_cases svc i job
  · rw [hsame]
    exact hpresent
  · rw [hdocs]
    exact hpresent
  · rw [hall]
    exact hpresent

lemma step (hbase : Base w) {a : Action} (hwrites : a.Writes)
    (hstep : w.step svc a = some w') : Present w' := by
  cases a with
  | createKB kb =>
    cases hstep
    exact hpresent
  | request now kbID parent changes key =>
    cases hstep
    exact hpresent.request hbase now kbID parent changes key
  | writePart i done =>
    obtain ⟨job, kbMeta, -, -, -, rfl⟩ := step_writePart hstep
    exact hpresent
  | write i =>
    obtain ⟨job, -, rfl⟩ := map_eq_some_iff.mp hstep
    exact hpresent.attempt i job
  | report i =>
    obtain ⟨job, -, hstep⟩ := bind_eq_some_iff.mp hstep
    obtain ⟨digest, -, rfl⟩ := map_eq_some_iff.mp hstep
    exact hpresent.report trivial
  | indexStatus v status nodeID =>
    obtain ⟨-, ⟨⟩⟩ := ite_none_right_eq_some.mp hstep
    exact hpresent.report trivial
  | rollback kbID v =>
    cases hstep
    exact hpresent.report trivial
  | deleteVersion | dropVersion | removeVersion | discard => exact hwrites.elim

end Present

end

section

variable (hbase : Base w) (hjob : job ∈ w.jobs)

include hbase hjob

lemma writeDocuments_again (hlive : w.Live job.kbID job.versionID)
    (hsub : ∀ change ∈ done, change ∈ job.changes) (kbID docID : String) :
    (writeDocuments svc job.kbID job.versionID kbMeta w.stores done).docStore.db kbID docID =
      w.stores.docStore.db kbID docID := by
  rw [writeDocuments_db]
  cases hlast : lastChange done docID with
  | none => rfl
  | some change =>
  obtain ⟨hmem, rfl⟩ := lastChange_mem hlast
  dsimp only
  by_cases hkb : kbID = job.kbID
  · have hrecord := hbase.record_live hlive (hbase.job_created hjob) change (hsub change hmem)
    rw [if_pos hkb, ← hrecord, Function.update_eq_self, hkb]
  · rw [if_neg hkb]

/-- A write of a version above `v`, or of a live one, leaves what `v` reads alone. -/
lemma latest_untouched (hsafe : job.kbID = kbID → v < job.versionID ∨ w.Live job.kbID job.versionID)
    (hsub : ∀ change ∈ done, change ∈ job.changes) (docID : String) :
    latest ((writeDocuments svc job.kbID job.versionID kbMeta w.stores done).docStore.db
      kbID docID) v = latest (w.stores.docStore.db kbID docID) v := by
  by_cases hkb : job.kbID = kbID
  · obtain hlt | hlive := hsafe hkb
    · rw [writeDocuments_db]
      cases lastChange done docID with
      | none => rfl
      | some change =>
        dsimp only
        rw [if_pos hkb.symm, latest_update_of_gt hlt, hkb]
    · rw [writeDocuments_again hbase hjob hlive hsub]
  · rw [writeDocuments_db]
    cases lastChange done docID with
    | none => rfl
    | some change =>
      dsimp only
      rw [if_neg (Ne.symm hkb)]

end

/-- What a step leaves of the reads at `v`. -/
def Untouched (kbID : String) (v : Nat) (w w' : World) : Prop :=
  w'.stores.versionDocList.listDocIDs kbID v = w.stores.versionDocList.listDocIDs kbID v ∧
    ∀ docID, w'.stores.docStore.readAt kbID docID v = w.stores.docStore.readAt kbID docID v

lemma untouched_attempt (hbase : Base w) {i : Nat} (hjob : job ∈ w.jobs)
    (hsafe : job.kbID = kbID → v < job.versionID ∨ w.Live job.kbID job.versionID) :
    Untouched kbID v w (w.attempt svc i job) := by
  have hreads : ∀ kbMeta docID, DocStore.readAt
      (writeDocuments svc job.kbID job.versionID kbMeta w.stores job.changes).docStore kbID docID v =
      w.stores.docStore.readAt kbID docID v := by
    intro kbMeta docID
    exact DocStore.readAt_congr (latest_untouched hbase hjob hsafe (fun _ h => h) docID)
  obtain hsame | ⟨kbMeta, -, hdocs | hall⟩ := w.attempt_cases svc i job
  · rw [hsame]
    exact ⟨rfl, fun _ => rfl⟩
  · rw [hdocs]
    exact ⟨by rw [writeDocuments_versionDocList], hreads kbMeta⟩
  · rw [hall]
    refine ⟨?_, hreads kbMeta⟩
    by_cases hown : kbID = job.kbID ∧ v = job.versionID
    -- a live version's stored document set is complete already
    · obtain ⟨rfl, rfl⟩ := hown
      have hlive := (hsafe rfl).resolve_left (lt_irrefl _)
      refine (VersionDocList.listDocIDs_writeMany_self ..).trans (Finset.union_eq_left.mpr ?_)
      exact (hbase.derived_subset hjob).trans (hbase.list_live hlive)
    · exact VersionDocList.listDocIDs_writeMany_of_ne _ hown

/-- From the `n`-th job on, a job of the knowledge base is for a version above the durable
version `v`, or for one that has landed. -/
structure LaterSafe (n : Nat) (kbID : String) (v : Nat) (w : World) : Prop where
  durable : w.Durable kbID v
  jobs : ∀ i job, n ≤ i → w.jobs[i]? = some job → job.kbID = kbID →
    v < job.versionID ∨ w.landed job.versionID = true

namespace LaterSafe

variable {n v : Nat} {kbID : String} (hsafe : LaterSafe n kbID v w)

include hsafe

lemma push {created' : Nat → Option Creation} {lineage' : Nat → List DocChange}
    (hdurable : World.Durable { w with sm := sm' } kbID v)
    (hjob : job.kbID = kbID → v < job.versionID ∨ w.landed job.versionID = true) :
    LaterSafe n kbID v { w with
      sm := sm', jobs := w.jobs ++ [job], created := created', lineage := lineage' } := by
  refine ⟨hdurable, ?_⟩
  intro i j hi hj hkb
  rw [List.getElem?_append] at hj
  by_cases hlt : i < w.jobs.length
  · rw [if_pos hlt] at hj
    exact hsafe.jobs i j hi hj hkb
  rw [if_neg hlt] at hj
  have hj := List.mem_singleton.mp (List.mem_of_getElem? hj)
  subst hj
  exact hjob hkb

/-- The version a repeated request is answered with has landed if it is durable; otherwise
nothing above it is, so it is not below `v`. -/
lemma request (hbase : Base w) {now : Int} {kb : String} {parent : Nat} {key : String}
    (hok : w.ReplayStep (.request now kb parent changes key)) :
    LaterSafe n kbID v (w.request now kb parent changes key) := by
  obtain ⟨m, hm, hmkb, hdata⟩ := durable_iff.mp hsafe.durable
  obtain hsame | ⟨u, hu, hagain⟩ | ⟨-, -, hnew⟩ := w.request_cases now kb parent changes key
  · rw [hsame]
    exact hsafe
  · rw [hagain]
    refine hsafe.push hsafe.durable ?_
    intro hkb
    have hkb : kb = kbID := hkb
    subst hkb
    have hlanded : w.Durable kb u → w.landed u = true := by
      intro hdurable
      obtain ⟨p, hp, -, hpdata⟩ := durable_iff.mp hdurable
      exact hbase.landed_of_durable hp hpdata
    obtain hdurable | hnone := hok.2 u hu
    · exact .inr (hlanded hdurable)
    obtain hlt | rfl | hgt := lt_trichotomy u v
    · exact absurd hsafe.durable (hnone v (hmkb ▸ hbase.wf.listed hm) hlt)
    · exact .inr (hlanded hsafe.durable)
    · exact .inl hgt
  · rw [hnew]
    have hlt := hbase.wf.lt_next hm
    refine hsafe.push (durable_iff.mpr ⟨m, ?_, hmkb, hdata⟩) fun _ => .inl hlt
    rw [StateMachine.allocateVersion_versions, if_neg (ne_of_lt hlt)]
    exact hm

lemma attempt {i : Nat} (hjob : w.jobs[i]? = some job) :
    LaterSafe n kbID v (w.attempt svc i job) := by
  obtain hsame | ⟨kbMeta, -, hdocs | hall⟩ := w.attempt_cases svc i job
  · rw [hsame]
    exact hsafe
  · rw [hdocs]
    exact ⟨hsafe.durable, hsafe.jobs⟩
  rw [hall]
  refine ⟨hsafe.durable, ?_⟩
  intro k j hk hj hkb
  unfold committed at hj ⊢
  dsimp only at hj ⊢
  by_cases hid : j.versionID = job.versionID
  · exact .inr (by rw [hid, Function.update_self])
  rw [Function.update_of_ne hid]
  rw [List.getElem?_set] at hj
  by_cases hki : i = k
  · subst hki
    have hlen := (List.getElem?_eq_some_iff.mp hjob).1
    rw [if_pos rfl, if_pos hlen, some.injEq] at hj
    subst hj
    exact absurd rfl hid
  · rw [if_neg hki] at hj
    exact hsafe.jobs k j hk hj hkb

lemma report {cmd : Command} (hcmd : cmd.Reports) :
    LaterSafe n kbID v { w with sm := (w.sm.apply 0 cmd).1 } := by
  refine ⟨durable_iff.mpr ?_, hsafe.jobs⟩
  obtain ⟨m, hm, hkb, hdata⟩ := durable_iff.mp hsafe.durable
  obtain ⟨m', hm', hone⟩ := (SteadyAll.apply w.sm 0 hcmd).after hm
  exact ⟨m', hm', hone.kbID.trans hkb, hone.durable hdata⟩

lemma step (hbase : Base w) {a : Action} (hwrites : a.Writes) (hok : w.ReplayStep a)
    (hstep : w.step svc a = some w') : LaterSafe n kbID v w' := by
  cases a with
  | createKB | rollback =>
    cases hstep
    exact hsafe.report trivial
  | request now kb parent changes key =>
    cases hstep
    exact hsafe.request hbase hok
  | writePart i done =>
    obtain ⟨job, kbMeta, -, -, -, rfl⟩ := step_writePart hstep
    exact ⟨hsafe.durable, hsafe.jobs⟩
  | write i =>
    obtain ⟨job, hjob, rfl⟩ := map_eq_some_iff.mp hstep
    exact hsafe.attempt hjob
  | report i =>
    obtain ⟨job, -, hstep⟩ := bind_eq_some_iff.mp hstep
    obtain ⟨digest, -, rfl⟩ := map_eq_some_iff.mp hstep
    exact hsafe.report trivial
  | indexStatus u status nodeID =>
    obtain ⟨-, ⟨⟩⟩ := ite_none_right_eq_some.mp hstep
    exact hsafe.report trivial
  | deleteVersion | dropVersion | removeVersion | discard => exact hwrites.elim

end LaterSafe

/-- A request, or the write of a job from the `n`-th on. -/
def Action.Since (n : Nat) : Action → Prop
  | .request .. => True
  | .write i | .writePart i _ => n ≤ i
  | _ => False

/-- Once a version is durable, no later request changes the document set stored for it or
what it reads, as long as requests under a known key repeat the first one and name a version
that is durable or that no durable version comes after. -/
theorem durable_immutable (svc : Services) (limit : Nat) (epoch : String) {s t t' : World}
    (hs : Reach (step svc) (fun w a => a.Writes ∧ w.ReplayStep a) (init limit epoch) s)
    {kbID : String} {v : Nat} (hdurable : s.Durable kbID v)
    (ht : Reach (step svc) (fun w a => a.Writes ∧ w.ReplayStep a) s t)
    {a : Action} (hlater : a.Since s.jobs.length) (hstep : t.step svc a = some t') :
    t'.stores.versionDocList.listDocIDs kbID v = t.stores.versionDocList.listDocIDs kbID v ∧
      ∀ docID, t'.stores.docStore.readAt kbID docID v = t.stores.docStore.readAt kbID docID v := by
  have hinv : ∀ {w}, Reach (step svc) (fun w a => a.Writes ∧ w.ReplayStep a)
      (init limit epoch) w → Base w ∧ Present w := by
    intro w hreach
    refine hreach.invariant (fun w => Base w ∧ Present w) ⟨Base.init limit epoch, ?_⟩ ?_
    · exact nofun
    · rintro w w' a - ⟨hbase, hpresent⟩ ⟨hwrites, hok⟩ hstep
      exact ⟨hbase.step hok.1 hstep, hpresent.step hbase hwrites hstep⟩
  obtain ⟨hbase, hpresent⟩ := hinv (hs.trans ht)
  have hsafe : LaterSafe s.jobs.length kbID v t := by
    refine ht.invariant (LaterSafe s.jobs.length kbID v) ⟨hdurable, ?_⟩ ?_
    · intro i job hi hjob
      rw [List.getElem?_eq_none hi] at hjob
      cases hjob
    · intro w w' a hreach hsafe hok hstep
      exact hsafe.step (hinv (hs.trans hreach)).1 hok.1 hok.2 hstep
  -- A job of a later request is for a version above `v`, or for one that is live already.
  have hjobs : ∀ {i job}, s.jobs.length ≤ i → t.jobs[i]? = some job → job.kbID = kbID →
      v < job.versionID ∨ t.Live job.kbID job.versionID := by
    intro i job hi hjob hkb
    obtain hlt | hlanded := hsafe.jobs i job hi hjob hkb
    · exact .inl hlt
    · exact .inr (hpresent.live (hbase.job_created (List.mem_of_getElem? hjob)) hlanded)
  cases a with
  | request now kb parent changes key =>
    cases hstep
    obtain hsame | ⟨u, -, hagain⟩ | ⟨-, -, hnew⟩ := t.request_cases now kb parent changes key
    · rw [hsame]
      exact ⟨rfl, fun _ => rfl⟩
    · rw [hagain]
      exact ⟨rfl, fun _ => rfl⟩
    · rw [hnew]
      exact ⟨rfl, fun _ => rfl⟩
  | writePart i done =>
    obtain ⟨job, kbMeta, hjob, -, hsub, rfl⟩ := step_writePart hstep
    refine ⟨by rw [writeDocuments_versionDocList], ?_⟩
    intro docID
    exact DocStore.readAt_congr (latest_untouched hbase (List.mem_of_getElem? hjob)
      (hjobs hlater hjob) hsub docID)
  | write i =>
    obtain ⟨job, hjob, rfl⟩ := map_eq_some_iff.mp hstep
    exact untouched_attempt hbase (List.mem_of_getElem? hjob) (hjobs hlater hjob)
  | createKB _ | report _ | indexStatus _ _ _ | rollback _ _ | deleteVersion _ _ _
  | dropVersion _ _ _ | removeVersion _ _ | discard _ _ => exact hlater.elim

def firstWrite : List Action :=
  [.createKB { kbID := "kb" }, .request 0 "kb" 0 [addDoc "d" "a"] "key", .write 0, .report 0]

/-- A retry after the write finished, word for word: it is written again and nothing moves. -/
theorem durable_immutable_retry : ∃ s t t',
    Reach (step wholeText) (fun w a => a.Writes ∧ w.ReplayStep a) (init 8 "epoch") s ∧
      s.Durable "kb" 1 ∧ s.jobs.length = 1 ∧
      Reach (step wholeText) (fun w a => a.Writes ∧ w.ReplayStep a) s t ∧
      t.step wholeText (.write 1) = some t' ∧
      t'.stores.versionDocList.listDocIDs "kb" 1 = t.stores.versionDocList.listDocIDs "kb" 1 ∧
      ∀ docID, t'.stores.docStore.readAt "kb" docID 1 = t.stores.docStore.readAt "kb" docID 1 := by
  have hrun : (run (step wholeText) (fun w a => a.Writes ∧ w.ReplayStep a)
      (init 8 "epoch") firstWrite).any (fun s =>
        decide (s.Durable "kb" 1 ∧ s.jobs.length = 1) &&
        (run (step wholeText) (fun w a => a.Writes ∧ w.ReplayStep a) s
          [.request 0 "kb" 0 [addDoc "d" "a"] "key"]).any fun t =>
            (t.step wholeText (.write 1)).isSome) = true := by
    decide +kernel
  obtain ⟨s, hs, hrun⟩ := Reach.exists_of_run hrun
  rw [Bool.and_eq_true] at hrun
  obtain ⟨hdurable, hlen⟩ := of_decide_eq_true hrun.1
  obtain ⟨t, ht, hsome⟩ := Reach.exists_of_run hrun.2
  obtain ⟨t', hstep⟩ := isSome_iff_exists.mp hsome
  have hlater : (Action.write 1).Since s.jobs.length := le_of_eq hlen
  exact ⟨s, t, t', hs, hdurable, hlen, ht, hstep,
    durable_immutable wholeText 8 "epoch" hs hdurable ht hlater hstep⟩

/-- A retry under the same key with other changes is answered with the durable version and
written over it. -/
theorem durable_overwritten : ∃ s t t',
    Reach (step wholeText) (fun _ a => a.Writes) (init 8 "epoch") s ∧
      s.Durable "kb" 1 ∧ s.jobs.length = 1 ∧
      Reach (step wholeText) (fun _ a => a.Writes) s t ∧
      t.step wholeText (.write 1) = some t' ∧
      t.stores.versionDocList.listDocIDs "kb" 1 = {"d"} ∧
      t'.stores.versionDocList.listDocIDs "kb" 1 = {"d", "e"} ∧
      t.stores.docStore.readAt "kb" "d" 1 = .ok "a" ∧
      t'.stores.docStore.readAt "kb" "d" 1 = .ok "z" := by
  have hrun : (run (step wholeText) (fun _ a => a.Writes) (init 8 "epoch")
      firstWrite).any (fun s =>
        decide (s.Durable "kb" 1 ∧ s.jobs.length = 1) &&
        (run (step wholeText) (fun _ a => a.Writes) s
          [.request 0 "kb" 0 [updateDoc "d" "z", addDoc "e" "y"] "key"]).any fun t =>
            (t.step wholeText (.write 1)).any fun t' => decide
              (t.stores.versionDocList.listDocIDs "kb" 1 = {"d"} ∧
                t'.stores.versionDocList.listDocIDs "kb" 1 = {"d", "e"} ∧
                t.stores.docStore.readAt "kb" "d" 1 = .ok "a" ∧
                t'.stores.docStore.readAt "kb" "d" 1 = .ok "z")) = true := by
    decide +kernel
  obtain ⟨s, hs, hrun⟩ := Reach.exists_of_run hrun
  rw [Bool.and_eq_true] at hrun
  obtain ⟨hdurable, hlen⟩ := of_decide_eq_true hrun.1
  obtain ⟨t, ht, hwrite⟩ := Reach.exists_of_run hrun.2
  obtain ⟨t', hstep, hreads⟩ := any_eq_true _ _ |>.mp hwrite
  exact ⟨s, t, t', hs, hdurable, hlen, ht, hstep, of_decide_eq_true hreads⟩

end stratum.version
