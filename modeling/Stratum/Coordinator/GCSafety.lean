import Stratum.Coordinator.ChunkGC
import Stratum.Metadata.Linear

namespace stratum.coordinator.gc

open Collector Thread

open stratum.lib stratum.metadata stratum.docstore stratum.versiondoc stratum.chunkdoc Function Finset Option World
open List (not_mem_nil mem_cons_self mem_cons_of_mem mem_of_getElem?)

/-- A version the metadata lists and that is not being deleted. -/
def isLive (sm : StateMachine) (kbID : String) (v : Nat) : Bool :=
  (sm.versions v).any fun m => m.kbID = kbID && !m.deleting

variable {d kbID docID chunkID : String} {sm sm' : StateMachine} {i u v : Nat} {live : List Nat}
  {changes : List DocChange} {col : Collector}

lemma isLive_iff : isLive sm kbID v = true ↔
      ∃ m, sm.versions v = some m ∧ m.kbID = kbID ∧ m.deleting = false := by
  simp [isLive, any_eq_true]

lemma mem_liveVersionIDs (hwf : WellFormed sm) {except : Nat}
    (hlive : liveVersionIDs sm kbID except = .ok live) :
    v ∈ live ↔ isLive sm kbID v = true ∧ v ≠ except := by
  unfold liveVersionIDs StateMachine.listVersions at hlive
  cases hkb : sm.kbs kbID with
  | none =>
    rw [hkb] at hlive
    cases hlive
  | some kb =>
  rw [hkb] at hlive
  cases hlive
  have hversion {u : Nat} {m : VersionMeta} (hm : sm.versions u = some m) : sm.version u = m := by
    simp [StateMachine.version, hm]
  rw [isLive_iff]
  simp only [List.mem_map, List.mem_filter, decide_eq_true_eq]
  constructor
  · rintro ⟨m, ⟨⟨u, hu, rfl⟩, hdeleting, hne⟩, rfl⟩
    obtain ⟨m, hm, hkbID⟩ := hwf.present hu
    rw [hversion hm] at hdeleting hne ⊢
    rw [hwf.id_eq hm] at hne ⊢
    exact ⟨⟨m, hm, hkbID, Bool.eq_false_iff.mpr hdeleting⟩, hne⟩
  · rintro ⟨⟨m, hm, rfl, hdeleting⟩, hne⟩
    refine ⟨m, ⟨⟨v, hwf.listed hm, hversion hm⟩, ?_, ?_⟩, hwf.id_eq hm⟩
    · rw [hdeleting]
      exact Bool.false_ne_true
    · rwa [hwf.id_eq hm]

lemma isLive_le_last (hwf : WellFormed sm) (hasc : Ascending sm) {tail : Nat}
    (htail : sm.lastVersionID kbID = .ok tail) (hlive : isLive sm kbID v = true) : v ≤ tail := by
  obtain ⟨m, hm, rfl, -⟩ := isLive_iff.mp hlive
  have hmem := hwf.listed hm
  unfold StateMachine.lastVersionID at htail
  split at htail
  · cases htail
  cases htail
  have hids := hasc m.kbID
  obtain hnil | ⟨init, last, heq⟩ := List.eq_nil_or_concat (sm.versionsByKB m.kbID)
  · rw [hnil] at hmem
    exact absurd hmem not_mem_nil
  rw [heq, List.concat_eq_append] at hmem hids
  rw [heq, List.concat_eq_append]
  obtain ⟨-, -, hinit⟩ := List.pairwise_append.mp hids
  rw [List.getLastD_concat]
  obtain hv | hv := List.mem_append.mp hmem
  · exact le_of_lt (hinit v hv last mem_cons_self)
  · rw [List.mem_singleton.mp hv]

section Safety

variable (svc : Services) (kbID : String) (kbMeta : KnowledgeBaseMeta)

/-- A committed write of a live version relies on a chunk for a document. -/
def Relies (w : World) (chunkID docID : String) (v : Nat) : Prop :=
  ∃ changes, w.committed v = some changes ∧ isLive w.sm kbID v = true ∧ v ∉ w.dropped ∧
    ∃ change ∈ changes, change.op ≠ .delete ∧ change.docID = docID ∧
      chunkID ∈ chunkIDs svc kbMeta change.content

/-- Every chunk a committed write relies on has its vector, and its pair with the document. -/
def ChunksKept (w : World) : Prop :=
  ∀ chunkID docID v, Relies svc kbID kbMeta w chunkID docID v →
    chunkID ∈ w.st.chunkStore.vectors kbID ∧ (chunkID, docID) ∈ w.st.chunkDocMapper.pairs kbID

/-- The chunks a collector is about to take the lock for. -/
def Collector.claims : Collector → List String
  | .candidate _ _ chunkID => [chunkID]
  | .scanned _ chunkIDs => chunkIDs
  | _ => []

/-- Writes and collectors with the lock keep out of each other's chunks, as if the writes had the
lock themselves; a write begins when the node's metadata has the version, is not repeated once it
is committed unless the version was reclaimed, and changes no document twice. -/
def Excluded (w : World) : Action → Prop
  | .start _ v changes =>
    isLive w.sm kbID v = true ∧ ((w.committed v).isNone ∨ v ∈ w.dropped) ∧
      (changes.map (·.docID)).Nodup ∧
      ∀ c ∈ w.collectors, ∀ chunkID ∈ c.guards, chunkID ∉ chunksOf svc kbMeta changes
  | .collect i _ =>
    ∀ c ∈ (w.collectors[i]?).toList, ∀ chunkID ∈ c.claims, ∀ v < w.sm.nextVersionID,
      ∀ write ∈ (w.writes v).toList, chunkID ∉ chunksOf svc kbMeta write.changes
  | _ => True

instance (w : World) (a : Action) : Decidable (Excluded svc kbID kbMeta w a) := by
  induction a using Action.casesOn <;> dsimp only [Excluded] <;> infer_instance

variable {svc kbID kbMeta}

/-- The chunks a thread has still to see to. -/
def Phase.owed : Phase → List String
  | .checking todo pending => todo ++ pending
  | .storing todo => todo
  | .writing chunkID todo => chunkID :: todo
  | _ => []

variable (svc kbID kbMeta) in
/-- What a thread has done by its phase, for a document that is not deleted: the chunks it does
not owe any more have their vectors, then all have their pairs, then the record is there. -/
structure Thread.Stands (st : Stores) (dropped : Finset Nat) (v : Nat) (t : Thread) : Prop where
  owed : ∀ c ∈ t.phase.owed, t.change.op ≠ .delete ∧ c ∈ chunkIDs svc kbMeta t.change.content
  vectors : t.change.op ≠ .delete → ∀ c ∈ chunkIDs svc kbMeta t.change.content,
    c ∈ t.phase.owed ∨ c ∈ st.chunkStore.vectors kbID
  pairs : t.change.op ≠ .delete → t.phase = .document ∨ t.phase = .done →
    ∀ c ∈ chunkIDs svc kbMeta t.change.content, (c, t.change.docID) ∈ st.chunkDocMapper.pairs kbID
  record : t.change.op ≠ .delete → t.phase = .done → v ∉ dropped →
    st.docStore.db kbID t.change.docID v = some (.content t.change.content)
  deletes : t.phase = .tombstone → t.change.op = .delete

variable (svc kbID kbMeta) in
structure Write.Stands (st : Stores) (dropped : Finset Nat) (v : Nat) (write : Write) : Prop where
  changes : write.threads.map (·.change) = write.changes
  nodup : (write.changes.map (·.docID)).Nodup
  threads : ∀ t ∈ write.threads, t.Stands svc kbID kbMeta st dropped v
  present : ∀ c ∈ write.present,
    c ∈ chunksOf svc kbMeta write.changes ∧ c ∈ st.chunkStore.vectors kbID

/-- The snapshot has every live version that was allocated when it was taken. -/
def Covers (sm : StateMachine) (kbID : String) (snapshot : List Nat) : Prop :=
  ∃ next ≤ sm.nextVersionID, (∀ v ∈ snapshot, v < next) ∧
    ∀ v, isLive sm kbID v = true → v < next → v ∈ snapshot

def After.Sound (sm : StateMachine) (kbID : String) : After → Prop
  | .sweep snapshot _ => Covers sm kbID snapshot
  | .reclaim => True

/-- A collector with the lock has read the versions that rely on its chunks as live, has the reads
in front of it that show them in use, and removes no chunk in use. -/
def Collector.Sound (sm : StateMachine) (kbID : String) (R : String → String → Nat → Prop) :
    Collector → Prop
  | .listing snapshot | .sweeping snapshot _ | .judging snapshot _ _ | .candidate snapshot _ _
  | .entered snapshot _ _ | .relisting snapshot _ _ => Covers sm kbID snapshot
  | .ready live todo after =>
    after.Sound sm kbID ∧ ∀ c ∈ todo, ∀ d v, R c d v → v ∈ live
  | .confirming live todo judgement after =>
    after.Sound sm kbID ∧ (∀ c ∈ todo, ∀ d v, R c d v → v ∈ live) ∧
      ∀ d v, R judgement.chunkID d v → (d, v) ∈ judgement.reads
  | .unmapping live todo chunkID _ after | .removing live todo chunkID after =>
    after.Sound sm kbID ∧ (∀ c ∈ todo, ∀ d v, R c d v → v ∈ live) ∧ ∀ d v, ¬R chunkID d v
  | .idle | .scanned _ _ | .reclaiming _ _ => True

variable (svc kbID kbMeta) in
structure Inv (w : World) : Prop where
  wf : WellFormed w.sm
  asc : Ascending w.sm
  writes : ∀ v write, w.writes v = some write →
    w.committed v = none ∧ v < w.sm.nextVersionID ∧ write.Stands svc kbID kbMeta w.st w.dropped v
  committed : ∀ v changes, w.committed v = some changes → v < w.sm.nextVersionID
  kept : ∀ c d v, Relies svc kbID kbMeta w c d v →
    c ∈ w.st.chunkStore.vectors kbID ∧ (c, d) ∈ w.st.chunkDocMapper.pairs kbID ∧
      ∃ content, content ≠ "" ∧ w.st.docStore.db kbID d v = some (.content content)
  collectors : ∀ col ∈ w.collectors, col.Sound w.sm kbID (Relies svc kbID kbMeta w)
  apart : ∀ col ∈ w.collectors, ∀ c ∈ col.guards, ∀ v write, w.writes v = some write →
    c ∉ chunksOf svc kbMeta write.changes

lemma mem_chunksOf {c : String} : c ∈ chunksOf svc kbMeta changes ↔
      ∃ change ∈ changes, change.op ≠ .delete ∧ c ∈ chunkIDs svc kbMeta change.content := by
  simp [chunksOf, and_assoc]

lemma Covers.mono {snapshot : List Nat} (h : Covers sm kbID snapshot)
    (hnext : sm.nextVersionID ≤ sm'.nextVersionID)
    (hlive : ∀ v, v < sm.nextVersionID → isLive sm' kbID v = true → isLive sm kbID v = true) :
    Covers sm' kbID snapshot := by
  obtain ⟨next, hle, hbound, hmem⟩ := h
  refine ⟨next, hle.trans hnext, hbound, fun v hv hlt => ?_⟩
  exact hmem v (hlive v (lt_of_lt_of_le hlt hle) hv) hlt

lemma Collector.Sound.mono {R R' : String → String → Nat → Prop} (h : col.Sound sm kbID R)
    (hcovers : ∀ snapshot, Covers sm kbID snapshot → Covers sm' kbID snapshot)
    (hR : ∀ c ∈ col.guards, ∀ d v, R' c d v → R c d v) : col.Sound sm' kbID R' := by
  have hafter {after : After} (h : after.Sound sm kbID) : after.Sound sm' kbID := by
    cases after with
    | sweep snapshot todo => exact hcovers snapshot h
    | reclaim => trivial
  cases col with
  | idle | scanned | reclaiming => trivial
  | listing | sweeping | judging | candidate | entered | relisting => exact hcovers _ h
  | ready live todo after =>
    exact ⟨hafter h.1, fun c hc d v hr => h.2 c hc d v (hR c hc d v hr)⟩
  | confirming live todo judgement after =>
    obtain ⟨ha, htodo, hreads⟩ := h
    refine ⟨hafter ha, fun c hc d v hr => ?_, fun d v hr => ?_⟩
    · exact htodo c hc d v (hR c (mem_cons_of_mem _ hc) d v hr)
    · exact hreads d v (hR _ mem_cons_self d v hr)
  | unmapping live todo chunkID docIDs after | removing live todo chunkID after =>
    obtain ⟨ha, htodo, hnone⟩ := h
    refine ⟨hafter ha, fun c hc d v hr => ?_, fun d v hr => ?_⟩
    · exact htodo c hc d v (hR c (mem_cons_of_mem _ hc) d v hr)
    · exact hnone d v (hR _ mem_cons_self d v hr)

/-- What a step of a write does to the stores: nothing goes, and only its own record changes. -/
structure Grows (kbID : String) (st st' : Stores) (docID : String) (v : Nat) : Prop where
  vectors : ∀ c ∈ st.chunkStore.vectors kbID, c ∈ st'.chunkStore.vectors kbID
  pairs : ∀ p ∈ st.chunkDocMapper.pairs kbID, p ∈ st'.chunkDocMapper.pairs kbID
  records : ∀ d u, ¬(d = docID ∧ u = v) → st'.docStore.db kbID d u = st.docStore.db kbID d u

/-- What a collector does to the stores: one chunk loses its vector or pairs. -/
structure Loses (kbID : String) (st st' : Stores) (chunkID : String) : Prop where
  vectors : ∀ c ∈ st.chunkStore.vectors kbID, c ≠ chunkID → c ∈ st'.chunkStore.vectors kbID
  pairs : ∀ p ∈ st.chunkDocMapper.pairs kbID, p.1 ≠ chunkID → p ∈ st'.chunkDocMapper.pairs kbID
  docStore : st'.docStore = st.docStore

lemma Grows.refl (kbID : String) (st : Stores) (docID : String) (v : Nat) :
    Grows kbID st st docID v :=
  ⟨fun _ h => h, fun _ h => h, fun _ _ _ => rfl⟩

namespace Thread.Stands

variable {st st' : Stores} {dropped dropped' : Finset Nat} {v : Nat} {t : Thread}
  (h : t.Stands svc kbID kbMeta st dropped v)

include h

lemma grow (hgrows : Grows kbID st st' docID u) (hother : ¬(t.change.docID = docID ∧ v = u)) :
    t.Stands svc kbID kbMeta st' dropped v where
  __ := h
  vectors hop c hc := (h.vectors hop c hc).imp_right (hgrows.vectors c)
  pairs hop hphase c hc := hgrows.pairs _ (h.pairs hop hphase c hc)
  record hop hphase hdropped := by
    rw [hgrows.records _ _ hother]
    exact h.record hop hphase hdropped

lemma lose (hloses : Loses kbID st st' chunkID)
    (hunused : t.change.op ≠ .delete → chunkID ∉ chunkIDs svc kbMeta t.change.content) :
    t.Stands svc kbID kbMeta st' dropped v where
  __ := h
  vectors hop c hc := by
    have hne : c ≠ chunkID := fun heq => hunused hop (heq ▸ hc)
    exact (h.vectors hop c hc).imp_right fun hin => hloses.vectors c hin hne
  pairs hop hphase c hc := by
    have hne : c ≠ chunkID := fun heq => hunused hop (heq ▸ hc)
    exact hloses.pairs _ (h.pairs hop hphase c hc) hne
  record hop hphase hdropped := by
    rw [hloses.docStore]
    exact h.record hop hphase hdropped

lemma of_subset (hdropped : v ∈ dropped → v ∈ dropped') :
    t.Stands svc kbID kbMeta st dropped' v where
  __ := h
  record hop hphase hnot := h.record hop hphase fun hin => hnot (hdropped hin)

end Thread.Stands

lemma Thread.begin_stands (st : Stores) (dropped : Finset Nat) (v : Nat) (change : DocChange) :
    (Thread.begin svc kbMeta change).Stands svc kbID kbMeta st dropped v := by
  unfold Thread.begin
  have hadd (hop : change.op ≠ .delete) :
      Thread.Stands svc kbID kbMeta st dropped v ⟨change,
        if chunkIDs svc kbMeta change.content = [] then .document
        else .checking (chunkIDs svc kbMeta change.content) []⟩ := by
    split
    · next hnone =>
      refine ⟨nofun, fun _ c hc => ?_, fun _ _ c hc => ?_, ?_, nofun⟩
      · rw [hnone] at hc
        exact absurd hc not_mem_nil
      · rw [hnone] at hc
        exact absurd hc not_mem_nil
      · exact nofun
    · refine ⟨fun c hc => ?_, fun _ c hc => .inl ?_, ?_, ?_, nofun⟩
      · rw [Phase.owed, List.append_nil] at hc
        exact ⟨hop, hc⟩
      · rwa [Phase.owed, List.append_nil]
      all_goals exact nofun
  cases hop : change.op with
  | add | update => exact hadd (by rw [hop]; decide)
  | delete =>
    exact ⟨nofun, absurd hop, absurd hop, absurd hop, fun _ => hop⟩

lemma write_elsewhere {ds : DocStore} {value : Option String} (hne : ¬(d = docID ∧ u = v)) :
    (ds.write kbID docID v value).db kbID d u = ds.db kbID d u := by
  by_cases hd : d = docID
  · subst hd
    have hu : u ≠ v := fun hu => hne ⟨rfl, hu⟩
    rw [DocStore.write_self, update_of_ne hu]
  · rw [DocStore.write_of_ne value fun h => hd h.2]

variable (svc kbID kbMeta) in
/-- What the step of a thread leaves behind. -/
structure Stepped (st st' : Stores) (dropped : Finset Nat) (v : Nat) (present present' : Finset String)
    (t t' : Thread) : Prop where
  change : t'.change = t.change
  stands : t'.Stands svc kbID kbMeta st' dropped v
  grows : Grows kbID st st' t.change.docID v
  present : ∀ c ∈ present', c ∈ st'.chunkStore.vectors kbID ∧
    (c ∈ present ∨ t.change.op ≠ .delete ∧ c ∈ chunkIDs svc kbMeta t.change.content)

section ThreadStep

variable {st st' : Stores} {dropped : Finset Nat} {v : Nat} {present present' : Finset String}
  {t t' : Thread} {hint : Bool} (h : t.Stands svc kbID kbMeta st dropped v)
  (hpresent : ∀ c ∈ present, c ∈ st.chunkStore.vectors kbID)

include h hpresent

/-- A step that leaves the stores alone and remembers a chunk that is there, or none. -/
lemma stepped_of_seen
    (hpresent' : ∀ c ∈ present', c ∈ present ∨ c ∈ t.phase.owed ∧ c ∈ st.chunkStore.vectors kbID)
    {phase : Phase} (hphase : phase ≠ .document ∧ phase ≠ .done ∧ phase ≠ .tombstone)
    (howed : ∀ c ∈ phase.owed, c ∈ t.phase.owed)
    (hseen : ∀ c ∈ t.phase.owed, c ∈ phase.owed ∨ c ∈ st.chunkStore.vectors kbID) :
    Stepped svc kbID kbMeta st st dropped v present present' t { t with phase := phase } where
  change := rfl
  stands := {
    owed := fun c hc => h.owed c (howed c hc)
    vectors := fun hop c hc => (h.vectors hop c hc).elim (hseen c) .inr
    pairs := fun _ hdone => (hdone.elim hphase.1 hphase.2.1).elim
    record := fun _ hdone => (hphase.2.1 hdone).elim
    deletes := fun hdelete => (hphase.2.2 hdelete).elim }
  grows := .refl kbID st _ v
  present c hc := by
    obtain hc | ⟨hc, hin⟩ := hpresent' c hc
    · exact ⟨hpresent c hc, .inl hc⟩
    · exact ⟨hin, .inr (h.owed c hc)⟩

lemma stepped_of_present (hpres : chunkPresent kbID st present hint chunkID = true) {phase : Phase}
    (hphase : phase ≠ .document ∧ phase ≠ .done ∧ phase ≠ .tombstone)
    (howed : t.phase.owed = chunkID :: phase.owed) :
    Stepped svc kbID kbMeta st st dropped v present (insert chunkID present) t
      { t with phase := phase } := by
  have hin : chunkID ∈ st.chunkStore.vectors kbID := by
    obtain h | h := Bool.or_eq_true_iff.mp hpres
    · exact hpresent chunkID (of_decide_eq_true h)
    · exact of_decide_eq_true (Bool.and_eq_true_iff.mp h).2
  refine stepped_of_seen h hpresent (fun c hc => ?_) hphase (fun c hc => ?_) fun c hc => ?_
  · obtain rfl | hc := mem_insert.mp hc
    · exact .inr ⟨howed ▸ mem_cons_self, hin⟩
    · exact .inl hc
  · exact howed ▸ mem_cons_of_mem _ hc
  · obtain rfl | hc := List.mem_cons.mp (howed ▸ hc)
    · exact .inr hin
    · exact .inl hc

lemma Thread.step_stepped
    (hstep : t.step svc kbID kbMeta v hint st present = some (st', present', t')) :
    Stepped svc kbID kbMeta st st' dropped v present present' t t' := by
  obtain ⟨change, phase⟩ := t
  unfold step at hstep
  cases phase with
  | checking todo pending =>
    cases todo with
    | nil =>
      cases hstep
      refine stepped_of_seen h hpresent (fun c hc => .inl hc) (by simp) ?_ ?_
      · exact fun c hc => List.mem_append_right _ hc
      · exact fun c hc => .inl hc
    | cons chunkID todo =>
      dsimp only at hstep
      split at hstep
      · next hpres =>
        cases hstep
        exact stepped_of_present h hpresent hpres (by simp) rfl
      · cases hstep
        refine stepped_of_seen h hpresent (fun c hc => .inl hc) (by simp) ?_ ?_
        all_goals
          intro c hc
          simp only [Phase.owed, List.mem_append, List.mem_cons] at hc ⊢
          tauto
  | storing todo =>
    cases todo with
    | nil =>
      cases hstep
      refine stepped_of_seen h hpresent (fun c hc => .inl hc) (by simp) ?_ ?_
      all_goals exact nofun
    | cons chunkID todo =>
    dsimp only at hstep
    split at hstep
    · next hpres =>
      cases hstep
      exact stepped_of_present h hpresent hpres (by simp) rfl
    · cases hstep
      refine stepped_of_seen h hpresent (fun c hc => .inl hc) (by simp) ?_ ?_
      · exact fun c hc => hc
      · exact fun c hc => .inl hc
  | writing chunkID todo =>
    cases hstep
    have hvectors (c : String) : c ∈ (st.chunkStore.writeMany kbID {chunkID}).vectors kbID ↔
        c ∈ st.chunkStore.vectors kbID ∨ c = chunkID := by simp [ChunkStore.writeMany, or_comm]
    refine ⟨rfl, ⟨fun c hc => h.owed c (mem_cons_of_mem _ hc), fun hop c hc => ?_,
      nofun, nofun, nofun⟩,
      ⟨fun c hc => (hvectors c).mpr (.inl hc), fun p hp => hp, fun _ _ _ => rfl⟩, fun c hc => ?_⟩
    · obtain howed | hin := h.vectors hop c hc
      · obtain rfl | howed := List.mem_cons.mp howed
        · exact .inr ((hvectors c).mpr (.inr rfl))
        · exact .inl howed
      · exact .inr ((hvectors c).mpr (.inl hin))
    · obtain rfl | hc := mem_insert.mp hc
      · exact ⟨(hvectors c).mpr (.inr rfl), .inr (h.owed c mem_cons_self)⟩
      · exact ⟨(hvectors c).mpr (.inl (hpresent c hc)), .inl hc⟩
  | mapping =>
    cases hstep
    have hpairs (p : String × String) : p ∈ (st.chunkDocMapper.writeMany kbID change.docID
        (chunkIDs svc kbMeta change.content).toFinset).pairs kbID ↔
        p ∈ st.chunkDocMapper.pairs kbID ∨
          p.1 ∈ chunkIDs svc kbMeta change.content ∧ p.2 = change.docID := by
      obtain ⟨c, d⟩ := p
      simp [ChunkDocMapper.writeMany, eq_comm]
    refine ⟨rfl, ⟨nofun, h.vectors, fun _ _ c hc => ?_, nofun, nofun⟩,
      ⟨fun c hc => hc, fun p hp => (hpairs p).mpr (.inl hp), fun _ _ _ => rfl⟩,
      fun c hc => ⟨hpresent c hc, .inl hc⟩⟩
    exact (hpairs _).mpr (.inr ⟨hc, rfl⟩)
  | document =>
    cases hstep
    refine ⟨rfl, ⟨nofun, h.vectors, fun hop _ => h.pairs hop (.inl rfl), fun _ _ _ => ?_, nofun⟩,
      ⟨fun c hc => hc, fun p hp => hp, fun d u hne => write_elsewhere hne⟩,
      fun c hc => ⟨hpresent c hc, .inl hc⟩⟩
    simp [encodeValue]
  | tombstone =>
    cases hstep
    have hop : change.op = .delete := h.deletes rfl
    exact ⟨rfl, ⟨fun c hc => absurd hc not_mem_nil, absurd hop, absurd hop, absurd hop,
        fun _ => hop⟩,
      ⟨fun c hc => hc, fun p hp => hp, fun d u hne => write_elsewhere hne⟩,
      fun c hc => ⟨hpresent c hc, .inl hc⟩⟩
  | done => cases hstep

end ThreadStep

section CollectorStep

variable {sm : StateMachine} {st st' : Stores} {R : String → String → Nat → Prop}
  {col col' : Collector} {order : List String} {except : Option Nat}

variable (kbID) in
/-- What the step of a collector comes to. -/
structure Collected (sm : StateMachine) (st st' : Stores) (R : String → String → Nat → Prop)
    (except : Option Nat) (col col' : Collector) : Prop where
  sound : col'.Sound sm kbID fun c d v => R c d v ∧ except ≠ some v
  stores : st' = st ∨ ∃ c ∈ col.guards, Loses kbID st st' c ∧ ∀ d v, ¬R c d v
  guards : ∀ c ∈ col'.guards, c ∈ col.guards ∨ c ∈ col.claims

lemma collected_of_same (hsound : col'.Sound sm kbID R)
    (hguards : ∀ c ∈ col'.guards, c ∈ col.guards ∨ c ∈ col.claims) :
    Collected kbID sm st st R none col col' :=
  ⟨hsound.mono (fun _ h => h) fun _ _ _ _ h => h.1, .inl rfl, hguards⟩

lemma mem_readsOf {docIDs : List String} :
    (d, v) ∈ readsOf docIDs live ↔ d ∈ docIDs ∧ v ∈ live := by
  simp [readsOf]

lemma After.Sound.afterwards {after : After} (h : after.Sound sm kbID) :
    (Collector.afterwards after).Sound sm kbID R ∧ (Collector.afterwards after).guards = [] := by
  cases after with
  | sweep snapshot todo => exact ⟨h, rfl⟩
  | reclaim => exact ⟨trivial, rfl⟩

variable (hR : ∀ c d v, R c d v → isLive sm kbID v = true ∧ (c, d) ∈ st.chunkDocMapper.pairs kbID ∧
  ∃ content, content ≠ "" ∧ st.docStore.db kbID d v = some (.content content))

include hR

lemma readable_of_inUse {c d : String} {v : Nat} (hr : R c d v) : readable kbID st d v = true := by
  obtain ⟨-, -, content, hcontent, hrecord⟩ := hR c d v hr
  have hread : st.docStore.readAt kbID d v = .ok content :=
    DocStore.readAt_of_latest (latest_of_isSome hrecord)
  simp [readable, hread, hcontent]

lemma entered_collected (hwf : WellFormed sm) (hasc : Ascending sm)
    {snapshot : List Nat} {todo : List String} {chunkID : String}
    (h : (Collector.entered snapshot todo chunkID).Sound sm kbID R)
    (hstep : (Collector.entered snapshot todo chunkID).step kbID sm st order =
      some (col', st', except)) :
    Collected kbID sm st st' R except (Collector.entered snapshot todo chunkID) col' := by
  unfold Collector.step at hstep
  dsimp only at hstep
  split at hstep
  · cases hstep
  next htail =>
  split at hstep
  · cases hstep
    exact collected_of_same h nofun
  split at hstep
  · next hne heq =>
    cases hstep
    refine collected_of_same ⟨h, fun c _ d v hr => ?_⟩ fun c hc => .inl hc
    -- No version came after the snapshot, so it has every live one.
    obtain ⟨next, -, hbound, hmem⟩ := h
    have hlive := (hR c d v hr).1
    have hle := isLive_le_last hwf hasc htail hlive
    refine hmem v hlive (lt_of_le_of_lt hle ?_)
    obtain hnil | ⟨init, last, hlast⟩ := List.eq_nil_or_concat snapshot
    · rw [heq, hnil] at hne
      exact absurd rfl hne
    rw [heq, hlast, List.concat_eq_append, List.getLastD_concat]
    refine hbound last ?_
    rw [hlast, List.concat_eq_append]
    exact List.mem_append_right _ mem_cons_self
  · cases hstep
    exact collected_of_same h fun c hc => .inl hc

lemma relisting_collected (hwf : WellFormed sm)
    {snapshot : List Nat} {todo : List String} {chunkID : String}
    (h : (Collector.relisting snapshot todo chunkID).Sound sm kbID R)
    (hstep : (Collector.relisting snapshot todo chunkID).step kbID sm st order =
      some (col', st', except)) :
    Collected kbID sm st st' R except (Collector.relisting snapshot todo chunkID) col' := by
  unfold Collector.step at hstep
  dsimp only at hstep
  split at hstep
  · cases hstep
  next hlive =>
  split at hstep
  · cases hstep
    exact collected_of_same h nofun
  cases hstep
  refine collected_of_same ⟨h, fun c _ d v hr => ?_⟩ fun c hc => .inl hc
  have hin := (hR c d v hr).1
  obtain ⟨m, hm, -, -⟩ := isLive_iff.mp hin
  exact (mem_liveVersionIDs hwf hlive).mpr ⟨hin, Nat.ne_of_gt (hwf.pos hm)⟩

lemma ready_collected
    {live : List Nat} {todo : List String} {after : After}
    (h : (Collector.ready live todo after).Sound sm kbID R)
    (hstep : (Collector.ready live todo after).step kbID sm st order = some (col', st', except)) :
    Collected kbID sm st st' R except (Collector.ready live todo after) col' := by
  cases todo with
  | nil =>
    cases hstep
    obtain ⟨hsound, hguards⟩ := h.1.afterwards
    refine collected_of_same hsound fun c hc => ?_
    rw [hguards] at hc
    cases hc
  | cons chunkID todo =>
  obtain ⟨horder, ⟨⟩⟩ := ite_none_right_eq_some.mp hstep
  refine collected_of_same ⟨h.1, ?_, fun d v hr => ?_⟩ fun c hc => .inl hc
  · exact fun c hc => h.2 c (mem_cons_of_mem _ hc)
  refine mem_readsOf.mpr ⟨?_, h.2 chunkID mem_cons_self d v hr⟩
  rw [← List.mem_toFinset, horder, ChunkDocMapper.mem_listDocIDs]
  exact (hR chunkID d v hr).2.1

lemma confirming_collected
    {live : List Nat} {todo : List String} {judgement : Judgement} {after : After}
    (h : (Collector.confirming live todo judgement after).Sound sm kbID R)
    (hstep : (Collector.confirming live todo judgement after).step kbID sm st order =
      some (col', st', except)) :
    Collected kbID sm st st' R except (Collector.confirming live todo judgement after) col' := by
  obtain ⟨chunkID, docIDs, reads⟩ := judgement
  obtain ⟨hafter, htodo, hreads⟩ := h
  cases reads with
  | nil =>
    unfold Collector.step at hstep
    dsimp only at hstep
    split at hstep
    · cases hstep
      exact collected_of_same ⟨hafter, htodo⟩ fun c hc => .inl (mem_cons_of_mem _ hc)
    cases hstep
    refine collected_of_same ⟨hafter, htodo, fun d v hr => ?_⟩ fun c hc => .inl hc
    exact absurd (hreads d v hr) not_mem_nil
  | cons read reads =>
    unfold Collector.step at hstep
    dsimp only at hstep
    split at hstep
    · cases hstep
      exact collected_of_same ⟨hafter, htodo⟩ fun c hc => .inl (mem_cons_of_mem _ hc)
    next hnot =>
    cases hstep
    refine collected_of_same ⟨hafter, htodo, fun d' v' hr => ?_⟩ fun c hc => .inl hc
    -- The read that found nothing was of no document in use.
    obtain heq | hin := List.mem_cons.mp (hreads d' v' hr)
    · cases heq
      exact absurd (readable_of_inUse hR hr) hnot
    · exact hin

lemma Collector.step_collected (hwf : WellFormed sm) (hasc : Ascending sm)
    (h : col.Sound sm kbID R) (hstep : col.step kbID sm st order = some (col', st', except)) :
    Collected kbID sm st st' R except col col' := by
  cases col with
  | idle => cases hstep
  | listing snapshot =>
    obtain ⟨-, ⟨⟩⟩ := ite_none_right_eq_some.mp hstep
    exact collected_of_same h nofun
  | sweeping snapshot todo =>
    cases todo with
    | nil =>
      cases hstep
      exact collected_of_same trivial nofun
    | cons chunkID todo =>
      obtain ⟨-, ⟨⟩⟩ := ite_none_right_eq_some.mp hstep
      exact collected_of_same h nofun
  | judging snapshot todo judgement =>
    obtain ⟨chunkID, docIDs, reads⟩ := judgement
    cases reads with
    | nil | cons =>
      unfold step at hstep
      dsimp only at hstep
      split at hstep <;> cases hstep <;> exact collected_of_same h nofun
  | candidate snapshot todo chunkID =>
    cases hstep
    exact collected_of_same h fun c hc => .inr hc
  | entered => exact entered_collected hR hwf hasc h hstep
  | relisting => exact relisting_collected hR hwf h hstep
  | scanned versionID chunkIDs =>
    cases hstep
    exact collected_of_same trivial fun c hc => .inr hc
  | reclaiming versionID chunkIDs =>
    unfold step at hstep
    dsimp only at hstep
    split at hstep
    · cases hstep
    next hlive =>
    cases hstep
    refine ⟨⟨trivial, fun c _ d v hr => ?_⟩, .inl rfl, fun c hc => .inl hc⟩
    refine (mem_liveVersionIDs hwf hlive).mpr ⟨(hR c d v hr.1).1, fun heq => hr.2 ?_⟩
    rw [heq]
  | ready => exact ready_collected hR h hstep
  | confirming => exact confirming_collected hR h hstep
  | unmapping live todo chunkID docIDs after =>
    cases docIDs with
    | nil =>
      cases hstep
      exact collected_of_same h fun c hc => .inl hc
    | cons docID docIDs =>
    cases hstep
    refine ⟨h.mono (fun _ h => h) fun _ _ _ _ h => h.1,
      .inr ⟨chunkID, mem_cons_self, ?_, h.2.2⟩, fun c hc => .inl hc⟩
    refine ⟨fun c hc _ => hc, fun p hp hne => ?_, rfl⟩
    simp only [ChunkDocMapper.deleteMapping, update_self]
    exact mem_erase.mpr ⟨fun heq => hne (by rw [heq]), hp⟩
  | removing live todo chunkID after =>
    cases hstep
    refine ⟨⟨h.1, fun c hc d v hr => h.2.1 c hc d v hr.1⟩,
      .inr ⟨chunkID, mem_cons_self, ?_, h.2.2⟩, fun c hc => .inl (mem_cons_of_mem _ hc)⟩
    refine ⟨fun c hc hne => ?_, fun p hp _ => hp, rfl⟩
    simp only [ChunkStore.deleteChunks, update_self]
    exact mem_sdiff.mpr ⟨hc, fun hin => hne (mem_singleton.mp hin)⟩

end CollectorStep

namespace Write.Stands

variable {st st' : Stores} {dropped dropped' : Finset Nat} {v : Nat} {write : Write}
  (h : write.Stands svc kbID kbMeta st dropped v)

include h

lemma mem_changes {t : Thread} (ht : t ∈ write.threads) : t.change ∈ write.changes := by
  rw [← h.changes]
  exact List.mem_map_of_mem ht

lemma grow (hgrows : Grows kbID st st' docID u) (hne : v ≠ u) :
    write.Stands svc kbID kbMeta st' dropped v where
  __ := h
  threads t ht := (h.threads t ht).grow hgrows fun heq => hne heq.2
  present c hc := ⟨(h.present c hc).1, hgrows.vectors c (h.present c hc).2⟩

lemma lose (hloses : Loses kbID st st' chunkID)
    (hunused : chunkID ∉ chunksOf svc kbMeta write.changes) :
    write.Stands svc kbID kbMeta st' dropped v where
  __ := h
  threads t ht := (h.threads t ht).lose hloses fun hop hc =>
    hunused (mem_chunksOf.mpr ⟨t.change, h.mem_changes ht, hop, hc⟩)
  present c hc := by
    obtain ⟨hchunk, hin⟩ := h.present c hc
    exact ⟨hchunk, hloses.vectors c hin fun heq => hunused (heq ▸ hchunk)⟩

lemma of_subset (hdropped : v ∈ dropped → v ∈ dropped') :
    write.Stands svc kbID kbMeta st dropped' v where
  __ := h
  threads t ht := (h.threads t ht).of_subset hdropped

lemma step {t t' : Thread} {present' : Finset String} (ht : write.threads[i]? = some t)
    (hstep : Stepped svc kbID kbMeta st st' dropped v write.present present' t t') :
    Write.Stands svc kbID kbMeta st' dropped v
      { write with threads := write.threads.set i t', present := present' } := by
  have hmem := mem_of_getElem? ht
  have hi := (List.getElem?_eq_some_iff.mp ht).1
  have hchanges : (write.threads.set i t').map (·.change) = write.changes := by
    rw [List.map_set, hstep.change, ← h.changes]
    refine List.ext_getElem? fun j => ?_
    rw [List.getElem?_set]
    split
    · next heq =>
      subst heq
      rw [List.length_map, if_pos hi, List.getElem?_map, ht]
      rfl
    · rfl
  have hdocs : (write.threads.map (·.change.docID)).Nodup := by
    have hnodup := h.nodup
    rwa [← h.changes, List.map_map] at hnodup
  refine ⟨hchanges, h.nodup, fun s hs => ?_, fun c hc => ?_⟩
  · obtain ⟨j, hj⟩ := List.getElem?_of_mem hs
    obtain rfl | heq := eq_or_ne i j
    · rw [List.getElem?_set_self hi] at hj
      cases hj
      exact hstep.stands
    rw [List.getElem?_set_ne heq] at hj
    -- The other threads write other documents.
    refine (h.threads s (mem_of_getElem? hj)).grow hstep.grows fun hsame => heq ?_
    obtain ⟨hj', hjs⟩ := List.getElem?_eq_some_iff.mp hj
    obtain ⟨hi', hit⟩ := List.getElem?_eq_some_iff.mp ht
    have hinj := List.nodup_iff_injective_get.mp hdocs
    have hfin := @hinj ⟨i, by simpa using hi⟩ ⟨j, by simpa using hj'⟩ (by simp [hjs, hit, hsame.1])
    exact Fin.val_eq_of_eq hfin
  · obtain ⟨hin, hc | ⟨hop, hc⟩⟩ := hstep.present c hc
    · exact ⟨(h.present c hc).1, hin⟩
    · exact ⟨mem_chunksOf.mpr ⟨t.change, h.mem_changes hmem, hop, hc⟩, hin⟩

end Write.Stands

lemma eq_some_of_update {α : Type} {f : Nat → Option α} {x : Option α} {y : α}
    (h : update f v x u = some y) : u = v ∧ x = some y ∨ u ≠ v ∧ f u = some y := by
  by_cases huv : u = v
  · subst huv
    rw [update_self] at h
    exact .inl ⟨rfl, h⟩
  · rw [update_of_ne huv] at h
    exact .inr ⟨huv, h⟩

lemma some_of_update_none {α : Type} {f : Nat → Option α} {y : α}
    (h : update f v none u = some y) : u ≠ v ∧ f u = some y := by
  obtain ⟨-, heq⟩ | h := eq_some_of_update h
  · cases heq
  · exact h

section Steps

variable {w : World}

lemma inv_init (hwf : WellFormed sm) (hasc : Ascending sm) (collectors : Nat) :
    Inv svc kbID kbMeta (init sm collectors) where
  wf := hwf
  asc := hasc
  writes _ _ h := absurd h (by simp [init])
  committed _ _ h := absurd h (by simp [init])
  kept _ _ _ h := by
    obtain ⟨changes, h, -⟩ := h
    exact absurd h (by simp [init])
  collectors col hcol := by
    rw [List.eq_of_mem_replicate hcol]
    trivial
  apart col hcol c hc := by
    rw [List.eq_of_mem_replicate hcol] at hc
    exact absurd hc not_mem_nil

variable (h : Inv svc kbID kbMeta w)

include h

namespace Inv

lemma apply (now : Int) (cmd : Command) :
    Inv svc kbID kbMeta { w with sm := (w.sm.apply now cmd).1 } := by
  have hnext := next_le_apply h.wf now cmd
  have hlive (v : Nat) (hv : v < w.sm.nextVersionID)
      (h' : isLive (w.sm.apply now cmd).1 kbID v = true) : isLive w.sm kbID v = true := by
    obtain ⟨m, hm, rfl, hdeleting⟩ := isLive_iff.mp h'
    exact isLive_iff.mpr ((live_before h.wf hm hdeleting).resolve_left (ne_of_lt hv))
  have hrelies (c d : String) (v : Nat)
      (hr : Relies svc kbID kbMeta { w with sm := (w.sm.apply now cmd).1 } c d v) :
      Relies svc kbID kbMeta w c d v := by
    obtain ⟨changes, hcommitted, hlive', hrest⟩ := hr
    exact ⟨changes, hcommitted, hlive v (h.committed v changes hcommitted) hlive', hrest⟩
  exact {
    wf := h.wf.apply now cmd
    asc := h.asc.apply h.wf now cmd
    writes := fun v write hwrite => by
      obtain ⟨hnone, hlt, hstands⟩ := h.writes v write hwrite
      exact ⟨hnone, lt_of_lt_of_le hlt hnext, hstands⟩
    committed := fun v changes hc => lt_of_lt_of_le (h.committed v changes hc) hnext
    kept := fun c d v hr => h.kept c d v (hrelies c d v hr)
    collectors := fun col hcol =>
      (h.collectors col hcol).mono (fun _ hcovers => hcovers.mono hnext hlive)
        fun c _ d v hr => hrelies c d v hr
    apart := h.apart }

lemma start {parent : Nat} (hlive : isLive w.sm kbID v = true)
    (hnodup : (changes.map (·.docID)).Nodup)
    (hapart : ∀ c ∈ w.collectors, ∀ chunkID ∈ c.guards, chunkID ∉ chunksOf svc kbMeta changes) :
    Inv svc kbID kbMeta { w with
      writes := update w.writes v
        (some ⟨parent, changes, changes.map (Thread.begin svc kbMeta), ∅, false⟩)
      committed := update w.committed v none
      dropped := w.dropped.erase v } := by
  obtain ⟨m, hm, -, -⟩ := isLive_iff.mp hlive
  have hrelies (c d : String) (u : Nat) (hr : Relies svc kbID kbMeta { w with
      writes := update w.writes v
        (some ⟨parent, changes, changes.map (Thread.begin svc kbMeta), ∅, false⟩)
      committed := update w.committed v none
      dropped := w.dropped.erase v } c d u) : Relies svc kbID kbMeta w c d u := by
    obtain ⟨changes', hcommitted, hlive', hdropped, hrest⟩ := hr
    obtain ⟨huv, hcommitted⟩ := some_of_update_none hcommitted
    exact ⟨changes', hcommitted, hlive', fun hin => hdropped (mem_erase.mpr ⟨huv, hin⟩), hrest⟩
  exact { h with
    writes := fun u write hwrite => by
      obtain ⟨rfl, heq⟩ | ⟨huv, hwrite⟩ := eq_some_of_update hwrite
      · cases heq
        refine ⟨update_self .., h.wf.lt_next hm, ?_, hnodup, ?_, by simp⟩
        · rw [List.map_map]
          exact List.map_id'' (fun _ => rfl) changes
        intro t ht
        obtain ⟨change, -, rfl⟩ := List.mem_map.mp ht
        exact Thread.begin_stands _ _ _ change
      · obtain ⟨hnone, hlt, hstands⟩ := h.writes u write hwrite
        refine ⟨(update_of_ne huv ..).trans hnone, hlt, hstands.of_subset fun hin => ?_⟩
        exact mem_erase.mpr ⟨huv, hin⟩
    committed := fun u changes' hc => h.committed u changes' (some_of_update_none hc).2
    kept := fun c d u hr => h.kept c d u (hrelies c d u hr)
    collectors := fun col hcol =>
      (h.collectors col hcol).mono (fun _ hc => hc) fun c _ d u hr => hrelies c d u hr
    apart := fun col hcol c hc u write hwrite => by
      obtain ⟨-, heq⟩ | ⟨-, hwrite⟩ := eq_some_of_update hwrite
      · cases heq
        exact hapart col hcol c hc
      · exact h.apart col hcol c hc u write hwrite }

lemma write {v i : Nat} {write : Write} {t t' : Thread} {st' : Stores}
    {present' : Finset String} (hwrite : w.writes v = some write) (ht : write.threads[i]? = some t)
    (hstep : Stepped svc kbID kbMeta w.st st' w.dropped v write.present present' t t') :
    Inv svc kbID kbMeta { w with
      st := st'
      writes := update w.writes v
        (some { write with threads := write.threads.set i t', present := present' }) } := by
  obtain ⟨hnone, hlt, hstands⟩ := h.writes v write hwrite
  exact { h with
    writes := fun u other hother => by
      obtain ⟨rfl, heq⟩ | ⟨huv, hother⟩ := eq_some_of_update hother
      · cases heq
        exact ⟨hnone, hlt, hstands.step ht hstep⟩
      · obtain ⟨hnone', hlt', hstands'⟩ := h.writes u other hother
        exact ⟨hnone', hlt', hstands'.grow hstep.grows huv⟩
    kept := fun c d u hr => by
      obtain ⟨hvector, hpair, content, hcontent, hrecord⟩ := h.kept c d u hr
      refine ⟨hstep.grows.vectors c hvector, hstep.grows.pairs _ hpair, content, hcontent, ?_⟩
      rw [← hrecord]
      refine hstep.grows.records d u fun heq => ?_
      obtain ⟨changes, hcommitted, -⟩ := hr
      rw [heq.2, hnone] at hcommitted
      cases hcommitted
    apart := fun col hcol c hc u other hother => by
      obtain ⟨-, heq⟩ | ⟨-, hother⟩ := eq_some_of_update hother
      · cases heq
        exact h.apart col hcol c hc v write hwrite
      · exact h.apart col hcol c hc u other hother }

lemma list {write : Write} (hwrite : w.writes v = some write)
    (versionDocList : VersionDocList) : Inv svc kbID kbMeta { w with
      st := { w.st with versionDocList := versionDocList }
      writes := update w.writes v (some { write with listed := true }) } := by
  have hbefore {u : Nat} {other : Write}
      (hother : update w.writes v (some { write with listed := true }) u = some other) :
      ∃ old, w.writes u = some old ∧ other.changes = old.changes ∧ other.threads = old.threads ∧
        other.present = old.present := by
    obtain ⟨rfl, heq⟩ | ⟨-, hother⟩ := eq_some_of_update hother
    · cases heq
      exact ⟨write, hwrite, rfl, rfl, rfl⟩
    · exact ⟨other, hother, rfl, rfl, rfl⟩
  exact { h with
    writes := fun u other hother => by
      obtain ⟨old, hold, hchanges, hthreads, hpresent⟩ := hbefore hother
      obtain ⟨hnone, hlt, hstands⟩ := h.writes u old hold
      refine ⟨hnone, hlt, ?_⟩
      constructor
      · rw [hthreads, hchanges, hstands.changes]
      · rw [hchanges]
        exact hstands.nodup
      · intro t ht
        rw [hthreads] at ht
        have hthread := hstands.threads t ht
        exact ⟨hthread.owed, hthread.vectors, hthread.pairs, hthread.record, hthread.deletes⟩
      intro c hc
      rw [hpresent] at hc
      rw [hchanges]
      exact hstands.present c hc
    apart := fun col hcol c hc u other hother => by
      obtain ⟨old, hold, hchanges, -, -⟩ := hbefore hother
      rw [hchanges]
      exact h.apart col hcol c hc u old hold }

lemma fail (v : Nat) : Inv svc kbID kbMeta { w with writes := update w.writes v none } where
  __ := h
  writes u write hwrite := h.writes u write (some_of_update_none hwrite).2
  apart col hcol c hc u write hwrite :=
    h.apart col hcol c hc u write (some_of_update_none hwrite).2

/-- Where no document is empty and has chunks, a finished write commits. -/
lemma commit (hempty : chunkIDs svc kbMeta "" = []) {write : Write}
    (hwrite : w.writes v = some write) (hdone : ∀ t ∈ write.threads, t.phase = .done) :
    Inv svc kbID kbMeta { w with
      writes := update w.writes v none
      committed := update w.committed v (some write.changes) } := by
  obtain ⟨-, hlt, hstands⟩ := h.writes v write hwrite
  have hrelies (c d : String) (u : Nat) (hr : Relies svc kbID kbMeta { w with
      writes := update w.writes v none
      committed := update w.committed v (some write.changes) } c d u) :
      Relies svc kbID kbMeta w c d u ∨ u = v ∧ v ∉ w.dropped ∧
        ∃ change ∈ write.changes, change.op ≠ .delete ∧ change.docID = d ∧
          c ∈ chunkIDs svc kbMeta change.content := by
    obtain ⟨changes, hcommitted, hlive, hdropped, hrest⟩ := hr
    obtain ⟨rfl, heq⟩ | ⟨-, hcommitted⟩ := eq_some_of_update hcommitted
    · cases heq
      exact .inr ⟨rfl, hdropped, hrest⟩
    · exact .inl ⟨changes, hcommitted, hlive, hdropped, hrest⟩
  exact { h with
    writes := fun u other hother => by
      obtain ⟨huv, hother⟩ := some_of_update_none hother
      obtain ⟨hnone, hlt', hstands'⟩ := h.writes u other hother
      exact ⟨(update_of_ne huv ..).trans hnone, hlt', hstands'⟩
    committed := fun u changes hc => by
      obtain ⟨rfl, -⟩ | ⟨-, hc⟩ := eq_some_of_update hc
      · exact hlt
      · exact h.committed u changes hc
    kept := fun c d u hr => by
      obtain hr | ⟨rfl, hdropped, change, hchange, hop, rfl, hc⟩ := hrelies c d u hr
      · exact h.kept c d u hr
      rw [← hstands.changes] at hchange
      obtain ⟨t, ht, rfl⟩ := List.mem_map.mp hchange
      have hphase := hdone t ht
      have hthread := hstands.threads t ht
      refine ⟨?_, hthread.pairs hop (.inr hphase) c hc, t.change.content, ?_,
        hthread.record hop hphase hdropped⟩
      · refine (hthread.vectors hop c hc).resolve_left fun howed => ?_
        rw [hphase] at howed
        exact absurd howed not_mem_nil
      · intro hnil
        rw [hnil, hempty] at hc
        exact absurd hc not_mem_nil
    collectors := fun col hcol => by
      refine (h.collectors col hcol).mono (fun _ hc => hc) fun c hc d u hr => ?_
      -- The chunks of the write are none the collector is deciding about.
      refine (hrelies c d u hr).resolve_right ?_
      rintro ⟨-, -, change, hchange, hop, -, hin⟩
      exact h.apart col hcol c hc v write hwrite (mem_chunksOf.mpr ⟨change, hchange, hop, hin⟩)
    apart := fun col hcol c hc u other hother =>
      h.apart col hcol c hc u other (some_of_update_none hother).2 }

lemma lose {st' : Stores} (hloses : Loses kbID w.st st' chunkID)
    (hnone : ∀ d v, ¬Relies svc kbID kbMeta w chunkID d v)
    (hunused : ∀ v write, w.writes v = some write → chunkID ∉ chunksOf svc kbMeta write.changes) :
    Inv svc kbID kbMeta { w with st := st' } where
  __ := h
  writes v write hwrite := by
    obtain ⟨hcommitted, hlt, hstands⟩ := h.writes v write hwrite
    exact ⟨hcommitted, hlt, hstands.lose hloses (hunused v write hwrite)⟩
  kept c d v hr := by
    obtain ⟨hvector, hpair, hrecord⟩ := h.kept c d v hr
    have hne : c ≠ chunkID := by
      rintro rfl
      exact hnone d v hr
    rw [hloses.docStore]
    exact ⟨hloses.vectors c hvector hne, hloses.pairs _ hpair hne, hrecord⟩

lemma drop (v : Nat) : Inv svc kbID kbMeta { w with dropped := insert v w.dropped } := by
  have hrelies (c d : String) (u : Nat)
      (hr : Relies svc kbID kbMeta { w with dropped := insert v w.dropped } c d u) :
      Relies svc kbID kbMeta w c d u := by
    obtain ⟨changes, hcommitted, hlive, hdropped, hrest⟩ := hr
    exact ⟨changes, hcommitted, hlive, fun hin => hdropped (mem_insert_of_mem hin), hrest⟩
  exact { h with
    writes := fun u write hwrite => by
      obtain ⟨hnone, hlt, hstands⟩ := h.writes u write hwrite
      exact ⟨hnone, hlt, hstands.of_subset mem_insert_of_mem⟩
    kept := fun c d u hr => h.kept c d u (hrelies c d u hr)
    collectors := fun col hcol =>
      (h.collectors col hcol).mono (fun _ hc => hc) fun c _ d u hr => hrelies c d u hr }

lemma setCollector (i : Nat) (hsound : col.Sound w.sm kbID (Relies svc kbID kbMeta w))
    (hapart : ∀ c ∈ col.guards, ∀ v write, w.writes v = some write → c ∉ chunksOf svc kbMeta
      write.changes) : Inv svc kbID kbMeta (w.setCollector i col) where
  __ := h
  collectors col' hcol' := by
    obtain hold | rfl := List.mem_or_eq_of_mem_set hcol'
    · exact h.collectors col' hold
    · exact hsound
  apart col' hcol' := by
    obtain hold | rfl := List.mem_or_eq_of_mem_set hcol'
    · exact h.apart col' hold
    · exact hapart

lemma dropRecords (hv : v ∈ w.dropped) (anchor : Nat) :
    Inv svc kbID kbMeta { w with st := { w.st with
      versionDocList := w.st.versionDocList.deleteByVersion kbID v
      docStore := w.st.docStore.deleteByVersionExceptVisibleFrom kbID v anchor } } := by
  have hrecord (d : String) (u : Nat) (hu : u ∉ w.dropped) :
      (w.st.docStore.deleteByVersionExceptVisibleFrom kbID v anchor).db kbID d u =
        w.st.docStore.db kbID d u := by
    have hne : u ≠ v := by
      rintro rfl
      exact hu hv
    obtain heq | ⟨-, -, heq⟩ :=
      DocStore.deleteByVersionExceptVisibleFrom_db w.st.docStore kbID v anchor kbID d
    · rw [heq]
    · rw [heq, update_of_ne hne]
  exact { h with
    writes := fun u write hwrite => by
      obtain ⟨hnone, hlt, hstands⟩ := h.writes u write hwrite
      refine ⟨hnone, hlt, hstands.changes, hstands.nodup, fun t ht => ?_, hstands.present⟩
      have hthread := hstands.threads t ht
      refine ⟨hthread.owed, hthread.vectors, hthread.pairs, fun hop hphase hnot => ?_,
        hthread.deletes⟩
      exact (hrecord _ u hnot).trans (hthread.record hop hphase hnot)
    kept := fun c d u hr => by
      obtain ⟨hvector, hpair, content, hcontent, hdoc⟩ := h.kept c d u hr
      obtain ⟨changes, -, -, hnot, -⟩ := hr
      exact ⟨hvector, hpair, content, hcontent, (hrecord d u hnot).trans hdoc⟩ }

lemma sweep (hlive : liveVersionIDs w.sm kbID 0 = .ok live) :
    Inv svc kbID kbMeta (w.setCollector i (.listing live)) := by
  refine h.setCollector i ⟨w.sm.nextVersionID, le_refl _, fun v hv => ?_, fun v hv _ => ?_⟩ ?_
  · obtain ⟨m, hm, -, -⟩ := isLive_iff.mp ((mem_liveVersionIDs h.wf hlive).mp hv).1
    exact h.wf.lt_next hm
  · obtain ⟨m, hm, -, -⟩ := isLive_iff.mp hv
    exact (mem_liveVersionIDs h.wf hlive).mpr ⟨hv, (h.wf.pos hm).ne'⟩
  · exact nofun

lemma collect {order : List String} {col' : Collector} {st' : Stores} {except : Option Nat}
    (hok : Excluded svc kbID kbMeta w (.collect i order)) (hcol : w.collectors[i]? = some col)
    (hstep : col.step kbID w.sm w.st order = some (col', st', except)) :
    Inv svc kbID kbMeta (World.setCollector
      { w with st := st', dropped := except.elim w.dropped (insert · w.dropped) } i col') := by
  have hmem := mem_of_getElem? hcol
  have hcollected := Collector.step_collected
    (fun c d v hr => ⟨hr.choose_spec.2.1, (h.kept c d v hr).2⟩) h.wf h.asc (h.collectors col hmem)
    hstep
  have hclaims (c : String) (hc : c ∈ col.claims) (v : Nat) (write : Write)
      (hwrite : w.writes v = some write) : c ∉ chunksOf svc kbMeta write.changes :=
    hok col (by simp [hcol]) c hc v (h.writes v write hwrite).2.1 write (by simp [hwrite])
  have hst : Inv svc kbID kbMeta { w with st := st' } := by
    obtain rfl | ⟨c, hc, hloses, hnone⟩ := hcollected.stores
    · exact h
    · exact h.lose hloses hnone (h.apart col hmem c hc)
  have hdropped : Inv svc kbID kbMeta
      { w with st := st', dropped := except.elim w.dropped (insert · w.dropped) } := by
    cases except with
    | none => exact hst
    | some v => exact hst.drop v
  refine hdropped.setCollector i (hcollected.sound.mono (fun _ hc => hc) ?_) ?_
  · rintro c - d v ⟨changes, hcommitted, hlive, hnot, hrest⟩
    cases except with
    | none => exact ⟨⟨changes, hcommitted, hlive, hnot, hrest⟩, nofun⟩
    | some u =>
      refine ⟨⟨changes, hcommitted, hlive, fun hin => hnot (mem_insert_of_mem hin), hrest⟩, ?_⟩
      rintro ⟨⟩
      exact hnot (mem_insert_self ..)
  · intro c hc v write hwrite
    obtain hold | hnew := hcollected.guards c hc
    · exact h.apart col hmem c hold v write hwrite
    · exact hclaims c hnew v write hwrite

lemma step {w' : World} {a : Action} (hempty : chunkIDs svc kbMeta "" = [])
    (hok : Excluded svc kbID kbMeta w a) (hstep : w.step svc kbID kbMeta a = some w') :
    Inv svc kbID kbMeta w' := by
  cases a with
  | apply now cmd =>
    cases hstep
    exact h.apply now cmd
  | start parent v changes =>
    obtain ⟨-, ⟨⟩⟩ := ite_none_right_eq_some.mp hstep
    exact h.start hok.1 hok.2.2.1 hok.2.2.2
  | write v i hint =>
    obtain ⟨write, hwrite, hstep⟩ := bind_eq_some_iff.mp hstep
    obtain ⟨t, ht, hstep⟩ := bind_eq_some_iff.mp hstep
    obtain ⟨⟨st', present', t'⟩, hthread, rfl⟩ := map_eq_some_iff.mp hstep
    obtain ⟨-, -, hstands⟩ := h.writes v write hwrite
    refine h.write hwrite ht (Thread.step_stepped ?_ ?_ hthread)
    · exact hstands.threads t (mem_of_getElem? ht)
    · exact fun c hc => (hstands.present c hc).2
  | list v =>
    obtain ⟨write, hwrite, hstep⟩ := bind_eq_some_iff.mp hstep
    obtain ⟨-, hstep⟩ := ite_none_right_eq_some.mp hstep
    unfold writeVersionDocList at hstep
    cases hparent : parentDocIDs svc w.sm w.st kbID write.parentVersionID with
    | error e =>
      rw [hparent] at hstep
      cases hstep
    | ok parentDocs =>
      rw [hparent] at hstep
      cases hstep
      exact h.list hwrite _
  | commit v =>
    obtain ⟨write, hwrite, hstep⟩ := bind_eq_some_iff.mp hstep
    obtain ⟨⟨-, hall⟩, ⟨⟩⟩ := ite_none_right_eq_some.mp hstep
    exact h.commit hempty hwrite fun t ht => of_decide_eq_true (List.all_eq_true.mp hall t ht)
  | fail v =>
    cases hstep
    exact h.fail v
  | sweep i =>
    obtain ⟨-, hstep⟩ := ite_none_right_eq_some.mp hstep
    split at hstep
    · cases hstep
    · cases hstep
      exact h
    next hlive =>
    cases hstep
    exact h.sweep hlive
  | reclaim i v order =>
    obtain ⟨-, hstep⟩ := ite_none_right_eq_some.mp hstep
    split at hstep
    · cases hstep
      exact h.drop v
    · cases hstep
      exact h.setCollector i trivial nofun
  | collect i order =>
    obtain ⟨col, hcol, hstep⟩ := bind_eq_some_iff.mp hstep
    obtain ⟨-, hstep⟩ := ite_none_left_eq_some.mp hstep
    obtain ⟨⟨col', st', except⟩, hcollect, rfl⟩ := map_eq_some_iff.mp hstep
    exact h.collect hok hcol hcollect
  | giveUp i =>
    obtain ⟨-, ⟨⟩⟩ := ite_none_right_eq_some.mp hstep
    exact h.setCollector i trivial nofun
  | dropRecords v anchor =>
    obtain ⟨hv, ⟨⟩⟩ := ite_none_right_eq_some.mp hstep
    exact h.dropRecords hv anchor

end Inv

end Steps

end Safety

/-- A splitter that keeps a text whole, and has no chunk for an empty one. -/
def whole : Services where
  split text _ _ := if text = "" then [] else [{ chunkID := text, content := text }]
  computeDocIDSetHash _ := ""

/-- A version with one new document is allocated and written, up to its commit. -/
def landing (v : Nat) (docID content : String) : List Action :=
  [.apply 0 (.createVersion "kb" (v - 1) ""),
    .start (v - 1) v [{ op := .add, docID := docID, content := content }],
    .write v 0 true, .write v 0 true, .write v 0 true, .write v 0 true, .write v 0 true,
    .write v 0 true, .write v 0 true, .list v, .commit v, .apply 0 (.markDataDurable v),
    .apply 0 (.updateVersionStatus v .ready 1)]

/-- Two versions with a document each, of which the second is marked for deletion and its chunk
reclaimed. -/
def reclaimed : List Action :=
  .apply 0 (.createKB { kbID := "kb" }) :: landing 1 "d" "x" ++ landing 2 "e" "y" ++
    [Action.apply 0 (.markVersionDeleting "kb" 2 .single), .reclaim 0 2 ["x", "y"],
      .collect 0 [], .collect 0 [], .collect 0 ["d"], .collect 0 [], .collect 0 ["e"],
      .collect 0 [], .collect 0 [], .collect 0 [], .collect 0 [], .collect 0 [], .collect 0 []]

/-- A write has stored its chunk and its pair, and not yet its record, when a sweep judges the
chunk, takes the lock and removes it; then the write commits. -/
def swept : List Action :=
  [.apply 0 (.createKB { kbID := "kb" }), .apply 0 (.createVersion "kb" 0 ""),
    .start 0 1 [{ op := .add, docID := "d", content := "x" }],
    .write 1 0 true, .write 1 0 true, .write 1 0 true, .write 1 0 true, .write 1 0 true,
    .write 1 0 true,
    .sweep 0, .collect 0 ["x"], .collect 0 ["d"], .collect 0 [], .collect 0 [], .collect 0 [],
    .collect 0 [], .collect 0 ["d"], .collect 0 [], .collect 0 [], .collect 0 [], .collect 0 [],
    .collect 0 [], .collect 0 [],
    .write 1 0 true, .list 1, .commit 1]

end stratum.coordinator.gc
