import Stratum.Raft.CrashSafe
import Stratum.Raft.LogMatching

open stratum.lib stratum.kvraft Function List

namespace stratum.raft

open Node World

variable {σ : Type}

def asEntry : ApplyMsg σ → Option Entry
  | .entry e => some e
  | _ => none

/-- The entries this process has taken from its log, in order. -/
def Node.entries (nd : Node σ) : List Entry := (nd.sent ++ nd.holding).filterMap asEntry

/-- At some moment of the run the node's log held the entry above its base. -/
def HeldIn (past : List (World σ)) (u : NodeId) (e : Entry) : Prop :=
  ∃ w ∈ past, (w.nodes u).rf.log.base.index < e.index ∧ (w.nodes u).rf.log.logEntry e.index = some e

/-- The entries come in ascending order and no further than the applied index. -/
def Node.Ascending (nd : Node σ) : Prop :=
  nd.entries.Pairwise (fun e f => e.index < f.index) ∧ ∀ e ∈ nd.entries, e.index ≤ nd.rf.lastApplied

variable {e : Entry} {nd : Node σ} {rest : List (ApplyMsg σ)} {past : List (World σ)} {w' : World σ}

lemma mem_entries_of_consumed (he : .entry e ∈ nd.consumed) : e ∈ nd.entries :=
  mem_filterMap.mpr ⟨_, mem_append_left _ (mem_append_left _ he), rfl⟩

lemma mem_entries_of_applyCh (he : .entry e ∈ nd.applyCh) : e ∈ nd.entries :=
  mem_filterMap.mpr ⟨_, mem_append_left _ (mem_append_right _ he), rfl⟩

lemma Node.Ascending.consumed_lt (hasc : nd.Ascending) {f : Entry} (he : .entry e ∈ nd.consumed)
    (hch : nd.applyCh = .entry f :: rest) : e.index < f.index := by
  have hentries : nd.entries = nd.consumed.filterMap asEntry ++
      f :: (rest ++ nd.holding).filterMap asEntry := by
    rw [entries, sent, hch, append_assoc, filterMap_append]
    rfl
  have hpair := hasc.1
  rw [hentries, pairwise_append] at hpair
  exact hpair.2.2 e (mem_filterMap.mpr ⟨_, he, rfl⟩) f mem_cons_self

lemma HeldIn.mono {past' : List (World σ)} {u : NodeId} (hheld : HeldIn past u e)
    (hsub : ∀ w ∈ past, w ∈ past') : HeldIn past' u e := by
  obtain ⟨w₁, hw₁, hrest⟩ := hheld
  exact ⟨w₁, hsub w₁ hw₁, hrest⟩

lemma HeldIn.cons {u : NodeId} (hheld : HeldIn past u e) (w : World σ) : HeldIn (w :: past) u e :=
  hheld.mono fun _ => mem_cons_of_mem w

section

variable [DecidableEq σ] {machine : StateMachine σ} {cluster : Cluster} {net out : List (Msg σ)}
  {nd nd' : Node σ} {act : Action σ}

omit [DecidableEq σ] in
lemma applyLoop_entries {rf' : Raft σ} {pc : Raft.ApplyPc}
    (hbase : nd.rf.log.base.index ≤ nd.rf.lastApplied)
    (hloop : nd.applyPc = .top ∧ nd.rf.applyLoopTop = some (rf', pc) ∨
      nd.applyPc = .inner ∧ nd.rf.applyLoopInner = some (rf', pc)) :
    (({ nd with rf := rf', applyPc := pc } : Node σ).entries = nd.entries ∧
        nd.rf.lastApplied ≤ rf'.lastApplied) ∨
      ∃ e, nd.rf.log.logEntry (nd.rf.lastApplied + 1) = some e ∧
        ({ nd with rf := rf', applyPc := pc } : Node σ).entries = nd.entries ++ [e] ∧
        rf'.lastApplied = nd.rf.lastApplied + 1 := by
  have hholding : nd.holding = [] := by
    obtain ⟨hat, -⟩ | ⟨hat, -⟩ := hloop
    all_goals rw [holding, hat]
  have hentries : nd.entries = nd.sent.filterMap asEntry := by
    rw [entries, hholding, append_nil]
  have hkept : (nd.sent ++ []).filterMap asEntry = nd.entries := by rw [append_nil, hentries]
  obtain ⟨rfl, rfl⟩ | hinner := Raft.applyLoop_cases hbase (hloop.imp And.right And.right)
  · exact .inl ⟨hkept, le_rfl⟩
  obtain ⟨e, -, he, rfl, rfl⟩ | ⟨-, rfl, rfl, -⟩ | ⟨rfl, rfl⟩ := Raft.applyLoopInner_spec hinner
  · refine .inr ⟨e, he, ?_, rfl⟩
    rw [hentries]
    exact filterMap_append
  · exact .inl ⟨hkept, le_rfl⟩
  · exact .inl ⟨hkept, le_rfl⟩

lemma Node.step_consumed (hnet : CallsIndexed net)
    (hstep : nd.step machine cluster net act = some (nd', out)) :
    (act.crashes = true ∧ nd'.consumed = []) ∨
      (act = .consume ∧ ∃ msg rest, nd.applyCh = msg :: rest ∧ nd'.consumed = nd.consumed ++ [msg]) ∨
      nd'.consumed = nd.consumed := by
  cases Moved.of_step hnet hstep with
  | framed _ _ hframe => exact .inr (.inr hframe.consumed)
  | handedOff | looped | sent | compacted => exact .inr (.inr rfl)
  | consumed msg rest hch =>
    refine .inr (.inl ⟨rfl, msg, rest, hch, ?_⟩)
    cases msg with
    | entry | snapshotRequest | snapshot => rfl
  | restarted _ _ hcrash => exact .inl ⟨hcrash, rfl⟩

variable (hnet : CallsIndexed net)

include hnet

lemma Node.step_sending (hstep : nd.step machine cluster net act = some (nd', out)) :
    nd'.sent = nd.sent ∨
      (∃ msg, nd'.sent = nd.sent ++ [msg] ∧ nd'.history = nd.history ++ [msg]) ∨ nd'.sent = [] := by
  cases Moved.of_step hnet hstep with
  | framed _ _ hframe =>
    refine .inl ?_
    rw [sent, sent, hframe.consumed, hframe.applyCh]
  | handedOff | sent => exact .inr (.inl ⟨_, (append_assoc _ _ _).symm, rfl⟩)
  | looped | compacted => exact .inl rfl
  | consumed msg rest hch =>
    have hsame : nd.consumed ++ [msg] ++ rest = nd.consumed ++ nd.applyCh := by
      rw [hch, append_assoc, singleton_append]
    cases msg with
    | entry | snapshotRequest | snapshot => exact .inl hsame
  | restarted => exact .inr (.inr rfl)

lemma Node.step_entries (hbase : nd.rf.log.base.index ≤ nd.rf.lastApplied)
    (hstep : nd.step machine cluster net act = some (nd', out)) :
    (nd'.entries = nd.entries ∧ nd.rf.lastApplied ≤ nd'.rf.lastApplied) ∨
      (∃ e, nd.rf.log.logEntry (nd.rf.lastApplied + 1) = some e ∧
        nd'.entries = nd.entries ++ [e] ∧ nd'.rf.lastApplied = nd.rf.lastApplied + 1) ∨
      nd'.entries = [] := by
  cases Moved.of_step hnet hstep with
  | framed _ _ hframe =>
    refine .inl ⟨?_, le_of_eq hframe.rf.lastApplied.symm⟩
    rw [entries, entries, sent, sent, holding, holding, hframe.consumed, hframe.applyCh,
      hframe.applyPc]
  | handedOff inst msg _ hmsg =>
    refine .inl ⟨?_, le_rfl⟩
    simp only [entries, sent, holding, hmsg, filterMap_append, asEntry, filterMap_cons,
      filterMap_nil, append_nil]
  | looped rf' pc hloop =>
    obtain hsame | hnext := applyLoop_entries hbase hloop
    · exact .inl hsame
    · exact .inr (.inl hnext)
  | sent msg pc hsent =>
    refine .inl ⟨?_, le_rfl⟩
    obtain ⟨e, hsending, rfl, rfl⟩ | ⟨r, hrequesting, rfl, rfl⟩ := hsent
    · simp only [entries, sent, holding, hsending, append_assoc, append_nil]
    · simp only [entries, sent, holding, hrequesting, filterMap_append, asEntry,
        filterMap_cons, filterMap_nil, append_nil]
  | consumed msg rest hch =>
    have hsame : ({ nd with applyCh := rest, consumed := nd.consumed ++ [msg] } : Node σ).entries =
        nd.entries := by
      simp only [entries, sent, holding, hch, append_assoc, singleton_append]
    cases msg with
    | entry | snapshotRequest | snapshot => exact .inl ⟨hsame, le_rfl⟩
  | compacted _ _ _ _ _ happlied => exact .inl ⟨rfl, happlied⟩
  | restarted => exact .inr (.inr rfl)

end

variable [DecidableEq σ] {machine : StateMachine σ} {cluster : Cluster} {past : List (World σ)}
  {w : World σ} {u v : NodeId} {Ok : World σ → NodeId × Action σ → Prop}

lemma Node.Ascending.reachable
    (hreach : Reachable (World.step machine cluster) (.init machine cluster) w)
    (hu : u ∈ cluster.members) : (w.nodes u).Ascending := by
  refine hreach.invariant (fun w => (w.nodes u).Ascending) ?_ ?_
  · exact ⟨.nil, nofun⟩
  rintro w w' ⟨v, act⟩ hreach hasc - hstep
  obtain ⟨nd', out, hv, hnode, rfl⟩ := step_inv hstep
  by_cases huv : u = v
  · subst huv
    simp only [update_self]
    have hindex := IndexInv.reachable hreach
    obtain ⟨hsame, hle⟩ | ⟨e, he, hnext, happlied⟩ | hnone :=
      step_entries hindex.calls (CompactInv.reachable hreach hu).baseApplied hnode
    · refine ⟨by rw [hsame]; exact hasc.1, fun e he => ?_⟩
      rw [hsame] at he
      exact le_trans (hasc.2 e he) hle
    · have heindex := (hindex.logs u hu).logEntry he
      refine ⟨?_, fun f hf => ?_⟩
      · rw [hnext, pairwise_append]
        refine ⟨hasc.1, pairwise_singleton _ _, fun f hf g hg => ?_⟩
        have hle := hasc.2 f hf
        rw [mem_singleton.mp hg]
        omega
      rw [hnext] at hf
      obtain hf | hf := mem_append.mp hf
      · have hle := hasc.2 f hf
        omega
      · rw [mem_singleton.mp hf]
        omega
    · refine ⟨by rw [hnone]; exact .nil, fun e he => ?_⟩
      rw [hnone] at he
      cases he
  · simp only [update_of_ne huv]
    exact hasc

lemma sent_on_record (hreach : Reachable (step machine cluster) (.init machine cluster) w) :
    ∀ msg ∈ (w.nodes u).sent, msg ∈ (w.nodes u).history := by
  refine hreach.invariant (fun w => ∀ msg ∈ (w.nodes u).sent, msg ∈ (w.nodes u).history) ?_ ?_
  · intro msg hmsg
    cases hmsg
  rintro w w' ⟨v, act⟩ hreach hrecord - hstep
  obtain ⟨nd', out, hv, hnode, rfl⟩ := step_inv hstep
  by_cases huv : u = v
  · subst huv
    simp only [update_self]
    have hnet := (IndexInv.reachable hreach).calls
    obtain ⟨new, hhistory, -⟩ := step_history hnet hnode
    intro msg hmsg
    obtain hsame | ⟨last, hgrown, hlast⟩ | hnone := step_sending hnet hnode
    · rw [hsame] at hmsg
      rw [hhistory]
      exact mem_append_left _ (hrecord msg hmsg)
    · rw [hgrown] at hmsg
      rw [hlast]
      obtain hmsg | hmsg := mem_append.mp hmsg
      · exact mem_append_left _ (hrecord msg hmsg)
      · exact mem_append_right _ hmsg
    · rw [hnone] at hmsg
      cases hmsg
  · simp only [update_of_ne huv]
    exact hrecord

lemma history_step {act : NodeId × Action σ}
    (hreach : Reachable (step machine cluster) (.init machine cluster) w)
    (hstep : step machine cluster w act = some w') :
    ∀ msg ∈ (w.nodes u).history, msg ∈ (w'.nodes u).history := by
  obtain ⟨v, act⟩ := act
  obtain ⟨nd', out, hv, hnode, rfl⟩ := step_inv hstep
  intro msg hmsg
  by_cases huv : u = v
  · subst huv
    simp only [update_self]
    obtain ⟨new, hhistory, -⟩ := step_history (IndexInv.reachable hreach).calls hnode
    rw [hhistory]
    exact mem_append_left _ hmsg
  · simp only [update_of_ne huv]
    exact hmsg

lemma consumed_step {msg : ApplyMsg σ} (hstep : step machine cluster w (u, .consume) = some w')
    (hch : (w.nodes u).applyCh = msg :: rest) :
    (w'.nodes u).consumed = (w.nodes u).consumed ++ [msg] := by
  obtain ⟨nd', out, -, hnode, rfl⟩ := step_inv hstep
  cases stepped hnode with
  | consume _ hch' =>
  cases hch'.symm.trans hch
  simp only [update_self]
  cases msg with
  | entry | snapshotRequest | snapshot => rfl

section

variable (hpath : Path (step machine cluster) Ok (.init machine cluster) past w)
  (hu : u ∈ cluster.members)

include hpath hu

lemma entries_held : ∀ w₁ ∈ past, ∀ e ∈ (w₁.nodes u).entries, HeldIn past u e := by
  refine hpath.invariant (fun past _ => ∀ w₁ ∈ past, ∀ e ∈ (w₁.nodes u).entries, HeldIn past u e)
    ?_ ?_
  · intro w₁ hw₁ e he
    rw [mem_singleton.mp hw₁] at he
    cases he
  rintro past w w' ⟨v, act⟩ hpath hheld - hstep w₁ hw₁ e he
  obtain rfl | hw₁ := mem_cons.mp hw₁
  · obtain ⟨nd', out, hv, hnode, rfl⟩ := step_inv hstep
    by_cases huv : u = v
    · subst huv
      simp only [update_self] at he
      have hreach := hpath.reach.mono fun _ _ _ => trivial
      have hindex := IndexInv.reachable hreach
      have hbase := (CompactInv.reachable hreach hu).baseApplied
      obtain ⟨hsame, -⟩ | ⟨f, hf, hnext, -⟩ | hnone := step_entries hindex.calls hbase hnode
      · rw [hsame] at he
        exact (hheld w hpath.mem e he).cons _
      · rw [hnext] at he
        obtain he | he := mem_append.mp he
        · exact (hheld w hpath.mem e he).cons _
        rw [mem_singleton.mp he]
        have hfindex := (hindex.logs u hu).logEntry hf
        refine ⟨w, mem_cons_of_mem _ hpath.mem, by omega, ?_⟩
        rw [hfindex]
        exact hf
      · rw [hnone] at he
        cases he
    · simp only [update_of_ne huv] at he
      exact (hheld w hpath.mem e he).cons _
  · exact (hheld w₁ hw₁ e he).cons _

variable (hv : v ∈ cluster.members)

include hv

lemma HeldIn.unique {f : Entry} (he : HeldIn past u e) (hf : HeldIn past v f)
    (hindex : e.index = f.index) (hterm : e.term = f.term) : e = f := by
  obtain ⟨w₁, hw₁, hlowe, hate⟩ := he
  obtain ⟨w₂, hw₂, hlowf, hatf⟩ := hf
  rw [hindex] at hlowe hate
  exact (logs_match hpath hw₁ hw₂ hu hv hate hatf hterm _ le_rfl e f hate hatf).2 hlowe hlowf

/-- A leader's next entry was in no log before. -/
lemma HeldIn.le_lastLogIndex (he : HeldIn past v e) (hleader : (w.nodes u).rf.state = .leader)
    (hterm : e.term = (w.nodes u).rf.term) : e.index ≤ (w.nodes u).rf.log.lastLogIndex := by
  obtain ⟨votes, lineage, -, hinv⟩ := LineageInv.reachable hpath
  obtain ⟨w₁, hw₁, hlow, hat⟩ := he
  rw [Log.logEntry_above hlow] at hat
  have hmade := hinv.logs w₁ hw₁ v hv _ e hat
  rw [show (w₁.nodes v).rf.log.base.index + (e.index - (w₁.nodes v).rf.log.base.index - 1) + 1 =
    e.index by omega, hterm] at hmade
  by_contra hahead
  rw [hinv.ahead u hu hleader e.index (by omega)] at hmade
  cases hmade

end

lemma heldIn_propose {data : Bytes}
    (hstep : step machine cluster w (u, .propose data) = some w') : HeldIn (w' :: past) u
      { index := (w.nodes u).rf.log.lastLogIndex + 1, term := (w.nodes u).rf.term, data } := by
  obtain ⟨nd', out, -, hnode, rfl⟩ := step_inv hstep
  cases stepped hnode
  have hlog : ((w.nodes u).rf.appendEntryLocked data).log = (w.nodes u).rf.log.push
      { index := (w.nodes u).rf.log.lastLogIndex + 1, term := (w.nodes u).rf.term, data } := rfl
  refine ⟨_, mem_cons_self, ?_⟩
  simp only [update_self, hlog, Log.push_base]
  refine ⟨?_, Log.logEntry_push_self _ _⟩
  rw [Log.lastLogIndex_eq]
  omega

end stratum.raft
