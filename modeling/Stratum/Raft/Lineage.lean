import Stratum.Raft.LogChange
import Stratum.Raft.StreamSafety

open stratum.lib stratum.kvraft Function List

namespace stratum.raft

open Node World

variable {σ : Type}

/-- In some state of the run the node led the term. -/
def LedIn (past : List (World σ)) (v : NodeId) (term : Nat) (w : World σ) : Prop :=
  w ∈ past ∧ (w.nodes v).rf.state = .leader ∧ (w.nodes v).rf.term = term

/-- The call was drawn from the log its sender had while it led the call's term. -/
def SentByLeader (cluster : Cluster) (past : List (World σ)) (req : AppendEntriesRequest) : Prop :=
  req.leaderId ∈ cluster.members ∧ ∃ w, LedIn past req.leaderId req.term w ∧
    req.DrawnFrom (w.nodes req.leaderId).rf.log ∧
    req.leaderCommit = (w.nodes req.leaderId).rf.lastCommitIndex

/-- Every log a node has had, and so every call, is made of entries on one record; a leader
has put nothing on it beyond the end of its log, and the winner of a term with an entry on
it is past standing in that term. -/
structure LineageInv (cluster : Cluster) (votes : Votes NodeId) (lineage : EntryLineage)
    (past : List (World σ)) (w : World σ) : Prop where
  logs : ∀ w' ∈ past, ∀ u ∈ cluster.members, (w'.nodes u).rf.log.Chained lineage
  calls : ∀ p req, Msg.appendEntries p req ∈ w.net → SentByLeader cluster past req
  ahead : ∀ u ∈ cluster.members, (w.nodes u).rf.state = .leader →
    ∀ i, (w.nodes u).rf.log.lastLogIndex < i → lineage i (w.nodes u).rf.term = none
  made : ∀ i t x, lineage i t = some x → ∃ c ∈ cluster.members, votes.Won cluster.members c t ∧
    t ≤ (w.nodes c).rf.term ∧ ¬ ((w.nodes c).rf.state = .candidate ∧ (w.nodes c).rf.term = t)

variable {machine : StateMachine σ} {cluster : Cluster} {votes : Votes NodeId}
  {lineage : EntryLineage} {past : List (World σ)} {w : World σ} {u : NodeId} {nd' : Node σ}
  {out : List (Msg σ)}

lemma SentByLeader.mono {req : AppendEntriesRequest} (hsent : SentByLeader cluster past req)
    (w : World σ) : SentByLeader cluster (w :: past) req := by
  obtain ⟨hmember, w', ⟨hpast, hled⟩, hrest⟩ := hsent
  exact ⟨hmember, w', ⟨mem_cons_of_mem _ hpast, hled⟩, hrest⟩

variable {votes' : Votes NodeId}

section

variable (hinv : LineageInv cluster votes lineage past w) (hext : Votes.Extends votes' votes)

include hinv hext

/-- Before the step nothing was on record beyond the log of a node that leads after it: it led
already, or its term had no leader. -/
lemma LineageInv.unused (hu : u ∈ cluster.members) (hrole : Raft.RoleStep (w.nodes u).rf nd'.rf)
    (hleader : nd'.rf.state = .leader) (hwon : votes'.Won cluster.members u nd'.rf.term) {i : Nat}
    (hi : (w.nodes u).rf.log.lastLogIndex < i) : lineage i nd'.rf.term = none := by
  obtain ⟨hterm, hled | hstood⟩ := hrole.leader hleader
  · rw [hterm]
    exact hinv.ahead u hu hled i hi
  by_contra hsome
  obtain ⟨x, hx⟩ := Option.ne_none_iff_exists'.mp hsome
  obtain ⟨c, -, hc, -, hpast⟩ := hinv.made i _ x hx
  have hsame := (hc.mono hext).unique hwon
  rw [hsame] at hpast
  exact hpast ⟨hstood, hterm.symm⟩

lemma LineageInv.made_step (hrole : Raft.RoleStep (w.nodes u).rf nd'.rf) {i t : Nat}
    {x : Nat × Bytes} (hx : lineage i t = some x) :
    ∃ c ∈ cluster.members, votes'.Won cluster.members c t ∧
      t ≤ (update w.nodes u nd' c).rf.term ∧
      ¬ ((update w.nodes u nd' c).rf.state = .candidate ∧
        (update w.nodes u nd' c).rf.term = t) := by
  obtain ⟨c, hc, hwon, hterm, hpast⟩ := hinv.made i t x hx
  refine ⟨c, hc, hwon.mono hext, ?_⟩
  by_cases hcu : c = u
  · subst hcu
    rw [update_self]
    refine ⟨le_trans hterm hrole.term, fun hstands => ?_⟩
    obtain ⟨hstood, hsame⟩ | hlt := hrole.candidate hstands.1
    · exact hpast ⟨hstood, hsame.symm.trans hstands.2⟩
    · omega
  · rw [update_of_ne hcu]
    exact ⟨hterm, hpast⟩

end

variable [DecidableEq σ]

section

variable (hinv : LineageInv cluster votes lineage past w) (helection : ElectionInv cluster votes w)
  (hindex : IndexInv cluster w) (hw : w ∈ past) (hu : u ∈ cluster.members)

include hinv helection hindex hw hu

/-- A step keeps the invariant for a record that grew at most by an entry of the term the
process leads and holds. -/
lemma LineageInv.step_record {act : Action σ} {lineage' : EntryLineage} {w' : World σ}
    (hstep : (w.nodes u).step machine cluster w.net act = some (nd', out))
    (hw' : w' = { nodes := update w.nodes u nd', net := w.net ++ out })
    (hext : Lineage.Extends lineage' lineage) (hlog : nd'.rf.log.Chained lineage')
    (hput : ∀ i t x, lineage' i t = some x → lineage i t = some x ∨
      nd'.rf.state = .leader ∧ t = nd'.rf.term ∧ i ≤ nd'.rf.log.lastLogIndex) :
    LineageInv cluster (votes.record u nd'.rf.term nd'.rf.voteFor) lineage' (w' :: past) w' := by
  have hold := helection.nodes u hu
  have hvotes := (step_voteStep hold.saved (by rw [hold.peers, hold.me]) hstep).extends hold
  have hnew := (helection.step hu hstep).nodes
  obtain ⟨hchange, hrole⟩ := step_change hold.saved hstep
  have hwon : nd'.rf.state = .leader →
      (votes.record u nd'.rf.term nd'.rf.voteFor).Won cluster.members u nd'.rf.term := by
    intro hleader
    have hnode := (hnew u hu).leader
    simp only [update_self] at hnode
    exact hnode hleader
  subst hw'
  refine ⟨fun w₁ hw₁ v hv => ?_, fun p req hmsg => ?_, fun v hv hleader i hi => ?_,
    fun i t x hx => ?_⟩
  · obtain rfl | hw₁ := mem_cons.mp hw₁
    · by_cases hvu : v = u
      · subst hvu
        simpa using hlog
      · simpa [hvu] using (hinv.logs w hw v hv).mono hext
    · exact (hinv.logs w₁ hw₁ v hv).mono hext
  · obtain hmsg | hmsg := mem_append.mp hmsg
    · exact (hinv.calls p req hmsg).mono _
    obtain ⟨hled, rf', r, hround, hr⟩ := sent_call hstep hmsg
    obtain ⟨hdrawn, hterm, hme, hcommit⟩ :=
      Raft.replicateToPeer_call (hindex.logs u hu) hled hround hr
    rw [hold.me] at hme
    subst hme
    exact ⟨hu, w, ⟨mem_cons_of_mem _ hw, hled, hterm.symm⟩, hdrawn, hcommit⟩
  · by_contra hsome
    obtain ⟨x, hx⟩ := Option.ne_none_iff_exists'.mp hsome
    by_cases hvu : v = u
    · subst hvu
      simp only [update_self] at hleader hi hx
      obtain hx | ⟨-, -, hle⟩ := hput i _ x hx
      · have hlast := hchange.lastLogIndex_le hleader
        rw [hinv.unused hvotes hv hrole hleader (hwon hleader) (by omega)] at hx
        cases hx
      · omega
    simp only [update_of_ne hvu] at hleader hi hx
    obtain hx | ⟨hled, hterm, -⟩ := hput i _ x hx
    · rw [hinv.ahead v hv hleader i hi] at hx
      cases hx
    -- two nodes would lead the term
    have hother := ((helection.nodes v hv).leader hleader).mono hvotes
    rw [hterm] at hother
    exact hvu (hother.unique (hwon hled))
  · obtain hx | ⟨hled, rfl, -⟩ := hput i t x hx
    · exact hinv.made_step hvotes hrole hx
    refine ⟨u, hu, hwon hled, ?_⟩
    simp only [update_self]
    refine ⟨le_rfl, fun hstands => ?_⟩
    rw [hled] at hstands
    cases hstands.1

/-- A step keeps the invariant: what it appends is put on record, and what it takes over from
a call was there already. -/
lemma LineageInv.step {act : Action σ} {w' : World σ}
    (hstep : (w.nodes u).step machine cluster w.net act = some (nd', out))
    (hw' : w' = { nodes := update w.nodes u nd', net := w.net ++ out }) :
    ∃ lineage', LineageInv cluster (votes.record u nd'.rf.term nd'.rf.voteFor) lineage'
      (w' :: past) w' := by
  have hlog := hinv.logs w hw u hu
  have hsame (hkept : nd'.rf.log.Chained lineage) :
      ∃ lineage', LineageInv cluster (votes.record u nd'.rf.term nd'.rf.voteFor) lineage'
        (w' :: past) w' :=
    ⟨lineage, hinv.step_record helection hindex hw hu hstep hw' (.refl _) hkept
      fun _ _ _ hx => .inl hx⟩
  have hold := helection.nodes u hu
  obtain ⟨hchange, hrole⟩ := step_change hold.saved hstep
  cases hchange with
  | same hsameLog =>
    rw [← hsameLog] at hlog
    exact hsame hlog
  | appended data hleader hpush =>
    have hnew := ((helection.step hu hstep).nodes u hu).leader
    simp only [update_self] at hnew
    have hvotes := (step_voteStep hold.saved (by rw [hold.peers, hold.me]) hstep).extends hold
    have hfresh := hinv.unused hvotes hu hrole hleader (hnew hleader) (Nat.lt_succ_self _)
    have hext := @Lineage.record_extends _ lineage _ _ (Lineage.termBefore Entry.term
      (w.nodes u).rf.log.base.term (w.nodes u).rf.log.entries (w.nodes u).rf.log.entries.length)
      data hfresh
    refine ⟨_, hinv.step_record helection hindex hw hu hstep hw' hext ?_ ?_⟩
    · rw [hpush]
      exact (hlog.mono hext).push (Lineage.record_self _ _ _ _ _)
    intro i t x hx
    obtain ⟨rfl, rfl⟩ | hx := Lineage.record_cases hx
    · refine .inr ⟨hleader, rfl, ?_⟩
      rw [hpush, Log.lastLogIndex_eq (Log.push _ _), Log.push_base, Log.push_entries, length_append]
      exact le_rfl
    · exact .inl hx
  | spliced req prevEntry hmsg hprev hmatch hfollower hsplice =>
    obtain ⟨hsender, w₁, ⟨hw₁, -⟩, hdrawn, -⟩ := hinv.calls _ req hmsg
    have hentries := hdrawn.chained (hinv.logs w₁ hw₁ _ hsender)
    rw [← hmatch] at hentries
    have hspliced := hlog.spliceAfter hprev hentries
    rw [← hsplice] at hspliced
    exact hsame hspliced
  | trimmed i entry hbase hentry htrim =>
    have htrimmed := hlog.compactAt hentry
    rw [← htrim] at htrimmed
    exact hsame htrimmed
  | installed i t hbeyond hinstall =>
    refine hsame ?_
    rw [hinstall]
    exact .nil lineage _ _

end

omit [DecidableEq σ] in
lemma LineageInv.init (machine : StateMachine σ) (cluster : Cluster) :
    LineageInv cluster (fun _ _ => none) (fun _ _ => none) [init machine cluster]
      (init machine cluster) where
  logs := fun w' hw' u _ => by
    rw [mem_singleton] at hw'
    subst hw'
    exact .initial _
  calls := nofun
  ahead := nofun
  made := nofun

lemma LineageInv.reachable {Ok : World σ → NodeId × Action σ → Prop}
    (hpath : Path (World.step machine cluster) Ok (.init machine cluster) past w) :
    ∃ votes lineage, ElectionInv cluster votes w ∧ LineageInv cluster votes lineage past w := by
  refine hpath.invariant (fun past w => ∃ votes lineage, ElectionInv cluster votes w ∧
    LineageInv cluster votes lineage past w) ?_ ?_
  · exact ⟨_, _, .init machine cluster, .init machine cluster⟩
  rintro past w w' ⟨u, act⟩ hpath ⟨votes, lineage, helection, hinv⟩ - hstep
  obtain ⟨nd', out, hu, hnode, rfl⟩ := step_inv hstep
  have hindex := IndexInv.reachable (hpath.reach.mono fun _ _ _ => trivial)
  obtain ⟨lineage', hinv'⟩ := hinv.step helection hindex hpath.mem hu hnode rfl
  exact ⟨_, lineage', helection.step hu hnode, hinv'⟩

end stratum.raft
