import Stratum.Raft.Lineage

open stratum.lib stratum.kvraft

namespace stratum.raft

open World Log

variable {σ : Type} {net : List (Msg σ)} {t : Nat} {u v : NodeId} {w₁ : World σ}
  {Ok : World σ → NodeId × Action σ → Prop}

/-- A node that leads keeps what its log agreed with: it only appends, compacts, or puts a
sentinel beyond the end. -/
lemma LogChange.agrees {rf rf' : Raft σ} (hchange : LogChange net rf rf')
    (hleader : rf'.state = .leader) {log : Log} (hlast : log.lastLogIndex ≤ rf.log.lastLogIndex)
    (hagrees : log.Agrees rf.log) : log.Agrees rf'.log := by
  intro n i hi e f he hf
  have hle : i ≤ log.lastLogIndex := ((log.logEntry_isSome_iff i).mp (by rw [he]; rfl)).2
  cases hchange with
  | same hlog =>
    rw [hlog] at hf ⊢
    exact hagrees n i hi e f he hf
  | appended data hstate hlog =>
    rw [hlog] at hf ⊢
    rw [logEntry_push _ (by omega)] at hf
    exact hagrees n i hi e f he hf
  | spliced req prevEntry hmsg hprev hmatch hfollower hlog =>
    rw [hfollower] at hleader
    cases hleader
  | trimmed j entry hbase hentry hlog =>
    rw [hlog] at hf ⊢
    have hrange := (logEntry_range hf).1
    obtain hlt | heq := lt_or_eq_of_le hrange
    · rw [logEntry_compactAt _ (le_of_lt hbase) hlt] at hf
      obtain ⟨hterm, hsame⟩ := hagrees n i hi e f he hf
      exact ⟨hterm, fun hlow _ => hsame hlow (lt_trans hbase hlt)⟩
    cases heq
    rw [logEntry_base (rf.log.compactAt _ _ _)] at hf
    cases hf
    obtain ⟨hterm, -⟩ := hagrees n _ hi e entry he hentry
    exact ⟨hterm, fun _ hlow => absurd hlow (lt_irrefl _)⟩
  | installed j t hbeyond hlog =>
    rw [hlog] at hf
    have hrange := (logEntry_range hf).1
    change j ≤ i at hrange
    omega

/-- Over a run: once a node has led a term it does not stand in it again, and all the logs it
has while it leads the term agree. -/
structure TenureInv (past : List (World σ)) (w : World σ) : Prop where
  stood : ∀ u t w₁, LedIn past u t w₁ → t ≤ (w.nodes u).rf.term ∧
    ¬ ((w.nodes u).rf.state = .candidate ∧ (w.nodes u).rf.term = t)
  grown : ∀ u t w₁, LedIn past u t w₁ → (w.nodes u).rf.state = .leader →
    (w.nodes u).rf.term = t →
      (w₁.nodes u).rf.log.lastLogIndex ≤ (w.nodes u).rf.log.lastLogIndex ∧
        (w₁.nodes u).rf.log.Agrees (w.nodes u).rf.log
  agree : ∀ u t w₁ w₂, LedIn past u t w₁ → LedIn past u t w₂ →
    (w₁.nodes u).rf.log.Agrees (w₂.nodes u).rf.log

variable {machine : StateMachine σ} {cluster : Cluster} {past : List (World σ)} {w w' : World σ}
  {nd' : Node σ}

section

variable (hinv : TenureInv past w) (hother : ∀ u, u ≠ v → w'.nodes u = w.nodes u)

include hinv hother

/-- A step that leaves a node's tenure as it was, or appends to it, keeps what the node's
earlier logs of the term agreed with. -/
lemma TenureInv.grown_step (hself : w'.nodes v = nd')
    (hchange : LogChange net (w.nodes v).rf nd'.rf) (hrole : Raft.RoleStep (w.nodes v).rf nd'.rf)
    (hled : LedIn past u t w₁) (hleader : (w'.nodes u).rf.state = .leader)
    (hterm : (w'.nodes u).rf.term = t) :
    (w₁.nodes u).rf.log.lastLogIndex ≤ (w'.nodes u).rf.log.lastLogIndex ∧
      (w₁.nodes u).rf.log.Agrees (w'.nodes u).rf.log := by
  by_cases huv : u = v
  · subst huv
    rw [hself] at hleader hterm ⊢
    obtain ⟨hsame, hwas | hstood⟩ := hrole.leader hleader
    · obtain ⟨hlast, hagrees⟩ := hinv.grown u t w₁ hled hwas (hsame.symm.trans hterm)
      exact ⟨le_trans hlast (hchange.lastLogIndex_le hleader), hchange.agrees hleader hlast hagrees⟩
    · exact absurd ⟨hstood, hsame.symm.trans hterm⟩ (hinv.stood u t w₁ hled).2
  · rw [hother u huv] at hleader hterm ⊢
    exact hinv.grown u t w₁ hled hleader hterm

lemma TenureInv.stood_step (hself : w'.nodes v = nd') (hrole : Raft.RoleStep (w.nodes v).rf nd'.rf)
    (hled : LedIn past u t w₁) : t ≤ (w'.nodes u).rf.term ∧
      ¬ ((w'.nodes u).rf.state = .candidate ∧ (w'.nodes u).rf.term = t) := by
  obtain ⟨hterm, hpast⟩ := hinv.stood u t w₁ hled
  by_cases huv : u = v
  · subst huv
    rw [hself]
    refine ⟨le_trans hterm hrole.term, fun hstands => ?_⟩
    obtain ⟨hstood, hsame⟩ | hlt := hrole.candidate hstands.1
    · exact hpast ⟨hstood, hsame.symm.trans hstands.2⟩
    · omega
  · rw [hother u huv]
    exact ⟨hterm, hpast⟩

end

lemma LedIn.cons_cases {past : List (World σ)} (hled : LedIn (w' :: past) u t w₁) :
    w₁ = w' ∧ (w'.nodes u).rf.state = .leader ∧ (w'.nodes u).rf.term = t ∨ LedIn past u t w₁ := by
  obtain ⟨hmem, hstate, hterm⟩ := hled
  obtain rfl | hmem := List.mem_cons.mp hmem
  · exact .inl ⟨rfl, hstate, hterm⟩
  · exact .inr ⟨hmem, hstate, hterm⟩

variable [DecidableEq σ]

lemma TenureInv.reachable (hpath : Path (step machine cluster) Ok (.init machine cluster) past w) :
    TenureInv past w := by
  refine hpath.invariant TenureInv ?_ ?_
  · have hnone : ∀ u t w₁, ¬ LedIn [init machine cluster] u t w₁ := by
      rintro u t w₁ ⟨hmem, hstate, -⟩
      rw [List.mem_singleton] at hmem
      rw [hmem] at hstate
      cases hstate
    exact ⟨fun u t w₁ hled => absurd hled (hnone u t w₁),
      fun u t w₁ hled => absurd hled (hnone u t w₁),
      fun u t w₁ _ hled => absurd hled (hnone u t w₁)⟩
  rintro past w w' ⟨v, act⟩ hpath hinv - hstep
  obtain ⟨nd', out, hv, hnode, hw'⟩ := step_inv hstep
  obtain ⟨votes, helection⟩ := ElectionInv.reachable (hpath.reach.mono fun _ _ _ => trivial)
  obtain ⟨hchange, hrole⟩ := Node.step_change (helection.nodes v hv).saved hnode
  have hother : ∀ u, u ≠ v → w'.nodes u = w.nodes u := by
    intro u huv
    rw [hw']
    exact Function.update_of_ne huv _ _
  have hself : w'.nodes v = nd' := by
    rw [hw']
    exact Function.update_self _ _ _
  refine ⟨fun u t w₁ hled => ?_, fun u t w₁ hled hleader hterm => ?_,
    fun u t w₁ w₂ hled₁ hled₂ => ?_⟩
  · obtain ⟨-, hleader, hterm⟩ | hled := hled.cons_cases
    · refine ⟨le_of_eq hterm.symm, fun hstands => ?_⟩
      rw [hleader] at hstands
      cases hstands.1
    · exact hinv.stood_step hother hself hrole hled
  · obtain ⟨rfl, -, -⟩ | hled := hled.cons_cases
    · exact ⟨le_rfl, .refl _⟩
    · exact hinv.grown_step hother hself hchange hrole hled hleader hterm
  obtain ⟨rfl, hleader₁, hterm₁⟩ | hold₁ := hled₁.cons_cases
  · obtain ⟨rfl, -, -⟩ | hold₂ := hled₂.cons_cases
    · exact .refl _
    · exact (hinv.grown_step hother hself hchange hrole hold₂ hleader₁ hterm₁).2.symm
  · obtain ⟨rfl, hleader₂, hterm₂⟩ | hold₂ := hled₂.cons_cases
    · exact (hinv.grown_step hother hself hchange hrole hold₁ hleader₂ hterm₂).2
    · exact hinv.agree u t w₁ w₂ hold₁ hold₂

lemma led_unique {w₂ : World σ}
    (hpath : Path (step machine cluster) Ok (.init machine cluster) past w)
    (hu : u ∈ cluster.members) (hv : v ∈ cluster.members) (hledu : LedIn past u t w₁)
    (hledv : LedIn past v t w₂) : u = v := by
  have hwon : ∃ votes, ElectionInv cluster votes w ∧ ∀ x ∈ cluster.members, ∀ s w₀,
      LedIn past x s w₀ → votes.Won cluster.members x s := by
    refine hpath.invariant (fun past w => ∃ votes, ElectionInv cluster votes w ∧
      ∀ x ∈ cluster.members, ∀ s w₀, LedIn past x s w₀ → votes.Won cluster.members x s) ?_ ?_
    · refine ⟨_, .init machine cluster, fun x hx s w₀ hled => ?_⟩
      obtain ⟨hmem, hstate, -⟩ := hled
      rw [List.mem_singleton] at hmem
      rw [hmem] at hstate
      cases hstate
    rintro past w w' ⟨y, act⟩ - ⟨votes, helection, hwon⟩ - hstep
    obtain ⟨nd', out, hy, hnode, rfl⟩ := step_inv hstep
    have hold := helection.nodes y hy
    have hext := (Node.step_voteStep hold.saved (by rw [hold.peers, hold.me]) hnode).extends hold
    refine ⟨_, helection.step hy hnode, fun x hx s w₀ hled => ?_⟩
    obtain ⟨rfl, hleader, rfl⟩ | hled := hled.cons_cases
    · exact ((helection.step hy hnode).nodes x hx).leader hleader
    · exact (hwon x hx s w₀ hled).mono hext
  obtain ⟨votes, -, hwon⟩ := hwon
  exact (hwon u hu t w₁ hledu).unique (hwon v hv t w₂ hledv)

/-- A leader's log is append-only: an entry a node had in its log when it led a term is there at
every later moment at which it leads the term, unless it has been compacted away. -/
theorem leader_append_only
    (hpath : Path (step machine cluster) Ok (.init machine cluster) past w)
    (hled : LedIn past u t w₁) (hleader : (w.nodes u).rf.state = .leader)
    (hterm : (w.nodes u).rf.term = t) {i : Nat} {e : Entry}
    (he : (w₁.nodes u).rf.log.logEntry i = some e) (habove : (w₁.nodes u).rf.log.base.index < i) :
    i ≤ (w.nodes u).rf.log.base.index ∨ (w.nodes u).rf.log.logEntry i = some e := by
  obtain ⟨hlast, hagrees⟩ := (TenureInv.reachable hpath).grown u t w₁ hled hleader hterm
  refine (le_or_gt i _).imp_right fun hkept => ?_
  have hrange := (logEntry_isSome_iff _ i).mp (Option.isSome_of_eq_some he)
  obtain ⟨f, hf⟩ := Option.isSome_iff_exists.mp
    ((logEntry_isSome_iff _ i).mpr ⟨le_of_lt hkept, le_trans hrange.2 hlast⟩)
  rw [hf, (hagrees i i le_rfl e f he hf).2 habove hkept]

/-- Node 1 is elected with its no-op alone in the log, and still has it when it has replicated,
committed and applied a command after it. -/
theorem leader_append_only_trio :
    ∃ (past : List (World Nat)) (w w₁ : World Nat),
      Path (step counter trio) (fun _ _ => True) (.init counter trio) past w ∧
        LedIn past 1 1 w₁ ∧ (w₁.nodes 1).rf.log.lastLogIndex = 1 ∧ (w.nodes 1).rf.log.lastLogIndex = 2 ∧
          (w.nodes 1).rf.log.logEntry 1 = some ⟨1, 1, []⟩ := by
  obtain ⟨past, w, hpath, ⟨w₁, hpast, hled, hterm₁, hlast₁, hbase₁, he⟩, hleader, hterm, hlast,
      hbase⟩ : ∃ past w, Path (step counter trio) (fun _ _ => True) (.init counter trio) past w ∧
        (∃ w₁ ∈ past, (w₁.nodes 1).rf.state = .leader ∧ (w₁.nodes 1).rf.term = 1 ∧
          (w₁.nodes 1).rf.log.lastLogIndex = 1 ∧ (w₁.nodes 1).rf.log.base.index < 1 ∧
            (w₁.nodes 1).rf.log.logEntry 1 = some ⟨1, 1, []⟩) ∧
          (w.nodes 1).rf.state = .leader ∧ (w.nodes 1).rf.term = 1 ∧
            (w.nodes 1).rf.log.lastLogIndex = 2 ∧ (w.nodes 1).rf.log.base.index < 1 :=
    Path.exists_decide (commitRun.take 4) (commitRun.drop 4) (by decide +kernel)
  exact ⟨past, w, w₁, hpath, ⟨hpast, hled, hterm₁⟩, hlast₁, hlast,
    (leader_append_only hpath ⟨hpast, hled, hterm₁⟩ hleader hterm he hbase₁).resolve_left
      (not_le.mpr hbase)⟩

end stratum.raft
