import Stratum.Raft.ProposeWait

open stratum.lib stratum.kvraft List

namespace stratum.raft

open raft.System

section

variable {σ ρ : Type} [DecidableEq σ] {app : Applier σ ρ} {cluster : Cluster}
  {past : List (System σ ρ)} {sys : System σ ρ}

/-- A proposer gets its own result. In every run, what a call returns as a result is that of
applying the entry with its command, at its own place in the log or at that of the call that
served it. And in a run whose steps all meet their condition, a call whose entry its node
applies while it waits, and while the node leads the term, returns that result by the steps it
still has to take, unless its process dies. -/
theorem proposer_gets_result {Ok : System σ ρ → NodeId × ProposeAction σ → Prop}
    (hpath : Path (System.step app cluster) Ok (.init app cluster) past sys) {id : Nat}
    {c : Call ρ} (hc : sys.calls[id]? = some c) :
    (∀ res, c.phase = .returned (.applied res) →
      ∃ (id' : Nat) (c' : Call ρ) (e : Entry), sys.calls[id']? = some c' ∧
        (id' = id ∨ c'.origin = some id) ∧ c'.entry = some e ∧ e.data = c.data ∧
        AppliedIn app cluster past c'.node e res) ∧
      ((∀ s a, Ok s a → WaitStep s a) → ∀ e, c.entry = some e →
        AppliedWaiting past id c.node e → LedWaiting past id c.node e.term →
        c.phase = .returned .lost ∨ ∃ res, AppliedIn app cluster past c.node e res ∧
          ∃ sys' c', run (System.step app cluster) (fun _ _ => True) sys (c.remaining id) =
              some sys' ∧ sys'.calls[id]? = some c' ∧ c'.phase = .returned (.applied res)) := by
  refine ⟨fun res hphase => result_own hpath hc hphase, fun hok e hentry happlied hled => ?_⟩
  have hpath := hpath.mono hok
  obtain hlost | ⟨res, hres⟩ | ⟨hawaits, he⟩ := waiting_run hpath hc hentry happlied hled
  · exact .inl hlost
  · have hinv := (CallsInv.reachable hpath).1
    obtain ⟨⟨i, t⟩, hslot, rfl⟩ := Option.map_eq_some_iff.mp hentry
    obtain ⟨f, hindex, hterm, happlied⟩ := hinv.results id c i t res hc hslot (.inr hres)
    rw [applied_entry hpath hc hentry happlied hindex hterm] at happlied
    refine .inr ⟨res, happlied, sys, c, ?_, hc, hres⟩
    rw [Call.remaining, hres]
    rfl
  · exact .inr (remaining_returns hpath hc hentry hawaits he)

end

/-- The counter answers with the number of the command. -/
def counting : Applier Nat Nat := { counter with result := fun count _ => count + 1 }

def firstTerm : List (NodeId × ProposeAction Nat) :=
  let vote : RequestVoteRequest := ⟨1, 1, 0, 0⟩
  [(1, .consensus .startElection), (1, .consensus .sendVoteRequest),
    (2, .consensus (.requestVote vote)),
    (1, .consensus (.voteResponse { req := vote, votes := 1, waiting := [2, 3] } 2 ⟨1, true⟩))]

/-- Node 1's command is replicated to node 2, committed and applied while its caller waits. -/
def proposeRun : List (NodeId × ProposeAction Nat) :=
  let append : AppendEntriesRequest :=
    { term := 1, leaderId := 1, prevLogIndex := 0, prevLogTerm := 0,
      entries := [⟨1, 1, []⟩, ⟨2, 1, [7]⟩], leaderCommit := 0 }
  [(1, .call [7]), (1, .register 0), (1, .consensus (.replicate 2)),
    (2, .consensus (.appendEntries append)),
    (1, .consensus (.appendResponse 2 append ⟨1, true, 0, 0⟩)),
    (1, .consensus .applyStep), (1, .consensus .applyStep), (1, .consensus .applyStep),
    (1, .consensus .applyStep), (1, .consume), (1, .consume)]

/-- A command whose caller waits for it and gets its result. -/
theorem proposer_gets_result_trio :
    ∃ (past : List (System Nat Nat)) (sys : System Nat Nat),
      Path (System.step counting trio) WaitStep (.init counting trio) past sys ∧
        (sys.calls[0]?).map Call.phase = some (.returned (.applied 1)) ∧
        AppliedIn counting trio past 1 { index := 2, term := 1, data := [7] } 1 := by
  obtain ⟨past, sys, hpath, ⟨s, hs, hwaited⟩, hover, hc⟩ : ∃ past sys,
      Path (step counting trio) (fun s a => WaitStep s a ∧ (s.Awaits 0 →
        (s.world.nodes 1).rf.state = .leader ∧ (s.world.nodes 1).rf.term = 1))
        (.init counting trio) past sys ∧
      (∃ s ∈ past, s.Awaits 0 ∧ .entry ⟨2, 1, [7]⟩ ∈ (s.world.nodes 1).consumed) ∧
      ¬ sys.Awaits 0 ∧ sys.calls[0]? =
        some { node := 1, data := [7], origin := none, slot := some (2, 1)
               phase := .returned (.applied 1) } :=
    Path.exists_decide (firstTerm ++ proposeRun) [(1, .deliver), (1, .receive 0)]
      (by decide +kernel)
  have hled : LedWaiting past 0 1 1 :=
    (hpath.mono fun _ _ hok => hok.2).all_of_ok fun hawaits => absurd hawaits hover
  have hwait := hpath.mono fun _ _ hok => hok.1
  refine ⟨past, sys, hwait, by rw [hc]; rfl, ?_⟩
  obtain hlost | ⟨res, happlied, sys', c', hrun', hc', hphase⟩ :=
    (proposer_gets_result hwait hc).2 (fun _ _ h => h) _ rfl ⟨s, hs, hwaited⟩ hled
  · cases hlost
  cases hrun'
  cases hc.symm.trans hc'
  cases hphase
  exact happlied

/-- Node 2 takes over and cuts node 1's two commands off, whose callers do not know yet. Node 1
then leads term 3. -/
def takeover : List (NodeId × ProposeAction Nat) :=
  let vote₂ : RequestVoteRequest := ⟨2, 2, 0, 0⟩
  let append₂ : AppendEntriesRequest :=
    { term := 2, leaderId := 2, prevLogIndex := 0, prevLogTerm := 0,
      entries := [⟨1, 2, []⟩], leaderCommit := 0 }
  let vote₃ : RequestVoteRequest := ⟨3, 1, 1, 2⟩
  [(1, .call [5]), (1, .call [7]), (1, .register 1),
    (2, .consensus .startElection), (2, .consensus .sendVoteRequest),
    (3, .consensus (.requestVote vote₂)),
    (2, .consensus (.voteResponse { req := vote₂, votes := 1, waiting := [1, 3] } 3 ⟨2, true⟩)),
    (2, .consensus (.replicate 1)), (1, .consensus (.appendEntries append₂)),
    (1, .consensus .startElection), (1, .consensus .sendVoteRequest),
    (2, .consensus (.requestVote vote₃)),
    (1, .consensus (.voteResponse { req := vote₃, votes := 1, waiting := [2, 3] } 2 ⟨3, true⟩))]

/-- A third command gets the index of the second, whose caller gives up and takes the third
one's waiter out with its own. The command is committed and applied. -/
def reuseRun : List (NodeId × ProposeAction Nat) :=
  let append₃ : AppendEntriesRequest :=
    { term := 3, leaderId := 1, prevLogIndex := 1, prevLogTerm := 2,
      entries := [⟨2, 3, []⟩, ⟨3, 3, [9]⟩], leaderCommit := 0 }
  [(1, .call [9]), (1, .register 2), (1, .leave 1 .poll), (1, .forget 1),
    (1, .consensus (.replicate 2)), (2, .consensus (.appendEntries append₃)),
    (1, .consensus (.appendResponse 2 append₃ ⟨3, true, 0, 0⟩)),
    (1, .consensus .applyStep), (1, .consensus .applyStep), (1, .consensus .applyStep),
    (1, .consensus .applyStep), (1, .consensus .applyStep), (1, .consensus .applyStep),
    (1, .consume), (1, .consume), (1, .consume)]

/-- Without the condition a caller times out although its node led the term throughout and
applied the command while it waited. -/
theorem proposer_misses_result :
    ∃ (past : List (System Nat Nat)) (sys : System Nat Nat) (c : Call Nat) (e : Entry),
      Path (System.step counting trio) (fun _ _ => True) (.init counting trio) past sys ∧
        sys.calls[2]? = some c ∧ c.entry = some e ∧ AppliedWaiting past 2 c.node e ∧
        LedWaiting past 2 c.node e.term ∧ c.phase = .returned .timeout := by
  obtain ⟨past, sys, hpath, ⟨s, hs, hwaited⟩, hover, hc⟩ : ∃ past sys,
      Path (step counting trio) (fun s _ => s.Awaits 2 →
        (s.world.nodes 1).rf.state = .leader ∧ (s.world.nodes 1).rf.term = 3)
        (.init counting trio) past sys ∧
      (∃ s ∈ past, s.Awaits 2 ∧ .entry ⟨3, 3, [9]⟩ ∈ (s.world.nodes 1).consumed) ∧
      ¬ sys.Awaits 2 ∧ sys.calls[2]? =
        some { node := 1, data := [9], origin := none, slot := some (3, 3)
               phase := .returned .timeout } :=
    Path.exists_decide (firstTerm ++ takeover ++ reuseRun) [(1, .leave 2 .deadline), (1, .forget 2)]
      (by decide +kernel)
  have hled : LedWaiting past 2 1 3 := hpath.all_of_ok fun hawaits => absurd hawaits hover
  exact ⟨past, sys, _, _, hpath.mono fun _ _ _ => trivial, hc, rfl, ⟨s, hs, hwaited⟩, hled, rfl⟩

section

variable {σ ρ : Type}

/-- Some node has sent another term's entry at the index to its consumer. -/
def Displaced (cluster : Cluster) (w : World σ) (slot : Nat × Nat) : Prop :=
  ∃ v ∈ cluster.members, ∃ msg ∈ (w.nodes v).history, ∃ e ∈ asEntry msg,
    e.index = slot.1 ∧ e.term ≠ slot.2
  deriving Decidable

/-- The condition on one step: the consensus steps are safe, and the poll gives up on a call
only when another entry was applied at its index. -/
def RetryStep (cluster : Cluster) (sys : System σ ρ) : NodeId × ProposeAction σ → Prop
  | (u, .consensus act) => SafeStep sys.world (u, act)
  | (_, .leave id .poll) => ∀ c ∈ sys.calls[id]?, ∀ slot ∈ c.slot, Displaced cluster sys.world slot
  | _ => True

instance (cluster : Cluster) (sys : System σ ρ) :
    (act : NodeId × ProposeAction σ) → Decidable (RetryStep cluster sys act)
  | (u, act) => by
    induction act using ProposeAction.casesOn with
    | leave id why => induction why using GiveUp.casesOn <;> dsimp only [RetryStep] <;> infer_instance
    | _ => dsimp only [RetryStep]; infer_instance

/-- The call is told that another entry took its place, or soon will be. -/
def Phase.supersedes : Phase ρ → Bool
  | .waiting (some .superseded) | .leaving .poll | .returned .superseded => true
  | _ => false

/-- Where a call is told so, it is true. -/
structure RetryInv (cluster : Cluster) (sys : System σ ρ) : Prop where
  delivering : ∀ (u : NodeId) (id : Nat) (c : Call ρ) (slot : Nat × Nat),
    (sys.tables u).delivering = some (id, .superseded) → sys.calls[id]? = some c →
    c.slot = some slot → Displaced cluster sys.world slot
  calls : ∀ (id : Nat) (c : Call ρ) (slot : Nat × Nat), sys.calls[id]? = some c →
    c.slot = some slot → c.phase.supersedes = true → Displaced cluster sys.world slot

variable [DecidableEq σ] {app : Applier σ ρ} {cluster : Cluster} {past : List (System σ ρ)}
  {sys sys' : System σ ρ} {u : NodeId} {act : ProposeAction σ}

lemma Displaced.step (hreach : Reachable (World.step app.toStateMachine cluster)
      (.init app.toStateMachine cluster) sys.world)
    (hstep : SystemStep app cluster sys u act sys') {slot : Nat × Nat}
    (hdisplaced : Displaced cluster sys.world slot) : Displaced cluster sys'.world slot := by
  obtain hsame | ⟨a, -, hworld⟩ := hstep.world_step
  · rw [hsame]
    exact hdisplaced
  · obtain ⟨v, hv, msg, hmsg, hrest⟩ := hdisplaced
    exact ⟨v, hv, msg, history_step hreach hworld msg hmsg, hrest⟩

/-- An entry a node consumed or has on its channel displaces the others at its index. -/
lemma displaced_of_sent {w : World σ}
    (hreach : Reachable (World.step app.toStateMachine cluster) (.init app.toStateMachine cluster) w)
    (hu : u ∈ cluster.members) {e : Entry} (he : .entry e ∈ (w.nodes u).sent) {slot : Nat × Nat}
    (hindex : e.index = slot.1) (hterm : e.term ≠ slot.2) : Displaced cluster w slot :=
  ⟨u, hu, _, sent_on_record hreach _ he, e, rfl, hindex, hterm⟩

variable {Ok : System σ ρ → NodeId × ProposeAction σ → Prop}

section

variable (hpath : Path (step app cluster) Ok (.init app cluster) past sys)
  (hinv : RetryInv cluster sys)

include hpath hinv

lemma RetryInv.calls_step (hretry : RetryStep cluster sys (u, act)) (hu : u ∈ cluster.members)
    (hstep : SystemStep app cluster sys u act sys') {id : Nat} {c' : Call ρ} {slot : Nat × Nat}
    (hc' : sys'.calls[id]? = some c') (hslot : c'.slot = some slot)
    (hphase : c'.phase.supersedes = true) : Displaced cluster sys'.world slot := by
  obtain ⟨wpast, hworld, -⟩ := path_world hpath
  obtain ⟨hcalls, htables⟩ := CallsInv.reachable hpath
  refine Displaced.step hworld.reach hstep ?_
  cases hstep.call_change hc' with
  | same hc => exact hinv.calls id c' slot hc hslot hphase
  | found hc hfrom hslot' hnode hs =>
    cases hslot'.symm.trans hslot
    obtain ⟨hmem, hindex⟩ := Tables.mem_of_settledAt hs
    obtain ⟨e, heindex, heterm, he, -⟩ := (htables u).settled _ hmem
    refine displaced_of_sent hworld.reach hu (mem_append_left _ he) (heindex.trans hindex) ?_
    split at hphase
    · next hterm =>
      rw [heterm]
      exact hterm
    · cases hphase
  | @delivered outcome c hc hfrom hd =>
    cases outcome with
    | superseded => exact hinv.delivering u id c slot hd hc hslot
    | _ => cases hphase
  | @received outcome c hc hfrom =>
    refine hinv.calls id c slot hc hslot ?_
    cases outcome with
    | superseded =>
      rw [hfrom]
      rfl
    | _ => cases hphase
  | @left index term why resultCh c hact hc =>
    subst hact
    cases why with
    | poll => exact hretry c hc slot hslot
    | _ => cases hphase
  | @forgot why c hc hfrom =>
    refine hinv.calls id c slot hc hslot ?_
    cases why with
    | poll =>
      rw [hfrom]
      rfl
    | _ => cases hphase
  | answered hc hfrom =>
    have hnone := hcalls.forwarding id _ _ hc hfrom
    cases hnone.symm.trans hslot
  | refused => cases hslot
  | _ => cases hphase

lemma RetryInv.delivering_step (hu : u ∈ cluster.members)
    (hstep : SystemStep app cluster sys u act sys') {v : NodeId} {id : Nat} {c' : Call ρ}
    {slot : Nat × Nat} (hd : (sys'.tables v).delivering = some (id, .superseded))
    (hc' : sys'.calls[id]? = some c') (hslot : c'.slot = some slot) :
    Displaced cluster sys'.world slot := by
  obtain ⟨wpast, hworld, -⟩ := path_world hpath
  obtain ⟨-, htables⟩ := CallsInv.reachable hpath
  refine Displaced.step hworld.reach hstep ?_
  obtain hold | ⟨rfl, e, rest, term, hch, hp, houtcome⟩ := hstep.delivering hd
  · obtain ⟨-, c, e, t, hc, -⟩ := (htables v).delivering _ _ hold
    obtain ⟨phase, hkept, -⟩ := hstep.call_kept hc
    cases hkept.symm.trans hc'
    exact hinv.delivering v id c slot hold hc hslot
  obtain ⟨c, hc, -, hslot', -⟩ := (htables v).pending _ _ _ hp
  obtain ⟨phase, hkept, -⟩ := hstep.call_kept hc
  cases hkept.symm.trans hc'
  cases hslot'.symm.trans hslot
  have he : ApplyMsg.entry e ∈ (sys.world.nodes v).sent := by
    refine mem_append_right _ ?_
    rw [hch]
    exact mem_cons_self
  refine displaced_of_sent hworld.reach hu he rfl ?_
  split at houtcome
  · next hterm => exact Ne.symm hterm
  · cases houtcome

end

section

variable (hpath : Path (step app cluster) (RetryStep cluster) (.init app cluster) past sys)

include hpath

lemma RetryInv.reachable : RetryInv cluster sys := by
  refine hpath.invariant (fun _ sys => RetryInv cluster sys) ?_ ?_
  · refine ⟨fun u id c slot hd => ?_, fun id c slot hc => ?_⟩
    · cases hd
    · cases hc
  rintro past sys sys' ⟨u, act⟩ hpath hinv hretry hstep
  obtain ⟨hu, hsys⟩ := step_inv hstep
  exact ⟨fun v id c slot hd hc hslot => hinv.delivering_step hpath hu hsys hd hc hslot,
    fun id c slot hc hslot hphase => hinv.calls_step hpath hretry hu hsys hc hslot hphase⟩

lemma RetryInv.path_world : ∃ wpast, Path (World.step app.toStateMachine cluster) SafeStep
        (.init app.toStateMachine cluster) wpast sys.world ∧ ∀ s ∈ past, s.world ∈ wpast := by
  refine hpath.map world fun s s' act hretry hstep => ?_
  obtain ⟨u, act⟩ := act
  obtain hsame | ⟨a, hruns, hworld⟩ := (step_inv hstep).2.world_step
  · exact .inl hsame
  refine .inr ⟨_, ?_, hworld⟩
  cases hruns with
  | consensus hplain => exact hretry
  | consume | call | serve => trivial
  | crash during =>
    cases during with
    | none | some => trivial

end

lemma history_kept {Ok : World σ → NodeId × Action σ → Prop} {machine : StateMachine σ}
    {wpast : List (World σ)} {w : World σ}
    (hpath : Path (World.step machine cluster) Ok (.init machine cluster) wpast w) :
    ∀ w₁ ∈ wpast, ∀ msg ∈ (w₁.nodes u).history, msg ∈ (w.nodes u).history := by
  refine hpath.invariant (fun wpast w => ∀ w₁ ∈ wpast, ∀ msg ∈ (w₁.nodes u).history,
    msg ∈ (w.nodes u).history) ?_ ?_
  · intro w₁ hw₁ msg hmsg
    rw [mem_singleton.mp hw₁] at hmsg
    exact hmsg
  rintro wpast w w' act hpath hkept - hstep w₁ hw₁ msg hmsg
  obtain rfl | hw₁ := mem_cons.mp hw₁
  · exact hmsg
  · exact history_step (hpath.reach.mono fun _ _ _ => trivial) hstep msg (hkept w₁ hw₁ msg hmsg)

lemma over_stays (hpath : Path (step app cluster) Ok (.init app cluster) past sys) {s : System σ ρ}
    (hs : s ∈ past) {id : Nat} {c : Call ρ} (hc : s.calls[id]? = some c) (hover : c.over = true) :
    sys.calls[id]? = some c := by
  induction hpath with
  | refl =>
    rw [mem_singleton.mp hs] at hc
    exact hc
  | tail hpath _ hstep ih =>
  obtain rfl | hs := mem_cons.mp hs
  · exact hc
  · obtain ⟨phase, hc', hkept⟩ := (step_inv hstep).2.call_kept (ih hs)
    rw [hc', hkept hover]

/-- Superseded means never: in every run whose steps all meet their condition, the entry of a
call that returned `errSuperseded` is applied by no node. -/
theorem superseded_never_applied
    (hpath : Path (System.step app cluster) (RetryStep cluster) (.init app cluster) past sys)
    {s : System σ ρ} (hs : s ∈ past) {id : Nat} {c : Call ρ} {e : Entry}
    (hc : s.calls[id]? = some c) (hphase : c.phase = .returned .superseded)
    (hentry : c.entry = some e) {v : NodeId} (hv : v ∈ cluster.members) (res : ρ) :
    ¬ AppliedIn app cluster past v e res := by
  rintro ⟨s₁, s₂, rest, hsteps, -, hch, -⟩
  obtain ⟨wpast, hworld, hmem⟩ := RetryInv.path_world hpath
  obtain ⟨h, hsim⟩ := Sim.reachable hworld.reach
  -- another entry was applied at the call's index
  obtain ⟨slot, hslot, rfl⟩ := Option.map_eq_some_iff.mp hentry
  have hover := over_stays hpath hs hc (by rw [Call.over, hphase])
  obtain ⟨v', hv', msg, hmsg, f, hf, hindex, hterm⟩ :=
    (RetryInv.reachable hpath).calls id c slot hover hslot (by rw [hphase]; rfl)
  obtain rfl : msg = .entry f := by
    cases msg with
    | entry e =>
      cases hf
      rfl
    | snapshotRequest | snapshot => cases hf
  -- and so was the call's entry
  have hs₁ := hmem s₁ (hsteps.subset (mem_cons_of_mem _ mem_cons_self))
  have hsent : ApplyMsg.entry { index := slot.1, term := slot.2, data := c.data } ∈
      (s₁.world.nodes v).sent := by
    refine mem_append_right _ ?_
    rw [hch]
    exact mem_cons_self
  have hrecord := history_kept hworld s₁.world hs₁ _
    (sent_on_record ((hworld.reach_of_mem hs₁).mono fun _ _ _ => trivial) _ hsent)
  have hsame := EntryOk.agree hsim.inv ((hsim.items v' hv').history f hmsg)
    ((hsim.items v hv).history _ hrecord) hindex
  rw [hsame] at hterm
  exact hterm rfl

end

/-- Node 2 takes over from node 1 before node 1's command is committed. The first commands of
both get the same index, and node 1's caller is told so when the second one is applied. -/
def displacedRun : List (NodeId × ProposeAction Nat) :=
  let vote₂ : RequestVoteRequest := ⟨2, 2, 0, 0⟩
  let append₂ : AppendEntriesRequest :=
    { term := 2, leaderId := 2, prevLogIndex := 0, prevLogTerm := 0,
      entries := [⟨1, 2, []⟩, ⟨2, 2, [9]⟩], leaderCommit := 0 }
  let commit₂ : AppendEntriesRequest :=
    { term := 2, leaderId := 2, prevLogIndex := 2, prevLogTerm := 2, entries := [], leaderCommit := 2 }
  [(1, .call [7]), (1, .register 0), (2, .consensus .startElection),
    (2, .consensus .sendVoteRequest), (3, .consensus (.requestVote vote₂)),
    (2, .consensus (.voteResponse { req := vote₂, votes := 1, waiting := [1, 3] } 3 ⟨2, true⟩)),
    (2, .call [9]), (2, .register 1), (2, .consensus (.replicate 1)),
    (1, .consensus (.appendEntries append₂)),
    (2, .consensus (.appendResponse 1 append₂ ⟨2, true, 0, 0⟩)),
    (2, .consensus (.replicate 1)), (1, .consensus (.appendEntries commit₂)),
    (1, .consensus .applyStep), (1, .consensus .applyStep), (1, .consensus .applyStep),
    (1, .consensus .applyStep), (1, .consume), (1, .consume), (1, .deliver), (1, .receive 0)]


/-- A caller that is told about the entry at its index. -/
theorem superseded_never_applied_trio :
    ∃ (past : List (System Nat Nat)) (sys : System Nat Nat),
      Path (System.step counting trio) (RetryStep trio) (.init counting trio) past sys ∧
        (sys.calls[0]?).map Call.phase = some (.returned .superseded) ∧
        ∀ v ∈ trio.members, ∀ res,
          ¬ AppliedIn counting trio past v { index := 2, term := 1, data := [7] } res := by
  obtain ⟨sys, hreach, hc⟩ : ∃ sys,
      Reach (step counting trio) (RetryStep trio) (.init counting trio) sys ∧
      sys.calls[0]? = some { node := 1, data := [7], origin := none, slot := some (2, 1)
                             phase := .returned .superseded } :=
    Reach.exists_decide (firstTerm ++ displacedRun) (by decide +kernel)
  obtain ⟨past, hpath⟩ := hreach.exists_path
  exact ⟨past, sys, hpath, by rw [hc]; rfl, fun v hv res =>
    superseded_never_applied hpath hpath.mem hc rfl rfl hv res⟩

/-- Node 2 has node 1's command when it stands in term 2. Node 1's caller gives up. -/
def abandonRun : List (NodeId × ProposeAction Nat) :=
  let append : AppendEntriesRequest :=
    { term := 1, leaderId := 1, prevLogIndex := 0, prevLogTerm := 0,
      entries := [⟨1, 1, []⟩, ⟨2, 1, [7]⟩], leaderCommit := 0 }
  let vote₂ : RequestVoteRequest := ⟨2, 2, 2, 1⟩
  [(1, .call [7]), (1, .register 0), (1, .consensus (.replicate 2)),
    (2, .consensus (.appendEntries append)), (2, .consensus .startElection),
    (2, .consensus .sendVoteRequest), (1, .consensus (.requestVote vote₂)),
    (1, .leave 0 .poll), (1, .forget 0)]

/-- Node 2 wins with node 1's vote, and commits and applies the command with its own no-op. -/
def committedRun : List (NodeId × ProposeAction Nat) :=
  let vote₂ : RequestVoteRequest := ⟨2, 2, 2, 1⟩
  let append₂ : AppendEntriesRequest :=
    { term := 2, leaderId := 2, prevLogIndex := 2, prevLogTerm := 1,
      entries := [⟨3, 2, []⟩], leaderCommit := 0 }
  [(2, .consensus (.voteResponse { req := vote₂, votes := 1, waiting := [1, 3] } 1 ⟨2, true⟩)),
    (2, .consensus (.replicate 1)), (1, .consensus (.appendEntries append₂)),
    (2, .consensus (.appendResponse 1 append₂ ⟨2, true, 0, 0⟩)),
    (2, .consensus .applyStep), (2, .consensus .applyStep), (2, .consensus .applyStep),
    (2, .consensus .applyStep), (2, .consume), (2, .consume)]

/-- The poll reports a command as superseded that no node has applied yet and that is applied
afterwards. -/
theorem superseded_applied :
    ∃ (past : List (System Nat Nat)) (s sys : System Nat Nat) (c : Call Nat) (e : Entry),
      Path (System.step counting trio) (fun _ _ => True) (.init counting trio) past sys ∧
        s ∈ past ∧ s.calls[0]? = some c ∧ c.phase = .returned .superseded ∧ c.entry = some e ∧
        (∀ v ∈ trio.members, .entry e ∉ (s.world.nodes v).history) ∧
        .entry e ∈ (sys.world.nodes 2).consumed := by
  obtain ⟨past, sys, hpath, ⟨s, hs, hc, hnone⟩, hend⟩ : ∃ past sys,
      Path (step counting trio) (fun _ _ => True) (.init counting trio) past sys ∧
      (∃ s ∈ past, s.calls[0]? =
          some { node := 1, data := [7], origin := none, slot := some (2, 1)
                 phase := .returned .superseded } ∧
        ∀ v ∈ trio.members, .entry ⟨2, 1, [7]⟩ ∉ (s.world.nodes v).history) ∧
      .entry ⟨2, 1, [7]⟩ ∈ (sys.world.nodes 2).consumed :=
    Path.exists_decide (firstTerm ++ abandonRun) committedRun (by decide +kernel)
  exact ⟨past, s, sys, _, _, hpath, hs, hc, rfl, rfl, hnone, hend⟩

end stratum.raft
