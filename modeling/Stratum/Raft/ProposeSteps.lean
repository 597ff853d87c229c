import Stratum.Raft.AppliedEntries
import Stratum.Raft.Propose

open stratum.lib stratum.kvraft List Function

namespace stratum.raft

open Option raft.System Call

variable {σ ρ : Type} [DecidableEq σ]

/-- The step of the cluster an action comes with, if any. -/
inductive ProposeAction.Runs {σ : Type} : ProposeAction σ → Action σ → Prop
  | consensus {a : Action σ} (hplain : a.plain = true) : Runs (.consensus a) a
  | consume : Runs .consume .consume
  | crash (during : Option (Msg σ)) : Runs (.crash during) (crashAction during)
  | call (data : Bytes) : Runs (.call data) (.propose data)
  | serve (id : Nat) (data : Bytes) : Runs (.serve id) (.propose data)

/-- The actions that neither hand on a message nor start the process over. -/
def ProposeAction.quiet {σ : Type} : ProposeAction σ → Bool
  | .consume | .crash _ => false
  | _ => true

variable {act : ProposeAction σ} {id : Nat} {c c' : Call ρ} {phase : Phase ρ}

omit [DecidableEq σ] in
lemma ProposeAction.Runs.of_consume (hruns : act.Runs .consume) : act = .consume := by
  cases act with
  | consensus a =>
    cases hruns with
    | consensus hplain => cases hplain
  | consume => rfl
  | crash during =>
    cases during with
    | none | some => cases hruns
  | _ => cases hruns

omit [DecidableEq σ] in
lemma ProposeAction.Runs.of_crashes {a : Action σ} (hruns : act.Runs a)
    (hcrash : a.crashes = true) : ∃ during, act = .crash during := by
  cases hruns with
  | consensus hplain =>
    cases a with
    | restart | crashInHandler => cases hplain
    | _ => cases hcrash
  | crash during => exact ⟨during, rfl⟩
  | _ => cases hcrash

section

variable (app : Applier σ ρ) (cluster : Cluster) (sys : System σ ρ) (u : NodeId)

/-- What one step on node `u` is: the state before, the action and the state after. -/
inductive SystemStep : ProposeAction σ → System σ ρ → Prop
  | consensus {act : Action σ} {world : World σ} (hplain : act.plain = true)
      (hworld : sys.world.step app.toStateMachine cluster (u, act) = some world) :
      SystemStep (.consensus act) { sys with world }
  | entry {entry : Entry} {rest : List (ApplyMsg σ)} {world : World σ}
      (hidle : (sys.tables u).delivering = none)
      (hch : (sys.world.nodes u).applyCh = .entry entry :: rest)
      (hworld : sys.world.step app.toStateMachine cluster (u, .consume) = some world) :
      SystemStep .consume
        { sys with
          world
          tables := update sys.tables u ((sys.tables u).handleEntryMsg entry
            (app.result (sys.world.nodes u).sm entry.data)) }
  | snapshot {world : World σ}
      (hch : ∀ entry rest, (sys.world.nodes u).applyCh ≠ .entry entry :: rest)
      (hworld : sys.world.step app.toStateMachine cluster (u, .consume) = some world) :
      SystemStep .consume { sys with world }
  | crash {during : Option (Msg σ)} {world : World σ}
      (hworld : sys.world.step app.toStateMachine cluster (u, crashAction during) = some world) :
      SystemStep (.crash during)
        { world, tables := update sys.tables u .empty, calls := sys.calls.map (lose u) }
  | proposed {act : ProposeAction σ} {data : Bytes} {origin : Option Nat} {world : World σ}
      (hcause : act = .call data ∧ origin = none ∨ ∃ id c leader, act = .serve id ∧
        origin = some id ∧ sys.calls[id]? = some c ∧ c.phase = .forwarding leader ∧ c.data = data)
      (hdata : data ≠ []) (hleader : (sys.world.nodes u).rf.state = .leader)
      (hworld : sys.world.step app.toStateMachine cluster (u, .propose data) = some world) :
      SystemStep act
        { sys with
          world
          calls := sys.calls ++ [{
            node := u, data, origin
            slot := some ((sys.world.nodes u).rf.log.lastLogIndex + 1, (sys.world.nodes u).rf.term)
            phase := .proposed }] }
  | refused {act : ProposeAction σ} {data : Bytes} {origin : Option Nat} {phase : Phase ρ}
      (hcause : act = .call data ∧ origin = none ∨ ∃ id, act = .serve id ∧ origin = some id)
      (hphase : phase = .returned .notLeader ∨ origin = none ∧ ∃ leader, phase = .forwarding leader) :
      SystemStep act
        { sys with calls := sys.calls ++ [{ node := u, data, origin, slot := none, phase }] }
  | found {id index term : Nat} {c : Call ρ} {s : SettledResult ρ} (hc : sys.calls[id]? = some c)
      (hphase : c.phase = .proposed) (hslot : c.slot = some (index, term)) (hnode : c.node = u)
      (hs : (sys.tables u).settledAt index = some s) : SystemStep (.register id)
        ((sys.setTables u ((sys.tables u).takeSettledLocked index).2).setPhase id c
          (.returned (if s.term ≠ term then .superseded else .applied s.res)))
  | registered {id index term : Nat} {c : Call ρ} (hc : sys.calls[id]? = some c)
      (hphase : c.phase = .proposed) (hslot : c.slot = some (index, term)) (hnode : c.node = u)
      (hs : (sys.tables u).settledAt index = none) : SystemStep (.register id)
        ((sys.setTables u { sys.tables u with
          pending := update (sys.tables u).pending index (some (term, id)) }).setPhase
            id c (.waiting none))
  | delivered {id : Nat} {outcome : Outcome ρ} {c : Call ρ}
      (hd : (sys.tables u).delivering = some (id, outcome)) (hc : sys.calls[id]? = some c)
      (hphase : c.phase = .waiting none) : SystemStep .deliver
        ((sys.setTables u { sys.tables u with delivering := none }).setPhase id c
          (.waiting (some outcome)))
  | dropped {id : Nat} {outcome : Outcome ρ} {c : Call ρ}
      (hd : (sys.tables u).delivering = some (id, outcome)) (hc : sys.calls[id]? = some c)
      (hphase : c.phase ≠ .waiting none) : SystemStep .deliver
        (sys.setTables u { sys.tables u with delivering := none })
  | received {id : Nat} {outcome : Outcome ρ} {c : Call ρ} (hc : sys.calls[id]? = some c)
      (hphase : c.phase = .waiting (some outcome)) (hnode : c.node = u) :
      SystemStep (.receive id) (sys.setPhase id c (.returned outcome))
  | left {id index term : Nat} {why : GiveUp} {resultCh : Option (Outcome ρ)} {c : Call ρ}
      (hc : sys.calls[id]? = some c) (hphase : c.phase = .waiting resultCh)
      (hslot : c.slot = some (index, term)) (hnode : c.node = u)
      (hpoll : why = .poll → (sys.world.nodes u).rf.term ≠ term ∨
        (sys.world.nodes u).rf.state ≠ .leader) :
      SystemStep (.leave id why) (sys.setPhase id c (.leaving why))
  | forgot {id index term : Nat} {why : GiveUp} {c : Call ρ} (hc : sys.calls[id]? = some c)
      (hphase : c.phase = .leaving why) (hslot : c.slot = some (index, term)) (hnode : c.node = u) :
      SystemStep (.forget id) ((sys.setTables u ((sys.tables u).forgetPending index)).setPhase id c
          (.returned why.outcome))
  | answered {id origin : Nat} {outcome : Outcome ρ} {leader : NodeId} {c c₀ : Call ρ}
      (hc : sys.calls[id]? = some c) (hphase : c.phase = .returned outcome)
      (horigin : c.origin = some origin) (hc₀ : sys.calls[origin]? = some c₀)
      (hphase₀ : c₀.phase = .forwarding leader) : SystemStep (.answer id)
        (sys.setPhase origin c₀ (.returned outcome.forwarded))
  | failed {id : Nat} {leader : NodeId} {c : Call ρ} (hc : sys.calls[id]? = some c)
      (hphase : c.phase = .forwarding leader) : SystemStep (.forwardFailed id)
        (sys.setPhase id c (.returned .forwardFailed))

end

namespace System

variable {app : Applier σ ρ} {cluster : Cluster} {sys sys' : System σ ρ} {u : NodeId}

lemma proposeAndWait_inv {data : Bytes} {origin : Option Nat}
    (hcause : act = .call data ∧ origin = none ∨ ∃ id c leader, act = .serve id ∧ origin = some id
      ∧ sys.calls[id]? = some c ∧ c.phase = .forwarding leader ∧ c.data = data)
    (hserve : ∀ id, origin = some id → (sys.world.nodes u).rf.leaderID = some u)
    (hstep : sys.proposeAndWait app cluster u data origin = some sys') :
    SystemStep app cluster sys u act sys' := by
  obtain ⟨hdata, hstep⟩ := ite_none_left_eq_some.mp hstep
  have hdata : data ≠ [] := fun hnil => hdata (by rw [hnil]; rfl)
  split at hstep
  · next hleader =>
    obtain ⟨world, hworld, rfl⟩ := map_eq_some_iff.mp hstep
    exact .proposed hcause hdata hleader hworld
  cases hstep
  have hcause : act = .call data ∧ origin = none ∨
      ∃ id, act = .serve id ∧ origin = some id := by
    obtain hcall | ⟨id, c, leader, hact, horigin, -⟩ := hcause
    · exact .inl hcall
    · exact .inr ⟨id, hact, horigin⟩
  refine .refused hcause ?_
  cases horigin : origin with
  | none =>
    split
    · split
      · exact .inr ⟨rfl, _, rfl⟩
      · exact .inl rfl
    · exact .inl rfl
  | some id =>
    rw [hserve id horigin]
    simp

lemma serve_inv (hstep : sys.serve app cluster u id = some sys') :
    SystemStep app cluster sys u (.serve id) sys' := by
  obtain ⟨c, hc, hstep⟩ := bind_eq_some_iff.mp hstep
  split at hstep
  · next leader hphase =>
    split at hstep
    · next hcond =>
      refine proposeAndWait_inv (.inr ⟨id, c, leader, rfl, rfl, hc, hphase, rfl⟩) ?_ hstep
      intro _ _
      exact hcond.2.1
    · cases hstep
  · cases hstep

lemma register_inv (hstep : sys.register u id = some sys') :
    SystemStep app cluster sys u (.register id) sys' := by
  obtain ⟨c, hc, hstep⟩ := bind_eq_some_iff.mp hstep
  split at hstep
  · next index term hphase hslot =>
    obtain ⟨hnode, hstep⟩ := ite_none_right_eq_some.mp hstep
    split at hstep
    · next s tb htake =>
      cases hstep
      obtain ⟨hs, rfl⟩ := Prod.mk.inj htake
      exact .found hc hphase hslot hnode hs
    · next htake =>
      cases hstep
      exact .registered hc hphase hslot hnode (Prod.mk.inj htake).1
  · cases hstep

lemma consume_inv (hstep : sys.consume app cluster u = some sys') :
    SystemStep app cluster sys u .consume sys' := by
  unfold consume at hstep
  split at hstep
  · next hidle =>
    obtain ⟨world, hworld, rfl⟩ := map_eq_some_iff.mp hstep
    split
    · next entry rest hch =>
      exact .entry (isNone_iff_eq_none.mp hidle) hch hworld
    · next hch => exact .snapshot (hch) hworld
  · cases hstep

lemma deliver_inv (hstep : sys.deliver u = some sys') :
    SystemStep app cluster sys u .deliver sys' := by
  obtain ⟨⟨id, outcome⟩, hd, hstep⟩ := bind_eq_some_iff.mp hstep
  obtain ⟨c, hc, rfl⟩ := map_eq_some_iff.mp hstep
  split
  · next hphase => exact .delivered hd hc hphase
  · next hphase => exact .dropped hd hc hphase

lemma receive_inv (hstep : sys.receive u id = some sys') :
    SystemStep app cluster sys u (.receive id) sys' := by
  obtain ⟨c, hc, hstep⟩ := bind_eq_some_iff.mp hstep
  split at hstep
  · next outcome hphase =>
    obtain ⟨hnode, ⟨⟩⟩ := ite_none_right_eq_some.mp hstep
    exact .received hc hphase hnode
  · cases hstep

lemma leave_inv {why : GiveUp} (hstep : sys.leave u id why = some sys') :
    SystemStep app cluster sys u (.leave id why) sys' := by
  obtain ⟨c, hc, hstep⟩ := bind_eq_some_iff.mp hstep
  split at hstep
  · next resultCh index term hphase hslot =>
    obtain ⟨hcond, ⟨⟩⟩ := ite_none_right_eq_some.mp hstep
    exact .left hc hphase hslot hcond.1 hcond.2
  · cases hstep

lemma forget_inv (hstep : sys.forget u id = some sys') :
    SystemStep app cluster sys u (.forget id) sys' := by
  obtain ⟨c, hc, hstep⟩ := bind_eq_some_iff.mp hstep
  split at hstep
  · next why index term hphase hslot =>
    obtain ⟨hnode, ⟨⟩⟩ := ite_none_right_eq_some.mp hstep
    exact .forgot hc hphase hslot hnode
  · cases hstep

lemma answer_inv (hstep : sys.answer u id = some sys') :
    SystemStep app cluster sys u (.answer id) sys' := by
  obtain ⟨c, hc, hstep⟩ := bind_eq_some_iff.mp hstep
  split at hstep
  · next outcome origin hphase horigin =>
    obtain ⟨c₀, hc₀, hstep⟩ := bind_eq_some_iff.mp hstep
    split at hstep
    · next leader hphase₀ =>
      split at hstep
      · cases hstep
        exact .answered hc hphase horigin hc₀ hphase₀
      · cases hstep
    · cases hstep
  · cases hstep

lemma forwardFailed_inv (hstep : sys.forwardFailed u id = some sys') :
    SystemStep app cluster sys u (.forwardFailed id) sys' := by
  obtain ⟨c, hc, hstep⟩ := bind_eq_some_iff.mp hstep
  split at hstep
  · next leader hphase =>
    split at hstep
    · cases hstep
      exact .failed hc hphase
    · cases hstep
  · cases hstep

lemma step_inv (hstep : sys.step app cluster (u, act) = some sys') :
    u ∈ cluster.members ∧ SystemStep app cluster sys u act sys' := by
  unfold step at hstep
  split at hstep
  · next hmember =>
    refine ⟨hmember, ?_⟩
    cases act with
    | consensus a =>
      obtain ⟨hplain, hstep⟩ := ite_none_right_eq_some.mp hstep
      obtain ⟨world, hworld, rfl⟩ := map_eq_some_iff.mp hstep
      exact .consensus hplain hworld
    | consume => exact consume_inv hstep
    | crash during =>
      obtain ⟨world, hworld, rfl⟩ := map_eq_some_iff.mp hstep
      exact .crash hworld
    | call data =>
      exact proposeAndWait_inv (.inl ⟨rfl, rfl⟩) (nofun) hstep
    | serve id => exact serve_inv hstep
    | register id => exact register_inv hstep
    | deliver => exact deliver_inv hstep
    | receive id => exact receive_inv hstep
    | leave id why => exact leave_inv hstep
    | forget id => exact forget_inv hstep
    | answer id => exact answer_inv hstep
    | forwardFailed id => exact forwardFailed_inv hstep
  · cases hstep

end System

def Call.over {ρ : Type} (c : Call ρ) : Bool :=
  match c.phase with
  | .returned _ => true
  | _ => false

/-- The entry `Propose` appended for the call. -/
def Call.entry {ρ : Type} (c : Call ρ) : Option Entry :=
  c.slot.map fun slot => { index := slot.1, term := slot.2, data := c.data }

section

variable (app : Applier σ ρ) (cluster : Cluster) (sys : System σ ρ) (u : NodeId)
  (act : ProposeAction σ) (world : World σ) (id : Nat)

/-- How the call `id` got to what it is after a step on node `u`. -/
inductive CallChange : Call ρ → Prop
  | same {c : Call ρ} (hc : sys.calls[id]? = some c) : CallChange c
  | proposed {data : Bytes} {origin : Option Nat} (hid : id = sys.calls.length)
      (hact : (∃ data, act = .call data) ∨ ∃ id, act = .serve id)
      (hcause : origin = none ∨ ∃ (id₀ : Nat) (c : Call ρ), origin = some id₀ ∧
        sys.calls[id₀]? = some c ∧ c.data = data)
      (hdata : data ≠ []) (hleader : (sys.world.nodes u).rf.state = .leader)
      (hworld : sys.world.step app.toStateMachine cluster (u, .propose data) = some world) :
      CallChange
        { node := u, data, origin
          slot := some ((sys.world.nodes u).rf.log.lastLogIndex + 1, (sys.world.nodes u).rf.term)
          phase := .proposed }
  | refused {data : Bytes} {origin : Option Nat} {phase : Phase ρ} (hid : id = sys.calls.length)
      (hphase : phase = .returned .notLeader ∨ origin = none ∧ ∃ leader, phase = .forwarding leader) :
      CallChange { node := u, data, origin, slot := none, phase }
  | lost {c : Call ρ} (hc : sys.calls[id]? = some c) (hover : c.over = false) (hnode : c.node = u) :
      CallChange { c with phase := .returned .lost }
  | found {index term : Nat} {c : Call ρ} {s : SettledResult ρ} (hc : sys.calls[id]? = some c)
      (hphase : c.phase = .proposed) (hslot : c.slot = some (index, term)) (hnode : c.node = u)
      (hs : (sys.tables u).settledAt index = some s) :
      CallChange { c with
        phase := .returned (if s.term ≠ term then .superseded else .applied s.res) }
  | registered {index term : Nat} {c : Call ρ} (hc : sys.calls[id]? = some c)
      (hphase : c.phase = .proposed) (hslot : c.slot = some (index, term)) (hnode : c.node = u)
      (hs : (sys.tables u).settledAt index = none) : CallChange { c with phase := .waiting none }
  | delivered {outcome : Outcome ρ} {c : Call ρ} (hc : sys.calls[id]? = some c)
      (hphase : c.phase = .waiting none) (hd : (sys.tables u).delivering = some (id, outcome)) :
      CallChange { c with phase := .waiting (some outcome) }
  | received {outcome : Outcome ρ} {c : Call ρ} (hc : sys.calls[id]? = some c)
      (hphase : c.phase = .waiting (some outcome)) :
      CallChange { c with phase := .returned outcome }
  | left {index term : Nat} {why : GiveUp} {resultCh : Option (Outcome ρ)} {c : Call ρ}
      (hact : act = .leave id why) (hc : sys.calls[id]? = some c)
      (hphase : c.phase = .waiting resultCh) (hslot : c.slot = some (index, term))
      (hnode : c.node = u) (hpoll : why = .poll → (sys.world.nodes u).rf.term ≠ term ∨
        (sys.world.nodes u).rf.state ≠ .leader) :
      CallChange { c with phase := .leaving why }
  | forgot {why : GiveUp} {c : Call ρ} (hc : sys.calls[id]? = some c)
      (hphase : c.phase = .leaving why) : CallChange { c with phase := .returned why.outcome }
  | answered {id' : Nat} {outcome : Outcome ρ} {leader : NodeId} {c c' : Call ρ}
      (hc : sys.calls[id]? = some c) (hphase : c.phase = .forwarding leader)
      (hc' : sys.calls[id']? = some c') (hphase' : c'.phase = .returned outcome)
      (horigin : c'.origin = some id) : CallChange { c with phase := .returned outcome.forwarded }
  | failed {leader : NodeId} {c : Call ρ} (hc : sys.calls[id]? = some c)
      (hphase : c.phase = .forwarding leader) :
      CallChange { c with phase := .returned .forwardFailed }

end

variable {app : Applier σ ρ} {cluster : Cluster} {sys sys' : System σ ρ} {u : NodeId}
  {act : ProposeAction σ}

omit [DecidableEq σ] in
lemma System.setPhase_calls (hc : sys.calls[id]? = some c) (j : Nat) :
    (sys.setPhase id c phase).calls[j]? =
      if j = id then some { c with phase } else sys.calls[j]? := by
  have hlt := (List.getElem?_eq_some_iff.mp hc).1
  simp only [setPhase, List.getElem?_set, hlt, if_true, eq_comm]

omit [DecidableEq σ] in
lemma System.setPhase_self (hc : sys.calls[id]? = some c) :
    (sys.setPhase id c phase).calls[id]? = some { c with phase } := by
  rw [setPhase_calls hc, if_pos rfl]

omit [DecidableEq σ] in
lemma System.setPhase_cases {j : Nat} (hc : sys.calls[id]? = some c)
    (hc' : (sys.setPhase id c phase).calls[j]? = some c') :
    j = id ∧ c' = { c with phase } ∨ j ≠ id ∧ sys.calls[j]? = some c' := by
  rw [setPhase_calls hc] at hc'
  split at hc'
  · next heq =>
    cases hc'
    exact .inl ⟨heq, rfl⟩
  · next hne => exact .inr ⟨hne, hc'⟩

lemma Call.lose_cases (c : Call ρ) :
    c.lose u = c ∨ c.over = false ∧ c.node = u ∧ c.lose u = { c with phase := .returned .lost } := by
  unfold lose Call.over
  split
  · exact .inl rfl
  next hphase =>
  split
  · next hnode =>
    refine .inr ⟨?_, hnode, rfl⟩
    cases heq : c.phase with
    | returned outcome => exact absurd heq (hphase outcome)
    | _ => rfl
  · exact .inl rfl

lemma getElem?_concat_cases {α : Type} {l : List α} {x y : α} {j : Nat}
    (hy : (l ++ [x])[j]? = some y) : l[j]? = some y ∨ j = l.length ∧ y = x := by
  obtain hlt | hge := lt_or_ge j l.length
  · rw [getElem?_append_left hlt] at hy
    exact .inl hy
  rw [getElem?_append_right hge, getElem?_singleton] at hy
  split at hy
  · cases hy
    exact .inr ⟨by omega, rfl⟩
  · cases hy

lemma SystemStep.call_change (hstep : SystemStep app cluster sys u act sys')
    (hc' : sys'.calls[id]? = some c') : CallChange app cluster sys u act sys'.world id c' := by
  -- one call moves on, the others are as they were
  have hmoved {j : Nat} {c : Call ρ} {phase : Phase ρ} (hc : sys.calls[j]? = some c)
      (hc' : (sys.setPhase j c phase).calls[id]? = some c')
      (hchange : id = j → CallChange app cluster sys u act sys'.world id { c with phase }) :
      CallChange app cluster sys u act sys'.world id c' := by
    obtain ⟨hid, rfl⟩ | ⟨-, hother⟩ := setPhase_cases hc hc'
    · exact hchange hid
    · exact .same hother
  cases hstep with
  | consensus | entry | snapshot | dropped => exact .same hc'
  | crash hworld =>
    rw [getElem?_map] at hc'
    obtain ⟨c, hc, rfl⟩ := map_eq_some_iff.mp hc'
    obtain hsame | ⟨hover, hnode, hlost⟩ := @lose_cases _ u c
    · rw [hsame]
      exact .same hc
    · rw [hlost]
      exact .lost hc hover hnode
  | proposed hcause hdata hleader hworld =>
    obtain hc | ⟨hid, rfl⟩ := getElem?_concat_cases hc'
    · exact .same hc
    obtain ⟨rfl, rfl⟩ | ⟨id₀, c, leader, rfl, horigin, hc, -, hsame⟩ := hcause
    · exact .proposed hid (.inl ⟨_, rfl⟩) (.inl rfl) hdata hleader hworld
    · exact .proposed hid (.inr ⟨_, rfl⟩) (.inr ⟨id₀, c, horigin, hc, hsame⟩) hdata hleader hworld
  | refused hcause hphase =>
    obtain hc | ⟨hid, rfl⟩ := getElem?_concat_cases hc'
    · exact .same hc
    · exact .refused hid hphase
  | found hc hphase hslot hnode hs =>
    exact hmoved hc hc' (by rintro rfl; exact .found hc hphase hslot hnode hs)
  | registered hc hphase hslot hnode hs =>
    exact hmoved hc hc' (by rintro rfl; exact .registered hc hphase hslot hnode hs)
  | delivered hd hc hphase =>
    exact hmoved hc hc' (by rintro rfl; exact .delivered hc hphase hd)
  | received hc hphase hnode =>
    exact hmoved hc hc' (by rintro rfl; exact .received hc hphase)
  | left hc hphase hslot hnode hpoll =>
    exact hmoved hc hc' (by rintro rfl; exact .left rfl hc hphase hslot hnode hpoll)
  | forgot hc hphase hslot hnode =>
    exact hmoved hc hc' (by rintro rfl; exact .forgot hc hphase)
  | answered hc hphase horigin hc₀ hphase₀ =>
    exact hmoved hc₀ hc' (by rintro rfl; exact .answered hc₀ hphase₀ hc hphase horigin)
  | failed hc hphase =>
    exact hmoved hc hc' (by rintro rfl; exact .failed hc hphase)

/-- A call after a step is one from before with the same command and slot, which nothing
changes once it has returned, or the one just made. -/
lemma CallChange.kept {world : World σ} (hchange : CallChange app cluster sys u act world id c') :
    (∃ c phase, sys.calls[id]? = some c ∧ (c.over = true → phase = c.phase) ∧
        c' = { c with phase }) ∨
      id = sys.calls.length ∧
        ((∃ data origin, ((∃ data, act = .call data) ∨ ∃ id, act = .serve id) ∧
            (origin = none ∨ ∃ (id₀ : Nat) (c : Call ρ), origin = some id₀ ∧
              sys.calls[id₀]? = some c ∧ c.data = data) ∧
            data ≠ [] ∧ (sys.world.nodes u).rf.state = .leader ∧
            sys.world.step app.toStateMachine cluster (u, .propose data) = some world ∧
            c' = { node := u, data, origin
                   slot := some ((sys.world.nodes u).rf.log.lastLogIndex + 1,
                     (sys.world.nodes u).rf.term)
                   phase := .proposed }) ∨
          ∃ data origin phase, (phase = .returned .notLeader ∨
              origin = none ∧ ∃ leader, phase = .forwarding leader) ∧
            c' = { node := u, data, origin, slot := none, phase }) := by
  have hmoved {c : Call ρ} {phase : Phase ρ} (hc : sys.calls[id]? = some c)
      (hover : c.over = false) :
      ∃ d phase', sys.calls[id]? = some d ∧ (d.over = true → phase' = d.phase) ∧
        ({ c with phase } : Call ρ) = { d with phase := phase' } := by
    refine ⟨c, phase, hc, fun h => ?_, rfl⟩
    rw [hover] at h
    cases h
  cases hchange with
  | same hc => exact .inl ⟨_, _, hc, fun _ => rfl, rfl⟩
  | proposed hid hact hcause hdata hleader hworld =>
    exact .inr ⟨hid, .inl ⟨_, _, hact, hcause, hdata, hleader, hworld, rfl⟩⟩
  | refused hid hphase => exact .inr ⟨hid, .inr ⟨_, _, _, hphase, rfl⟩⟩
  | lost hc hover hnode => exact .inl (hmoved hc hover)
  | found hc hphase | registered hc hphase | delivered hc hphase | received hc hphase
  | left hact hc hphase | forgot hc hphase | answered hc hphase | failed hc hphase =>
    exact .inl (hmoved hc (by rw [Call.over, hphase]))

section

variable (hstep : SystemStep app cluster sys u act sys')

include hstep

namespace SystemStep

lemma length_le : sys.calls.length ≤ sys'.calls.length := by
  cases hstep with
  | crash hworld => exact le_of_eq (length_map _).symm
  | proposed | refused =>
    rw [length_append]
    omega
  | _ => simp [setPhase, setTables]

lemma call_kept (hc : sys.calls[id]? = some c) :
    ∃ phase, sys'.calls[id]? = some { c with phase } ∧ (c.over = true → phase = c.phase) := by
  have hlt := (List.getElem?_eq_some_iff.mp hc).1
  obtain ⟨c', hc'⟩ : ∃ c', sys'.calls[id]? = some c' :=
    ⟨_, getElem?_eq_getElem (lt_of_lt_of_le hlt hstep.length_le)⟩
  obtain ⟨d, phase, hd, hover, rfl⟩ | ⟨hnew, -⟩ := (hstep.call_change hc').kept
  · cases hd.symm.trans hc
    exact ⟨phase, hc', hover⟩
  · omega

lemma world_step : sys'.world = sys.world ∨
      ∃ a, act.Runs a ∧ sys.world.step app.toStateMachine cluster (u, a) = some sys'.world := by
  cases hstep with
  | consensus hplain hworld => exact .inr ⟨_, .consensus hplain, hworld⟩
  | entry hidle hch hworld | snapshot hch hworld =>
    exact .inr ⟨_, .consume, hworld⟩
  | crash hworld => exact .inr ⟨_, .crash _, hworld⟩
  | proposed hcause hdata hleader hworld =>
    refine .inr ⟨_, ?_, hworld⟩
    obtain ⟨rfl, -⟩ | ⟨id, c, leader, rfl, -⟩ := hcause
    · exact .call _
    · exact .serve _ _
  | _ => exact .inl rfl

lemma consumed (hnet : CallsIndexed sys.world.net) (v : NodeId) :
    (v = u ∧ (∃ during, act = .crash during)) ∨
      ∃ new, (sys'.world.nodes v).consumed = (sys.world.nodes v).consumed ++ new ∧
        ∀ e, .entry e ∈ new → v = u ∧ act = .consume ∧
          ∃ rest, (sys.world.nodes u).applyCh = .entry e :: rest := by
  obtain hworld | ⟨a, hruns, hworld⟩ := hstep.world_step
  · exact .inr ⟨[], by rw [hworld, append_nil], nofun⟩
  obtain ⟨nd', out, -, hnode, hworld'⟩ := World.step_inv hworld
  by_cases hvu : v = u
  · subst hvu
    have hnode' : sys'.world.nodes v = nd' := by
      rw [hworld']
      exact update_self _ _ _
    obtain ⟨hcrash, -⟩ | ⟨rfl, msg, rest, hch, hgrown⟩ | hkept :=
      Node.step_consumed hnet hnode
    · exact .inl ⟨rfl, hruns.of_crashes hcrash⟩
    · refine .inr ⟨[msg], by rw [hnode', hgrown], fun e he => ?_⟩
      rw [← mem_singleton.mp he] at hch
      exact ⟨rfl, hruns.of_consume, rest, hch⟩
    · exact .inr ⟨[], by rw [hnode', hkept, append_nil], nofun⟩
  · exact .inr ⟨[], by simp only [hworld', update_of_ne hvu, append_nil], nofun⟩

lemma entries_same (hnet : CallsIndexed sys.world.net) {v : NodeId}
    (hquiet : v ≠ u ∨ act.quiet = true ∨ act = .consume ∧
      ∀ entry rest, (sys.world.nodes u).applyCh ≠ .entry entry :: rest) (e : Entry) :
    .entry e ∈ (sys'.world.nodes v).consumed ↔ .entry e ∈ (sys.world.nodes v).consumed := by
  obtain ⟨hvu, during, rfl⟩ | ⟨new, hgrown, hnew⟩ := hstep.consumed hnet v
  · obtain hne | hquiet | ⟨hconsume, -⟩ := hquiet
    · exact absurd hvu hne
    · cases hquiet
    · cases hconsume
  rw [hgrown, mem_append]
  refine or_iff_left fun he => ?_
  obtain ⟨hvu, rfl, rest, hch⟩ := hnew e he
  obtain hne | hquiet | ⟨-, hnone⟩ := hquiet
  · exact hne hvu
  · cases hquiet
  · exact hnone e rest hch

lemma delivering {v : NodeId} {outcome : Outcome ρ}
    (hd : (sys'.tables v).delivering = some (id, outcome)) :
    (sys.tables v).delivering = some (id, outcome) ∨
      v = u ∧ ∃ e rest term, (sys.world.nodes u).applyCh = .entry e :: rest ∧
        (sys.tables u).pending e.index = some (term, id) ∧
        outcome = if term ≠ e.term then .superseded
          else .applied (app.result (sys.world.nodes u).sm e.data) := by
  have hupdate {tb : Tables ρ} (hd : (update sys.tables u tb v).delivering =
      some (id, outcome)) :
      v = u ∧ tb.delivering = some (id, outcome) ∨
        (sys.tables v).delivering = some (id, outcome) := by
    by_cases hvu : v = u
    · subst hvu
      rw [update_self] at hd
      exact .inl ⟨rfl, hd⟩
    · rw [update_of_ne hvu] at hd
      exact .inr hd
  cases hstep with
  | @entry e rest world hidle hch hworld =>
    obtain ⟨rfl, hd⟩ | hd := hupdate hd
    · unfold Tables.handleEntryMsg at hd
      split at hd
      · exact .inl hd
      split at hd
      · next term j hp =>
        cases hd
        exact .inr ⟨rfl, e, rest, term, hch, hp, rfl⟩
      refine .inl ?_
      unfold Tables.rememberSettledLocked at hd
      simp only at hd
      split at hd
      all_goals exact hd
    · exact .inl hd
  | crash | delivered | dropped =>
    obtain ⟨-, hd⟩ | hd := hupdate hd
    · cases hd
    · exact .inl hd
  | found | registered | forgot =>
    obtain ⟨rfl, hd⟩ | hd := hupdate hd
    all_goals exact .inl hd
  | _ => exact .inl hd

end SystemStep

end

lemma Call.lose_over (hnode : c.node = u) : (c.lose u).over = true := by
  unfold lose
  split
  · next outcome hphase => rw [Call.over, hphase]
  · rw [if_pos hnode]
    rfl

lemma System.path_world {Ok : System σ ρ → NodeId × ProposeAction σ → Prop}
    {past : List (System σ ρ)} (hpath : Path (step app cluster) Ok (.init app cluster) past sys) :
    ∃ wpast, Path (World.step app.toStateMachine cluster) (fun _ _ => True)
        (.init app.toStateMachine cluster) wpast sys.world ∧ ∀ s ∈ past, s.world ∈ wpast := by
  refine hpath.map world fun s s' act _ hstep => ?_
  obtain hsame | ⟨a, -, hworld⟩ := (step_inv hstep).2.world_step
  · exact .inl hsame
  · exact .inr ⟨_, trivial, hworld⟩

end stratum.raft
