import Stratum.Raft.ProposeSteps

open stratum.lib stratum.kvraft Function List

namespace stratum.raft

open raft.System Call Tables

variable {σ ρ : Type} [DecidableEq σ]

/-- The run took a step in which the node's consumer applied the entry with that result. -/
def AppliedIn (app : Applier σ ρ) (cluster : Cluster) (past : List (System σ ρ)) (u : NodeId)
    (e : Entry) (res : ρ) : Prop :=
  ∃ s s' rest, [s', s] <:+: past ∧ s.step app cluster (u, .consume) = some s' ∧
    (s.world.nodes u).applyCh = .entry e :: rest ∧ res = app.result (s.world.nodes u).sm e.data

/-- The phases in which a waiter may stand in the table. -/
def Phase.registered : Phase ρ → Bool
  | .waiting none | .leaving _ => true
  | _ => false

/-- What the tables of a node hold: waiters of its calls, results of entries it consumed, and
a waiter on its way out that is registered nowhere any more. -/
structure TablesOk (app : Applier σ ρ) (cluster : Cluster) (past : List (System σ ρ))
    (sys : System σ ρ) (v : NodeId) (tb : Tables ρ) : Prop where
  pending : ∀ i t id, tb.pending i = some (t, id) →
    ∃ c, sys.calls[id]? = some c ∧ c.node = v ∧ c.slot = some (i, t) ∧ c.phase.registered = true
  settled : ∀ s ∈ tb.settled, ∃ e, e.index = s.index ∧ e.term = s.term ∧
    .entry e ∈ (sys.world.nodes v).consumed ∧ AppliedIn app cluster past v e s.res
  seen : tb.settledSeen = 0 ∨
    ∃ e, .entry e ∈ (sys.world.nodes v).consumed ∧ e.index = tb.settledSeen
  delivering : ∀ id outcome, tb.delivering = some (id, outcome) →
    (∀ i t, tb.pending i ≠ some (t, id)) ∧ ∃ c e t, sys.calls[id]? = some c ∧ c.node = v ∧
      c.phase ≠ .proposed ∧ c.slot = some (e.index, t) ∧
      .entry e ∈ (sys.world.nodes v).consumed ∧
      ∀ res, outcome = .applied res → e.term = t ∧ AppliedIn app cluster past v e res

/-- The calls of a node that its tables name move on no further than the tables allow. -/
def CallsKept (sys sys' : System σ ρ) (v : NodeId) (tb : Tables ρ) : Prop :=
  ∀ id c, sys.calls[id]? = some c → c.node = v → c.phase ≠ .proposed →
    ∃ phase, sys'.calls[id]? = some { c with phase } ∧ phase ≠ .proposed ∧
      (c.phase.registered = true → phase.registered = true ∨ ∀ i t, tb.pending i ≠ some (t, id))

variable {app : Applier σ ρ} {cluster : Cluster} {past : List (System σ ρ)} {sys sys' : System σ ρ}
  {u v : NodeId} {act : ProposeAction σ} {tb : Tables ρ} {e : Entry} {res : ρ} {phase : Phase ρ}
  {c c' : Call ρ} {id : Nat} {Ok : System σ ρ → NodeId × ProposeAction σ → Prop}

section

variable (happlied : AppliedIn app cluster past u e res)

include happlied

lemma AppliedIn.cons (s : System σ ρ) : AppliedIn app cluster (s :: past) u e res := by
  obtain ⟨s₁, s₂, rest, hsteps, hrest⟩ := happlied
  exact ⟨s₁, s₂, rest, infix_cons hsteps, hrest⟩

lemma AppliedIn.mem_entries : ∃ s ∈ past, e ∈ (s.world.nodes u).entries := by
  obtain ⟨s, s', rest, hsteps, -, hch, -⟩ := happlied
  refine ⟨s, hsteps.subset (mem_cons_of_mem _ mem_cons_self), ?_⟩
  refine mem_entries_of_applyCh ?_
  rw [hch]
  exact mem_cons_self

end

omit [DecidableEq σ] in
lemma Tables.mem_of_settledAt {index : Nat} {s : SettledResult ρ}
    (hs : tb.settledAt index = some s) : s ∈ tb.settled ∧ s.index = index := by
  refine ⟨mem_of_find?_eq_some hs, ?_⟩
  have hindex := find?_some hs
  exact of_decide_eq_true hindex

omit [DecidableEq σ] in
lemma Phase.registered_ne (hreg : phase.registered = true) : phase ≠ .proposed := by
  rintro rfl
  cases hreg

namespace CallsKept

omit [DecidableEq σ]

lemma of_calls (hcalls : ∀ (id : Nat) c, sys.calls[id]? = some c → sys'.calls[id]? = some c) :
    CallsKept sys sys' v tb :=
  fun id c hc _ hphase => ⟨c.phase, hcalls id c hc, hphase, .inl⟩

lemma setPhase (hc : sys.calls[id]? = some c)
    (hsys' : sys'.calls = (sys.setPhase id c phase).calls) (hphase : phase ≠ .proposed)
    (hreg : c.node = v → c.phase.registered = true → phase.registered = true ∨ ∀ i t, tb.pending i
      ≠ some (t, id)) : CallsKept sys sys' v tb := by
  intro j d hd hnode hfrom
  rw [hsys', setPhase_calls hc]
  by_cases hj : j = id
  · subst hj
    cases hd.symm.trans hc
    rw [if_pos rfl]
    exact ⟨phase, rfl, hphase, hreg hnode⟩
  · rw [if_neg hj]
    exact ⟨d.phase, hd, hfrom, .inl⟩

lemma lose (hvu : v ≠ u) (hsys' : sys'.calls = sys.calls.map (lose u)) :
    CallsKept sys sys' v tb := by
  intro id c hc hnode hphase
  refine ⟨c.phase, ?_, hphase, .inl⟩
  rw [hsys', getElem?_map, hc]
  obtain hsame | ⟨-, hlost, -⟩ := @lose_cases _ u c
  · exact congrArg some hsame
  · exact absurd (hnode.symm.trans hlost) hvu

end CallsKept

namespace TablesOk

lemma empty : TablesOk app cluster past sys v .empty where
  pending := nofun
  settled := nofun
  seen := .inl rfl
  delivering := nofun

section

variable (hok : TablesOk app cluster past sys v tb)

include hok

lemma frame (hconsumed : ∀ msg ∈ (sys.world.nodes v).consumed, msg ∈ (sys'.world.nodes v).consumed)
    (hcalls : CallsKept sys sys' v tb) : TablesOk app cluster (sys' :: past) sys' v tb where
  pending := fun i t id hp => by
    obtain ⟨c, hc, hnode, hslot, hreg⟩ := hok.pending i t id hp
    obtain ⟨phase, hc', -, hkept⟩ := hcalls id c hc hnode (Phase.registered_ne hreg)
    obtain hreg' | hgone := hkept hreg
    · exact ⟨_, hc', hnode, hslot, hreg'⟩
    · exact absurd hp (hgone i t)
  settled := fun s hs => by
    obtain ⟨e, hindex, hterm, he, happlied⟩ := hok.settled s hs
    exact ⟨e, hindex, hterm, hconsumed _ he, happlied.cons _⟩
  seen := by
    obtain hzero | ⟨e, he, hindex⟩ := hok.seen
    · exact .inl hzero
    · exact .inr ⟨e, hconsumed _ he, hindex⟩
  delivering := fun id outcome hd => by
    obtain ⟨hgone, c, e, t, hc, hnode, hphase, hslot, he, happlied⟩ := hok.delivering id outcome hd
    obtain ⟨phase, hc', hphase', -⟩ := hcalls id c hc hnode hphase
    refine ⟨hgone, _, e, t, hc', hnode, hphase', hslot, hconsumed _ he, fun res hres => ?_⟩
    exact ⟨(happlied res hres).1, (happlied res hres).2.cons _⟩

variable (index : Nat)

lemma takeSettledLocked : TablesOk app cluster past sys v (tb.takeSettledLocked index).2 where
  __ := hok
  settled := fun s hs => hok.settled s (mem_filter.mp hs).1

lemma sent : TablesOk app cluster past sys v { tb with delivering := none } where
  __ := hok
  delivering := nofun

lemma forgetPending : TablesOk app cluster past sys v (tb.forgetPending index) := by
  have hold : ∀ i t id, (tb.forgetPending index).pending i = some (t, id) →
      tb.pending i = some (t, id) := by
    intro i t id hp
    by_cases hi : i = index
    · subst hi
      simp [Tables.forgetPending] at hp
    · simpa [Tables.forgetPending, hi] using hp
  refine ⟨fun i t id hp => hok.pending i t id (hold i t id hp), hok.settled, hok.seen, ?_⟩
  intro id outcome hd
  obtain ⟨hgone, hrest⟩ := hok.delivering id outcome hd
  exact ⟨fun i t hp => hgone i t (hold i t id hp), hrest⟩

lemma register {index term : Nat} (hc : sys.calls[id]? = some c) (hnode : c.node = v)
    (hslot : c.slot = some (index, term)) (hreg : c.phase.registered = true)
    (hfree : ∀ outcome, tb.delivering ≠ some (id, outcome)) : TablesOk app cluster past sys v
      { tb with pending := update tb.pending index (some (term, id)) } where
  pending := fun i t j hp => by
    by_cases hi : i = index
    · subst hi
      simp only [update_self] at hp
      obtain ⟨rfl, rfl⟩ := hp
      exact ⟨c, hc, hnode, hslot, hreg⟩
    · simp only [update_of_ne hi] at hp
      exact hok.pending i t j hp
  __ := hok
  delivering := fun j outcome hd => by
    obtain ⟨hgone, hrest⟩ := hok.delivering j outcome hd
    refine ⟨fun i t hp => ?_, hrest⟩
    by_cases hi : i = index
    · subst hi
      simp only [update_self] at hp
      obtain ⟨-, rfl⟩ := hp
      exact hfree outcome hd
    · simp only [update_of_ne hi] at hp
      exact hgone i t hp

variable (he : .entry e ∈ (sys.world.nodes v).consumed)
  (happlied : AppliedIn app cluster past v e res)

include he happlied

lemma rememberSettledLocked :
    TablesOk app cluster past sys v (tb.rememberSettledLocked e.index e.term res) := by
  have hmem : ∀ s ∈ (tb.rememberSettledLocked e.index e.term res).settled,
      s = { index := e.index, term := e.term, res } ∨ s ∈ tb.settled := by
    intro s hs
    have hs : s ∈ ({ index := e.index, term := e.term, res } : SettledResult ρ) ::
        tb.settled.filter fun s => s.index ≠ e.index := by
      unfold Tables.rememberSettledLocked at hs
      simp only at hs
      split at hs
      · exact (mem_filter.mp hs).1
      · exact hs
    obtain hnew | hold := mem_cons.mp hs
    · exact .inl hnew
    · exact .inr (mem_filter.mp hold).1
  have hseen : (tb.rememberSettledLocked e.index e.term res).settledSeen =
      if tb.settledSeen < e.index then e.index else tb.settledSeen := by
    unfold Tables.rememberSettledLocked
    simp only
    split
    all_goals rfl
  have hpending : (tb.rememberSettledLocked e.index e.term res).pending = tb.pending ∧
      (tb.rememberSettledLocked e.index e.term res).delivering = tb.delivering := by
    unfold Tables.rememberSettledLocked
    simp only
    split
    all_goals exact ⟨rfl, rfl⟩
  refine ⟨?_, fun s hs => ?_, ?_, ?_⟩
  · rw [hpending.1]
    exact hok.pending
  · obtain rfl | hold := hmem s hs
    · exact ⟨e, rfl, rfl, he, happlied⟩
    · exact hok.settled s hold
  · rw [hseen]
    split
    · exact .inr ⟨e, he, rfl⟩
    · exact hok.seen
  · rw [hpending.1, hpending.2]
    exact hok.delivering

lemma handleEntryMsg : TablesOk app cluster past sys v (tb.handleEntryMsg e res) := by
  unfold Tables.handleEntryMsg
  split
  · exact hok
  split
  · next term id hp =>
    have hforget := hok.forgetPending e.index
    obtain ⟨c, hc, hnode, hslot, hreg⟩ := hok.pending e.index term id hp
    refine ⟨hforget.pending, hforget.settled, hforget.seen, fun j outcome hd => ?_⟩
    cases hd
    refine ⟨fun i t hp' => ?_, c, e, term, hc, hnode, Phase.registered_ne hreg, hslot, he,
      fun r hr => ?_⟩
    · -- a call is registered under its own index only
      obtain ⟨c', hc', -, hslot', -⟩ := hforget.pending i t id hp'
      cases hc'.symm.trans hc
      cases hslot'.symm.trans hslot
      simp [Tables.forgetPending] at hp'
    split at hr
    · cases hr
    next hterm =>
    cases hr
    exact ⟨(Decidable.not_not.mp hterm).symm, happlied⟩
  · exact hok.rememberSettledLocked he happlied

end

lemma update {tb' : Tables ρ} (htables : sys'.tables = update sys.tables u tb')
    (hself : TablesOk app cluster past sys' u tb')
    (hother : v ≠ u → TablesOk app cluster past sys' v (sys.tables v)) :
    TablesOk app cluster past sys' v (sys'.tables v) := by
  rw [htables]
  by_cases hvu : v = u
  · subst hvu
    rw [update_self]
    exact hself
  · rw [update_of_ne hvu]
    exact hother hvu

lemma moved (hok : ∀ v, TablesOk app cluster past sys v (sys.tables v)) {tb' : Tables ρ}
    (hc : sys.calls[id]? = some c) (hphase : phase ≠ .proposed)
    (hself : TablesOk app cluster past sys u tb')
    (hreg : c.phase.registered = true → phase.registered = true ∨ c.node = u ∧ ∀ i t, tb'.pending i
      ≠ some (t, id)) (v : NodeId) :
    TablesOk app cluster ((sys.setTables u tb').setPhase id c phase :: past)
      ((sys.setTables u tb').setPhase id c phase) v
      (((sys.setTables u tb').setPhase id c phase).tables v) := by
  refine .update rfl (hself.frame (fun _ hmsg => hmsg) (.setPhase hc rfl hphase fun hnode hfrom => ?_))
    fun hvu => (hok v).frame (fun _ hmsg => hmsg) (.setPhase hc rfl hphase fun hnode hfrom => ?_)
  · obtain hreg | ⟨-, hgone⟩ := hreg hfrom
    · exact .inl hreg
    · exact .inr hgone
  · obtain hreg | ⟨hu, -⟩ := hreg hfrom
    · exact .inl hreg
    · exact absurd (hnode.symm.trans hu) hvu

end TablesOk

lemma TablesOk.step (hpath : Path (step app cluster) Ok (.init app cluster) past sys)
    (hok : ∀ v, TablesOk app cluster past sys v (sys.tables v))
    (hstep : sys.step app cluster (u, act) = some sys') (v : NodeId) :
    TablesOk app cluster (sys' :: past) sys' v (sys'.tables v) := by
  obtain ⟨wpast, hworld, -⟩ := path_world hpath
  have hnet := (IndexInv.reachable hworld.reach).calls
  have hsys := (step_inv hstep).2
  have hconsumed (v : NodeId) (hlives : (∀ during, act ≠ .crash during) ∨ v ≠ u) :
      ∀ msg ∈ (sys.world.nodes v).consumed, msg ∈ (sys'.world.nodes v).consumed := by
    intro msg hmsg
    obtain ⟨hvu, during, hcrash⟩ | ⟨new, hgrown, -⟩ := hsys.consumed hnet v
    · obtain hlives | hlives := hlives
      · exact absurd hcrash (hlives during)
      · exact absurd hvu hlives
    · rw [hgrown]
      exact mem_append_left _ hmsg
  cases hsys with
  | consensus | snapshot =>
    exact (hok v).frame (hconsumed v (.inl fun _ h => by cases h)) (.of_calls fun _ _ hc => hc)
  | @entry e rest world hidle hch hworld =>
    have hframe (v : NodeId) := (hok v).frame (hconsumed v (.inl fun _ h => by cases h))
      (.of_calls fun _ _ hc => hc)
    have he : ApplyMsg.entry e ∈ (world.nodes u).consumed := by
      rw [consumed_step hworld hch]
      exact mem_append_right _ mem_cons_self
    obtain ⟨older, rfl⟩ := hpath.eq_cons
    exact .update rfl ((hframe u).handleEntryMsg he
      ⟨sys, _, _, ⟨[], older, rfl⟩, hstep, hch, rfl⟩) fun _ => hframe v
  | crash hworld =>
    exact .update rfl .empty fun hvu => (hok v).frame (hconsumed v (.inr hvu)) (.lose hvu rfl)
  | proposed hcause hdata hleader hworld =>
    refine (hok v).frame (hconsumed v (.inl fun during h => ?_)) (.of_calls fun id c hc => ?_)
    · subst h
      obtain ⟨h, -⟩ | ⟨id, c, leader, h, -⟩ := hcause
      all_goals cases h
    · exact List.getElem?_append_left (List.getElem?_eq_some_iff.mp hc).1 ▸ hc
  | refused hcause hphase =>
    refine (hok v).frame (hconsumed v (.inl fun during h => ?_)) (.of_calls fun id c hc => ?_)
    · subst h
      obtain ⟨h, -⟩ | ⟨id, h, -⟩ := hcause
      all_goals cases h
    · exact List.getElem?_append_left (List.getElem?_eq_some_iff.mp hc).1 ▸ hc
  | @found id index term c s hc hphase hslot hnode hs =>
    refine .moved hok hc (fun h => by cases h) ((hok u).takeSettledLocked index) (fun hreg => ?_) v
    rw [hphase] at hreg
    cases hreg
  | @registered id index term c hc hphase hslot hnode hs =>
    have hframe (v : NodeId) := (hok v).frame (hconsumed v (.inl fun _ h => by cases h))
      (.setPhase hc rfl (fun h => by cases h) fun _ hreg => by
        rw [hphase] at hreg
        cases hreg)
    refine .update rfl ((hframe u).register (setPhase_self hc) hnode hslot rfl ?_)
      fun _ => hframe v
    intro outcome hd
    obtain ⟨-, c', e, t, hc', -, hphase', -⟩ := (hok u).delivering _ _ hd
    cases hc'.symm.trans hc
    exact hphase' hphase
  | delivered hd hc hphase =>
    refine .moved hok hc (fun h => by cases h) (hok u).sent (fun _ => .inr ?_) v
    obtain ⟨hgone, c', e, t, hc', hnode, -⟩ := (hok u).delivering _ _ hd
    cases hc'.symm.trans hc
    exact ⟨hnode, hgone⟩
  | dropped hd hc hphase =>
    exact .update rfl ((hok u).sent.frame (fun _ hmsg => hmsg) (.of_calls fun _ _ hc => hc))
      fun _ => (hok v).frame (fun _ hmsg => hmsg) (.of_calls fun _ _ hc => hc)
  | received hc hphase hnode | failed hc hphase | answered _ _ horigin hc hphase =>
    refine (hok v).frame (fun _ hmsg => hmsg) (.setPhase hc rfl (fun h => by cases h) ?_)
    intro _ hreg
    rw [hphase] at hreg
    cases hreg
  | left hc hphase hslot hnode hpoll =>
    exact (hok v).frame (fun _ hmsg => hmsg)
      (.setPhase hc rfl (fun h => by cases h) fun _ _ => .inl rfl)
  | @forgot id index term why c hc hphase hslot hnode =>
    refine .moved hok hc (fun h => by cases h) ((hok u).forgetPending index)
      (fun _ => .inr ⟨hnode, fun i t hp => ?_⟩) v
    obtain ⟨c', hc', -, hslot', -⟩ := ((hok u).forgetPending index).pending i t id hp
    cases hc'.symm.trans hc
    cases hslot'.symm.trans hslot
    simp [Tables.forgetPending] at hp

/-- What holds of the calls: an appended command is in its node's log; a forwarded one waits
for a call that serves it; and a result came from applying an entry at the call's place, on
the call's node or, for a forwarded one, on the node that served it. -/
structure CallsInv (app : Applier σ ρ) (cluster : Cluster) (past : List (System σ ρ))
    (sys : System σ ρ) : Prop where
  held : ∀ (id : Nat) (c : Call ρ) (e : Entry), sys.calls[id]? = some c → c.entry = some e →
    c.node ∈ cluster.members ∧ e.data ≠ [] ∧ HeldIn (past.map System.world) c.node e
  forwarding : ∀ (id : Nat) (c : Call ρ) (leader : NodeId), sys.calls[id]? = some c →
    c.phase = .forwarding leader → c.slot = none
  slotless : ∀ (id : Nat) (c : Call ρ), sys.calls[id]? = some c → c.slot = none →
    c.over = true ∨ ∃ leader, c.phase = .forwarding leader
  refused : ∀ (id : Nat) (c : Call ρ), sys.calls[id]? = some c → c.origin ≠ none → c.slot = none →
    c.phase = .returned .notLeader
  serves : ∀ (id : Nat) (c : Call ρ) (id₀ : Nat), sys.calls[id]? = some c → c.origin = some id₀ →
    c.slot ≠ none → ∃ c₀, sys.calls[id₀]? = some c₀ ∧ c₀.data = c.data
  results : ∀ (id : Nat) (c : Call ρ) (i t : Nat) (res : ρ), sys.calls[id]? = some c →
    c.slot = some (i, t) →
    c.phase = .waiting (some (.applied res)) ∨ c.phase = .returned (.applied res) →
    ∃ e, e.index = i ∧ e.term = t ∧ AppliedIn app cluster past c.node e res
  served : ∀ (id : Nat) (c : Call ρ) (res : ρ), sys.calls[id]? = some c → c.slot = none →
    c.phase = .returned (.applied res) → ∃ (id' : Nat) (c' : Call ρ), sys.calls[id']? = some c' ∧
      c'.origin = some id ∧ c'.data = c.data ∧ c'.slot ≠ none ∧ c'.phase = .returned (.applied res)

namespace CallsInv

section

variable (hinv : CallsInv app cluster past sys)

include hinv

lemma held_step (hu : u ∈ cluster.members) (hstep : SystemStep app cluster sys u act sys')
    (hc' : sys'.calls[id]? = some c') (he : c'.entry = some e) :
    c'.node ∈ cluster.members ∧ e.data ≠ [] ∧
      HeldIn ((sys' :: past).map world) c'.node e := by
  obtain ⟨c, phase, hc, -, rfl⟩ | ⟨-, ⟨data, origin, -, -, hdata, -, hworld, rfl⟩ |
    ⟨data, origin, phase, -, rfl⟩⟩ := (hstep.call_change hc').kept
  · obtain ⟨hmember, hdata, hheld⟩ := hinv.held id c e hc he
    exact ⟨hmember, hdata, hheld.cons _⟩
  · cases he
    exact ⟨hu, hdata, heldIn_propose hworld⟩
  · cases he

lemma results_step (hok : ∀ v, TablesOk app cluster past sys v (sys.tables v))
    (hstep : SystemStep app cluster sys u act sys') {i t : Nat} (hc' : sys'.calls[id]? = some c')
    (hslot : c'.slot = some (i, t))
    (hphase : c'.phase = .waiting (some (.applied res)) ∨ c'.phase = .returned (.applied res)) :
    ∃ e, e.index = i ∧ e.term = t ∧ AppliedIn app cluster (sys' :: past) c'.node e res := by
  have hcons {v : NodeId}
      (hold : ∃ e, e.index = i ∧ e.term = t ∧ AppliedIn app cluster past v e res) :
      ∃ e, e.index = i ∧ e.term = t ∧ AppliedIn app cluster (sys' :: past) v e res := by
    obtain ⟨e, hindex, hterm, happlied⟩ := hold
    exact ⟨e, hindex, hterm, happlied.cons _⟩
  have hchange := hstep.call_change hc'
  cases hchange with
  | same hc => exact hcons (hinv.results id c' i t res hc hslot hphase)
  | found hc hfrom hslot' hnode hs =>
    obtain h | h := hphase
    · cases h
    cases hslot'.symm.trans hslot
    subst hnode
    split at h
    · cases h
    next hterm =>
    cases h
    obtain ⟨hmem, rfl⟩ := mem_of_settledAt hs
    obtain ⟨e, hindex, hterm', -, happlied⟩ := (hok _).settled _ hmem
    exact ⟨e, hindex, hterm'.trans (Decidable.not_not.mp hterm), happlied.cons _⟩
  | delivered hc hfrom hd =>
    obtain h | h := hphase
    · cases h
      obtain ⟨-, c, e, term, hc₁, hnode, -, hslot₁, -, happlied⟩ := (hok u).delivering _ _ hd
      cases hc₁.symm.trans hc
      subst hnode
      cases hslot₁.symm.trans hslot
      obtain ⟨hterm, happlied⟩ := happlied res rfl
      exact ⟨e, rfl, hterm, happlied.cons _⟩
    · cases h
  | @received outcome c hc hfrom =>
    obtain h | h := hphase
    · cases h
    · cases h
      exact hcons (hinv.results id c i t res hc hslot (.inl hfrom))
  | @forgot why c hc hfrom =>
    obtain h | h := hphase
    · cases h
    · cases why with
      | _ => cases h
  | answered hc hfrom =>
    have hnone := hinv.forwarding id _ _ hc hfrom
    cases hnone.symm.trans hslot
  | refused hid hfrom => cases hslot
  | _ =>
    obtain h | h := hphase
    all_goals cases h

end

section

variable (hinv : CallsInv app cluster past sys) (hstep : SystemStep app cluster sys u act sys')
  (hc' : sys'.calls[id]? = some c')

include hinv hstep hc'

lemma served_step (hslot : c'.slot = none) (hphase : c'.phase = .returned (.applied res)) :
    ∃ (id₁ : Nat) (c₁ : Call ρ), sys'.calls[id₁]? = some c₁ ∧ c₁.origin = some id ∧ c₁.data = c'.data ∧
      c₁.slot ≠ none ∧ c₁.phase = .returned (.applied res) := by
  have hstays {id₁ : Nat} {c₁ : Call ρ} (hc₁ : sys.calls[id₁]? = some c₁)
      (hphase₁ : c₁.phase = .returned (.applied res)) : sys'.calls[id₁]? = some c₁ := by
    obtain ⟨phase, hc₂, hover⟩ := hstep.call_kept hc₁
    rw [hc₂, hover (by rw [Call.over, hphase₁])]
  have hchange := hstep.call_change hc'
  cases hchange with
  | same hc =>
    obtain ⟨id₁, c₁, hc₁, horigin, hdata, hslot₁, hphase₁⟩ := hinv.served id c' res hc hslot hphase
    exact ⟨id₁, c₁, hstays hc₁ hphase₁, horigin, hdata, hslot₁, hphase₁⟩
  | found hc hfrom hslot' =>
    cases hslot'.symm.trans hslot
  | @answered id₁ outcome leader c c₁ hc hfrom hc₁ hphase₁ horigin =>
    cases outcome with
    | applied res₁ =>
      cases hphase
      have hslot₁ : c₁.slot ≠ none := by
        intro hnone
        have hrefused := hinv.refused id₁ c₁ hc₁ (by rw [horigin]; exact Option.some_ne_none _) hnone
        cases hphase₁.symm.trans hrefused
      obtain ⟨c₂, hc₂, hdata⟩ := hinv.serves id₁ c₁ id hc₁ horigin hslot₁
      cases hc₂.symm.trans hc
      exact ⟨id₁, c₁, hstays hc₁ hphase₁, horigin, hdata.symm, hslot₁, hphase₁⟩
    | _ => cases hphase
  | received hc hfrom =>
    obtain hover | ⟨leader, hforward⟩ := hinv.slotless id _ hc hslot
    · rw [Call.over, hfrom] at hover
      cases hover
    · cases hfrom.symm.trans hforward
  | @forgot why c hc hfrom =>
    cases why with
    | _ => cases hphase
  | refused hid hfrom =>
    obtain rfl | ⟨-, leader, rfl⟩ := hfrom
    all_goals cases hphase
  | _ => cases hphase

lemma forwarding_step {leader : NodeId} (hphase : c'.phase = .forwarding leader) :
    c'.slot = none := by
  have hchange := hstep.call_change hc'
  cases hchange with
  | same hc => exact hinv.forwarding id c' leader hc hphase
  | refused hid hfrom => rfl
  | _ => cases hphase

lemma slotless_step (hslot : c'.slot = none) :
    c'.over = true ∨ ∃ leader, c'.phase = .forwarding leader := by
  have hstuck {c : Call ρ} (hc : sys.calls[id]? = some c) (hslot : c.slot = none)
      (hover : c.over = false) (hforward : ∀ leader, c.phase ≠ .forwarding leader) : False := by
    obtain h | ⟨leader, h⟩ := hinv.slotless id c hc hslot
    · rw [hover] at h
      cases h
    · exact hforward leader h
  have hchange := hstep.call_change hc'
  cases hchange with
  | same hc => exact hinv.slotless id c' hc hslot
  | proposed hid hcause => cases hslot
  | refused hid hfrom =>
    obtain rfl | ⟨-, leader, rfl⟩ := hfrom
    · exact .inl rfl
    · exact .inr ⟨leader, rfl⟩
  | registered hc hfrom hslot' => cases hslot'.symm.trans hslot
  | @delivered outcome c hc hfrom hd =>
    refine (hstuck hc hslot (by rw [Call.over, hfrom]) fun leader h => ?_).elim
    cases hfrom.symm.trans h
  | left hact hc hfrom hslot' => cases hslot'.symm.trans hslot
  | _ => exact .inl rfl

lemma refused_step (horigin : c'.origin ≠ none) (hslot : c'.slot = none) :
    c'.phase = .returned .notLeader := by
  obtain ⟨c, phase, hc, hover, rfl⟩ | ⟨-, ⟨data, origin, -, -, -, -, -, rfl⟩ |
    ⟨data, origin, phase, hphase, rfl⟩⟩ := (hstep.call_change hc').kept
  · have hphase := hinv.refused id c hc horigin hslot
    exact (hover (by rw [Call.over, hphase])).trans hphase
  · cases hslot
  obtain hphase | ⟨hnone, -⟩ := hphase
  · exact hphase
  · exact absurd hnone horigin

lemma serves_step {id₀ : Nat} (horigin : c'.origin = some id₀) (hslot : c'.slot ≠ none) :
    ∃ c₀, sys'.calls[id₀]? = some c₀ ∧ c₀.data = c'.data := by
  obtain ⟨c₀, hc₀, hdata⟩ : ∃ c₀, sys.calls[id₀]? = some c₀ ∧ c₀.data = c'.data := by
    obtain ⟨c, phase, hc, -, rfl⟩ | ⟨-, ⟨data, origin, -, hcause, -, -, -, rfl⟩ |
      ⟨data, origin, phase, -, rfl⟩⟩ := (hstep.call_change hc').kept
    · exact hinv.serves id c id₀ hc horigin hslot
    · obtain hnone | ⟨id₁, c₁, hid₁, hc₁, hdata⟩ := hcause
      · cases hnone.symm.trans horigin
      · cases hid₁.symm.trans horigin
        exact ⟨c₁, hc₁, hdata⟩
    · exact absurd rfl hslot
  obtain ⟨phase, hc₁, -⟩ := hstep.call_kept hc₀
  exact ⟨_, hc₁, hdata⟩

end

lemma reachable (hpath : Path (step app cluster) Ok (.init app cluster) past sys) :
    CallsInv app cluster past sys ∧ ∀ v, TablesOk app cluster past sys v (sys.tables v) := by
  refine hpath.invariant (fun past sys => CallsInv app cluster past sys ∧
    ∀ v, TablesOk app cluster past sys v (sys.tables v)) ?_ ?_
  · refine ⟨⟨?_, ?_, ?_, ?_, ?_, ?_, ?_⟩, fun v => .empty⟩
    · exact nofun
    · exact nofun
    · exact nofun
    · exact nofun
    · exact nofun
    · exact nofun
    · exact nofun
  · rintro past sys sys' ⟨u, act⟩ hpath ⟨hinv, hok⟩ - hstep
    obtain ⟨hu, hsys⟩ := step_inv hstep
    exact ⟨{
      held := fun id c e hc he => hinv.held_step hu hsys hc he
      forwarding := fun id c leader hc hphase => hinv.forwarding_step hsys hc hphase
      slotless := fun id c hc hslot => hinv.slotless_step hsys hc hslot
      refused := fun id c hc horigin hslot => hinv.refused_step hsys hc horigin hslot
      serves := fun id c id₀ hc horigin hslot => hinv.serves_step hsys hc horigin hslot
      results := fun id c i t res hc hslot hphase => hinv.results_step hok hsys hc hslot hphase
      served := fun id c res hc hslot hphase => hinv.served_step hsys hc hslot hphase },
      TablesOk.step hpath hok hstep⟩

end CallsInv

variable (hpath : Path (step app cluster) Ok (.init app cluster) past sys)

include hpath

lemma applied_entry {e' : Entry} (hc : sys.calls[id]? = some c) (he : c.entry = some e)
    (happlied : AppliedIn app cluster past c.node e' res) (hindex : e'.index = e.index)
    (hterm : e'.term = e.term) : e' = e := by
  obtain ⟨wpast, hworld, hmem⟩ := path_world hpath
  obtain ⟨hmember, -, hheld⟩ := (CallsInv.reachable hpath).1.held id c e hc he
  have hheld : HeldIn wpast c.node e := hheld.mono fun w hw => by
    obtain ⟨s, hs, rfl⟩ := mem_map.mp hw
    exact hmem s hs
  obtain ⟨s, hs, hentry⟩ := happlied.mem_entries
  have hheld' := entries_held hworld hmember s.world (hmem s hs) e' hentry
  exact hheld'.unique hworld hmember hmember hheld hindex hterm

/-- A result is that of the call's own entry, or of the entry of the call that served it. -/
lemma result_own (hc : sys.calls[id]? = some c) (hphase : c.phase = .returned (.applied res)) :
    ∃ (id' : Nat) (c' : Call ρ) (e : Entry), sys.calls[id']? = some c' ∧
      (id' = id ∨ c'.origin = some id) ∧ c'.entry = some e ∧ e.data = c.data ∧
      AppliedIn app cluster past c'.node e res := by
  have hinv := (CallsInv.reachable hpath).1
  have hown {id' : Nat} {c' : Call ρ} (hc' : sys.calls[id']? = some c') (hslot : c'.slot ≠ none)
      (hphase' : c'.phase = .returned (.applied res)) :
      ∃ e, c'.entry = some e ∧ e.data = c'.data ∧ AppliedIn app cluster past c'.node e res := by
    obtain ⟨⟨i, t⟩, hslot⟩ := Option.ne_none_iff_exists'.mp hslot
    have hentry : c'.entry = some { index := i, term := t, data := c'.data } := by
      rw [entry, hslot]
      rfl
    obtain ⟨e, rfl, rfl, happlied⟩ := hinv.results id' c' i t res hc' hslot (.inr hphase')
    have hsame := applied_entry hpath hc' hentry happlied rfl rfl
    rw [hsame] at happlied
    exact ⟨_, hentry, rfl, happlied⟩
  by_cases hslot : c.slot = none
  · obtain ⟨id', c', hc', horigin, hdata, hslot', hphase'⟩ := hinv.served id c res hc hslot hphase
    obtain ⟨e, hentry, hsame, happlied⟩ := hown hc' hslot' hphase'
    exact ⟨id', c', e, hc', .inr horigin, hentry, hsame.trans hdata, happlied⟩
  · obtain ⟨e, hentry, hsame, happlied⟩ := hown hc hslot hphase
    exact ⟨id, c, e, hc, .inl rfl, hentry, hsame, happlied⟩

end stratum.raft
