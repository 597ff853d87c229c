import Stratum.Raft.ProposeResult

open stratum.lib stratum.kvraft List Function

namespace stratum.raft

open Option raft.System Call Tables

variable {σ ρ : Type}

/-- The call has neither its result nor given up. -/
def Phase.awaits : Phase ρ → Bool
  | .proposed | .waiting _ => true
  | _ => false

namespace System

/-- No call of the node is under way at the index its next proposal gets. -/
def IndexFree (sys : System σ ρ) (u : NodeId) : Prop :=
  ∀ c ∈ sys.calls, c.node = u → c.over = false →
    c.slot.map Prod.fst ≠ some ((sys.world.nodes u).rf.log.lastLogIndex + 1)
  deriving Decidable

/-- The next entry is not so far ahead of a call that has yet to register that its result
could be trimmed. -/
def Remembers (sys : System σ ρ) (u : NodeId) : Prop :=
  ∀ c ∈ sys.calls, c.node = u → c.phase = .proposed →
    ∀ e ∈ (sys.world.nodes u).applyCh.head?.bind asEntry, ∀ slot ∈ c.slot,
      e.index < slot.1 + settledResultsLimit

instance [DecidableEq ρ] (sys : System σ ρ) (u : NodeId) : Decidable (sys.Remembers u) :=
  inferInstanceAs (Decidable (∀ c ∈ sys.calls, _))

/-- No result is in the call's channel or on its way there. -/
def NothingFor (sys : System σ ρ) (u : NodeId) (id : Nat) : Prop :=
  (∀ c ∈ sys.calls[id]?, c.phase = .waiting none) ∧ (sys.tables u).delivering.map Prod.fst ≠ some id

instance [DecidableEq ρ] (sys : System σ ρ) (u : NodeId) (id : Nat) :
    Decidable (sys.NothingFor u id) :=
  inferInstanceAs (Decidable (_ ∧ _))

end System

/-- The condition on one step: a node that proposes has no call under way at the index, an
entry it applies trims no result a caller has yet to pick up, and a caller whose time is up
leaves only if there is no result for it. -/
def WaitStep (sys : System σ ρ) : NodeId × ProposeAction σ → Prop
  | (u, .call _) => sys.IndexFree u
  | (u, .serve _) => sys.IndexFree u
  | (u, .consume) => sys.Remembers u
  | (u, .leave id why) => why ≠ .poll → sys.NothingFor u id
  | _ => True

instance [DecidableEq ρ] (sys : System σ ρ) :
    (act : NodeId × ProposeAction σ) → Decidable (WaitStep sys act)
  | (u, act) => by
    induction act using ProposeAction.casesOn <;> dsimp only [WaitStep] <;> infer_instance

/-- The result is there for a call whose entry was applied. -/
def Due (tb : Tables ρ) (id : Nat) (c : Call ρ) (e : Entry) : Prop :=
  match c.phase with
  | .proposed => ∃ s, tb.settledAt e.index = some s ∧ s.term = e.term
  | .waiting none => ∃ res, tb.delivering = some (id, .applied res)
  | .waiting (some outcome) => ∃ res, outcome = .applied res
  | _ => True

/-- A waiting call and its node's tables: before an entry was consumed at its index the call
is registered or about to be, and after its own entry was consumed the result is there. -/
structure Sync (tb : Tables ρ) (consumed : List (ApplyMsg σ)) (id : Nat) (c : Call ρ) : Prop where
  early : ∀ i t, c.slot = some (i, t) → c.phase.awaits = true →
    (∀ e, .entry e ∈ consumed → e.index ≠ i) →
    c.phase = .proposed ∨ c.phase = .waiting none ∧ tb.pending i = some (t, id)
  late : ∀ e, c.entry = some e → .entry e ∈ consumed → Due tb id c e

/-- No two calls of a node are under way at one index, and each waiting one is in step with
its node's tables. -/
structure WaitInv (sys : System σ ρ) : Prop where
  apart : ∀ (id id' : Nat) (c c' : Call ρ) (i t t' : Nat), sys.calls[id]? = some c →
    sys.calls[id']? = some c' → c.node = c'.node → c.over = false → c'.over = false →
    c.slot = some (i, t) → c'.slot = some (i, t') → id = id'
  sync : ∀ (id : Nat) (c : Call ρ), sys.calls[id]? = some c →
    Sync (sys.tables c.node) (sys.world.nodes c.node).consumed id c

variable {e : Entry} {c c' : Call ρ} {id : Nat} {Ok : System σ ρ → NodeId × ProposeAction σ → Prop}

namespace Tables

variable {tb : Tables ρ} {index term i : Nat} {res : ρ}

lemma find?_filter_index {l : List (SettledResult ρ)} {p : SettledResult ρ → Bool}
    (hp : ∀ s : SettledResult ρ, s.index = i → p s = true) :
    (l.filter p).find? (fun s => s.index = i) = l.find? fun s => s.index = i := by
  rw [find?_filter]
  congr 1
  funext s
  by_cases hs : s.index = i
  · simp [hp s hs]
  · simp [hs]

/-- A result is trimmed only when far below the last one. -/
lemma rememberSettledLocked_settledAt (hi : 0 < i) (hseen : tb.settledSeen ≤ index)
    (hnear : index < i + settledResultsLimit) :
    (tb.rememberSettledLocked index term res).settledAt i =
      if i = index then some { index, term, res } else tb.settledAt i := by
  have hfresh : (({ index, term, res } : SettledResult ρ) :: tb.settled.filter fun s =>
      s.index ≠ index).find? (fun s => s.index = i) =
        if i = index then some { index, term, res } else tb.settledAt i := by
    split
    · next heq => simp [heq]
    next hne =>
    rw [find?_cons_of_neg (by simpa using Ne.symm hne), find?_filter_index]
    · rfl
    · intro s hs
      simp [hs, hne]
  unfold rememberSettledLocked settledAt
  simp only
  split
  · rw [find?_filter_index, hfresh]
    · rfl
    intro s hs
    have hcutoff : (if tb.settledSeen < index then index else tb.settledSeen) = index := by
      split
      · rfl
      · omega
    simp only [decide_eq_true_eq]
    omega
  · exact hfresh

lemma rememberSettledLocked_pending :
    (tb.rememberSettledLocked index term res).pending = tb.pending := by
  unfold rememberSettledLocked
  simp only
  split
  all_goals rfl

lemma handleEntryMsg_pending (hi : i ≠ e.index) :
    (tb.handleEntryMsg e res).pending i = tb.pending i := by
  unfold handleEntryMsg
  split
  · rfl
  split
  · simp [forgetPending, hi]
  · rw [rememberSettledLocked_pending]

lemma handleEntryMsg_settledAt (hpos : 0 < i) (hi : i ≠ e.index)
    (hseen : tb.settledSeen ≤ e.index) (hnear : e.index < i + settledResultsLimit) :
    (tb.handleEntryMsg e res).settledAt i = tb.settledAt i := by
  unfold handleEntryMsg
  split
  · rfl
  split
  · rfl
  · rw [rememberSettledLocked_settledAt hpos hseen hnear, if_neg hi]

end Tables

namespace Sync

variable {tb tb' : Tables ρ} {consumed consumed' : List (ApplyMsg σ)} {id : Nat} {c : Call ρ}

lemma of_not_awaits (hphase : c.phase.awaits = false) : Sync tb consumed id c where
  early := fun i t _ hawaits => by
    rw [hphase] at hawaits
    cases hawaits
  late := fun e _ _ => by
    unfold Due
    split
    iterate 3
      next heq =>
        rw [heq] at hphase
        cases hphase
    trivial

lemma of_over (hover : c.over = true) : Sync tb consumed id c := by
  refine .of_not_awaits ?_
  unfold Call.over at hover
  split at hover
  · next hphase =>
    rw [hphase]
    rfl
  · cases hover

lemma of_slotless (hslot : c.slot = none) : Sync tb consumed id c where
  early := fun i t hsome => by cases hslot.symm.trans hsome
  late := fun e hentry => by
    rw [entry, hslot] at hentry
    cases hentry

lemma update {tables : NodeId → Tables ρ} {u : NodeId}
    (hsync : c.node ≠ u → Sync (tables c.node) consumed id c)
    (hself : c.node = u → Sync tb' consumed id c) :
    Sync (update tables u tb' c.node) consumed id c := by
  by_cases hnode : c.node = u
  · rw [hnode, update_self]
    exact hself hnode
  · rw [update_of_ne hnode]
    exact hsync hnode

lemma frame (hsync : Sync tb consumed id c)
    (hentries : ∀ e, .entry e ∈ consumed' ↔ .entry e ∈ consumed)
    (hpending : ∀ i t, c.slot = some (i, t) → c.phase.awaits = true → tb'.pending i = tb.pending i)
    (hsettled : ∀ i t, c.slot = some (i, t) → c.phase.awaits = true →
      tb'.settledAt i = tb.settledAt i)
    (hdelivering : c.phase = .waiting none → ∀ outcome, tb.delivering = some (id, outcome) →
      tb'.delivering = some (id, outcome)) : Sync tb' consumed' id c where
  early := fun i t hslot hawaits hnone => by
    obtain hphase | ⟨hphase, hp⟩ := hsync.early i t hslot hawaits fun e he =>
      hnone e ((hentries e).mpr he)
    · exact .inl hphase
    · rw [hpending i t hslot hawaits]
      exact .inr ⟨hphase, hp⟩
  late := fun e hentry he => by
    have hdue := hsync.late e hentry ((hentries e).mp he)
    obtain ⟨slot, hslot, rfl⟩ := map_eq_some_iff.mp hentry
    unfold Due at hdue ⊢
    split
    · next heq =>
      rw [heq] at hdue
      rw [hsettled slot.1 slot.2 hslot (by rw [heq]; rfl)]
      exact hdue
    · next heq =>
      rw [heq] at hdue
      obtain ⟨res, hd⟩ := hdue
      exact ⟨res, hdelivering heq _ hd⟩
    · next heq =>
      rw [heq] at hdue
      exact hdue
    · trivial

/-- The consumer hands an entry on: the call that waits for it gets the result, and the
others stay as they are. -/
lemma handleEntryMsg {f : Entry} {res : ρ} (hsync : Sync tb consumed id c)
    (hidle : tb.delivering = none) (hbelow : ∀ e, .entry e ∈ consumed → e.index < f.index)
    (hseen : tb.settledSeen ≤ f.index) (hdata : c.data ≠ [])
    (hpos : ∀ i t, c.slot = some (i, t) → 0 < i)
    (hnear : c.phase = .proposed → ∀ i t, c.slot = some (i, t) → f.index < i + settledResultsLimit)
    (hfree : c.phase = .proposed → ∀ t, c.slot = some (f.index, t) → tb.pending f.index = none) :
    Sync (tb.handleEntryMsg f res) (consumed ++ [ApplyMsg.entry f]) id c where
  early := fun i t hslot hawaits hnone => by
    have hi : i ≠ f.index := fun heq =>
      hnone f (mem_append_right _ mem_cons_self) heq.symm
    rw [handleEntryMsg_pending hi]
    exact hsync.early i t hslot hawaits fun e he => hnone e (mem_append_left _ he)
  late := fun e hentry he => by
    obtain ⟨⟨i, t⟩, hslot, rfl⟩ := map_eq_some_iff.mp hentry
    obtain he | he := mem_append.mp he
    · -- its entry was consumed before, below the one handed on now
      have hlt : i < f.index := hbelow _ he
      have hdue := hsync.late _ hentry he
      unfold Due at hdue ⊢
      split
      · next heq =>
        rw [heq] at hdue
        rw [handleEntryMsg_settledAt (hpos i t hslot) (ne_of_lt hlt) hseen (hnear heq i t hslot)]
        exact hdue
      · next heq =>
        rw [heq, hidle] at hdue
        obtain ⟨r, ⟨⟩⟩ := hdue
      · next heq =>
        rw [heq] at hdue
        exact hdue
      · trivial
    -- its entry is the one handed on, so nothing was consumed at its index before
    cases mem_singleton.mp he
    have hnone : ∀ e, ApplyMsg.entry e ∈ consumed → e.index ≠ i := fun e he =>
      ne_of_lt (hbelow e he)
    have hlength : ¬ c.data.length = 0 := fun hzero =>
      hdata (eq_nil_of_length_eq_zero hzero)
    unfold Due
    split
    · next heq =>
      refine ⟨{ index := i, term := t, res }, ?_, rfl⟩
      rw [Tables.handleEntryMsg, if_neg hlength, hfree heq t hslot]
      rw [Tables.rememberSettledLocked_settledAt (hpos i t hslot) hseen
        (Nat.lt_add_of_pos_right (by decide)), if_pos rfl]
    · next heq =>
      obtain hphase | ⟨-, hp⟩ := hsync.early i t hslot (by rw [heq]; rfl) hnone
      · cases heq.symm.trans hphase
      refine ⟨res, ?_⟩
      rw [Tables.handleEntryMsg, if_neg hlength]
      simp only [hp, ne_eq, not_true_eq_false, if_false]
    · next outcome heq =>
      obtain hphase | ⟨hphase, -⟩ := hsync.early i t hslot (by rw [heq]; rfl) hnone
      all_goals cases heq.symm.trans hphase
    · trivial

end Sync

variable [DecidableEq σ] {app : Applier σ ρ} {cluster : Cluster} {past : List (System σ ρ)}
  {sys sys' : System σ ρ} {u : NodeId} {act : ProposeAction σ}

lemma WaitInv.apart_step (hinv : WaitInv sys) (hwait : WaitStep sys (u, act))
    (hstep : SystemStep app cluster sys u act sys') {id' i t t' : Nat}
    (hc : sys'.calls[id]? = some c) (hc' : sys'.calls[id']? = some c') (hnode : c.node = c'.node)
    (hover : c.over = false) (hover' : c'.over = false) (hslot : c.slot = some (i, t))
    (hslot' : c'.slot = some (i, t')) : id = id' := by
  -- a call under way was so before
  have hold {d : Call ρ} {phase : Phase ρ} (hkept : d.over = true → phase = d.phase)
      (hover : ({ d with phase } : Call ρ).over = false) : d.over = false := by
    cases hd : d.over with
    | false => rfl
    | true =>
      rw [hkept hd] at hover
      exact hd.symm.trans hover
  -- the index of a new call was free
  have hfree {d : Call ρ} {j t : Nat} (hact : (∃ data, act = .call data) ∨ ∃ id, act = .serve id)
      (hd : sys.calls[j]? = some d) (hnode : d.node = u) (hover : d.over = false)
      (hslot : d.slot = some ((sys.world.nodes u).rf.log.lastLogIndex + 1, t)) : False := by
    have hindex : sys.IndexFree u := by
      obtain ⟨data, rfl⟩ | ⟨j, rfl⟩ := hact
      all_goals exact hwait
    refine hindex d (mem_of_getElem? hd) hnode hover ?_
    rw [hslot]
    rfl
  obtain ⟨d, phase, hd, hkept, rfl⟩ | ⟨hid, ⟨data, origin, hact, -, -, -, -, rfl⟩ |
    ⟨data, origin, phase, -, rfl⟩⟩ := (hstep.call_change hc).kept
  · obtain ⟨d', phase', hd', hkept', rfl⟩ | ⟨hid', ⟨data', origin', hact', -, -, -, -, rfl⟩ |
      ⟨data', origin', phase', -, rfl⟩⟩ := (hstep.call_change hc').kept
    · exact hinv.apart id id' d d' i t t' hd hd' hnode (hold hkept hover) (hold hkept' hover')
        hslot hslot'
    · cases hslot'
      exact (hfree hact' hd hnode (hold hkept hover) hslot).elim
    · cases hslot'
  · obtain ⟨d', phase', hd', hkept', rfl⟩ | ⟨hid', -⟩ := (hstep.call_change hc').kept
    · cases hslot
      exact (hfree hact hd' hnode.symm (hold hkept' hover') hslot').elim
    · rw [hid, hid']
  · cases hslot

omit [DecidableEq σ] in
/-- A waiting call is at another index than any other call of its node that is under way. -/
lemma WaitInv.ne_index (hinv : WaitInv sys) {id' i i' t t' : Nat} (hc : sys.calls[id]? = some c)
    (hc' : sys.calls[id']? = some c') (hne : id' ≠ id) (hnode : c'.node = c.node)
    (hover : c.over = false) (hawaits : c'.phase.awaits = true) (hslot : c.slot = some (i, t))
    (hslot' : c'.slot = some (i', t')) : i' ≠ i := by
  rintro rfl
  have hover' : c'.over = false := by
    unfold Call.over
    split
    · next hphase =>
      rw [hphase] at hawaits
      cases hawaits
    · rfl
  exact hne (hinv.apart id' id c' c i' t' t hc' hc hnode hover' hover hslot' hslot)

section

variable (hpath : Path (step app cluster) Ok (.init app cluster) past sys)

include hpath

/-- The next entry goes to the call that waits for it, if the condition holds. -/
lemma WaitInv.sync_entry (hinv : WaitInv sys) (hremembers : sys.Remembers u)
    (hu : u ∈ cluster.members) {f : Entry} {rest : List (ApplyMsg σ)}
    (hidle : (sys.tables u).delivering = none)
    (hch : (sys.world.nodes u).applyCh = .entry f :: rest) (res : ρ) (hc : sys.calls[id]? = some c)
    (hnode : c.node = u) :
    Sync ((sys.tables u).handleEntryMsg f res) ((sys.world.nodes u).consumed ++ [ApplyMsg.entry f]) id c := by
  obtain ⟨wpast, hworld, -⟩ := path_world hpath
  obtain ⟨hcalls, htables⟩ := CallsInv.reachable hpath
  have hbelow : ∀ e, .entry e ∈ (sys.world.nodes u).consumed → e.index < f.index := fun e he =>
    (Node.Ascending.reachable hworld.reach hu).consumed_lt he hch
  have hsync := hinv.sync id c hc
  rw [hnode] at hsync
  cases hslot : c.slot with
  | none => exact .of_slotless hslot
  | some slot =>
  obtain ⟨i, t⟩ := slot
  have hentry : c.entry = some { index := i, term := t, data := c.data } := by
    rw [entry, hslot]
    rfl
  obtain ⟨-, hdata, w, -, hlow, -⟩ := hcalls.held id c _ hc hentry
  refine hsync.handleEntryMsg hidle hbelow ?_ hdata ?_ ?_ ?_
  · obtain hzero | ⟨e, he, hindex⟩ := (htables u).seen
    · omega
    · have hlt := hbelow e he
      omega
  · intro i' t' hslot'
    cases hslot.symm.trans hslot'
    exact Nat.lt_of_le_of_lt (Nat.zero_le _) hlow
  · intro hphase i' t' hslot'
    refine hremembers c (mem_of_getElem? hc) hnode hphase f ?_ (i', t') hslot'
    rw [hch]
    rfl
  intro hphase t' hslot'
  -- a waiter at the index would be another call under way there
  by_contra hsome
  obtain ⟨⟨t₀, id₀⟩, hp⟩ := ne_none_iff_exists'.mp hsome
  obtain ⟨d, hd, hnode', hslot₀, hreg⟩ := (htables u).pending _ _ _ hp
  have hover : d.over = false := by
    unfold Call.over
    split
    · next heq =>
      rw [heq] at hreg
      cases hreg
    · rfl
  by_cases hid : id = id₀
  · subst hid
    cases hd.symm.trans hc
    rw [hphase] at hreg
    cases hreg
  · exact hinv.ne_index hd hc hid (hnode.trans hnode'.symm) hover (by rw [hphase]; rfl) hslot₀
      hslot' rfl

omit [DecidableEq σ] hpath in
/-- The tables of a node change where a call has no place in them. -/
lemma WaitInv.sync_tables (hinv : WaitInv sys) {tb : Tables ρ} (hc : sys.calls[id]? = some c)
    (hpending : ∀ i t, c.node = u → c.slot = some (i, t) → c.phase.awaits = true →
      tb.pending i = (sys.tables u).pending i)
    (hsettled : ∀ i t, c.node = u → c.slot = some (i, t) → c.phase.awaits = true →
      tb.settledAt i = (sys.tables u).settledAt i)
    (hdelivering : c.phase = .waiting none → ∀ outcome,
      (sys.tables u).delivering = some (id, outcome) → tb.delivering = some (id, outcome)) :
    Sync (update sys.tables u tb c.node) (sys.world.nodes c.node).consumed id c := by
  have hsync := hinv.sync id c hc
  refine .update (fun _ => hsync) fun hself => ?_
  rw [hself] at hsync ⊢
  exact hsync.frame (fun _ => Iff.rfl) (fun i t => hpending i t hself)
    (fun i t => hsettled i t hself) hdelivering

omit [DecidableEq σ] hpath in
lemma WaitInv.sync_registered (hinv : WaitInv sys) {index term : Nat} {tb : Tables ρ}
    (hc : sys.calls[id]? = some c) (hphase : c.phase = .proposed)
    (hslot : c.slot = some (index, term)) (hnode : c.node = u)
    (hs : (sys.tables u).settledAt index = none) (hpending : tb.pending index = some (term, id)) :
    Sync tb (sys.world.nodes c.node).consumed id { c with phase := .waiting none } := by
  refine ⟨fun i t hslot' _ _ => ?_, fun e hentry he => ?_⟩
  · cases hslot.symm.trans hslot'
    exact .inr ⟨rfl, hpending⟩
  -- an entry that was consumed before has left its result to be found
  have hdue := (hinv.sync id c hc).late e hentry he
  obtain ⟨slot, hslot', rfl⟩ := map_eq_some_iff.mp hentry
  cases hslot.symm.trans hslot'
  rw [Due, hphase, hnode] at hdue
  obtain ⟨s, hsome, -⟩ := hdue
  cases hs.symm.trans hsome

lemma WaitInv.sync_delivered (hinv : WaitInv sys) {outcome : Outcome ρ} {tb : Tables ρ}
    (hdeliver : (sys.tables u).delivering = some (id, outcome)) (hc : sys.calls[id]? = some c)
    (hphase : c.phase = .waiting none) :
    Sync tb (sys.world.nodes c.node).consumed id { c with phase := .waiting (some outcome) } := by
  obtain ⟨-, htables⟩ := CallsInv.reachable hpath
  obtain ⟨-, c₁, e₁, t₁, hc₁, hnode, -, hslot₁, he₁, -⟩ := (htables u).delivering _ _ hdeliver
  cases hc₁.symm.trans hc
  refine ⟨fun i t hslot _ hnone => ?_, fun e hentry he => ?_⟩
  · cases hslot₁.symm.trans hslot
    rw [hnode] at hnone
    exact absurd rfl (hnone e₁ he₁)
  have hdue := (hinv.sync id c hc).late e hentry he
  rw [Due, hphase, hnode] at hdue
  obtain ⟨res, hres⟩ := hdue
  cases hdeliver.symm.trans hres
  exact ⟨res, rfl⟩

/-- A step that meets its condition keeps every waiting call in step with the tables. -/
lemma WaitInv.sync_step (hinv : WaitInv sys) (hwait : WaitStep sys (u, act))
    (hu : u ∈ cluster.members) (hstep : SystemStep app cluster sys u act sys')
    (hc : sys'.calls[id]? = some c) :
    Sync (sys'.tables c.node) (sys'.world.nodes c.node).consumed id c := by
  obtain ⟨wpast, hworld, -⟩ := path_world hpath
  have hnet := (IndexInv.reachable hworld.reach).calls
  obtain ⟨hcalls, htables⟩ := CallsInv.reachable hpath
  have hsame := fun v => hstep.entries_same hnet (v := v)
  -- a call that did not move, with tables that did not change
  have hstays {d : Call ρ} (hd : sys.calls[id]? = some d)
      (hquiet : d.node ≠ u ∨ act.quiet = true ∨ act = .consume ∧
        ∀ entry rest, (sys.world.nodes u).applyCh ≠ .entry entry :: rest) :
      Sync (sys.tables d.node) (sys'.world.nodes d.node).consumed id d :=
    (hinv.sync id d hd).frame (hsame d.node hquiet) (fun _ _ _ _ => rfl) (fun _ _ _ _ => rfl)
      fun _ _ h => h
  cases hstep with
  | consensus hplain hworld =>
    exact hstays hc (.inr (.inl rfl))
  | entry hidle hch hworld =>
    refine .update (fun hne => hstays hc (.inl hne)) fun hnode => ?_
    rw [hnode]
    rw [consumed_step hworld hch]
    exact hinv.sync_entry hpath hwait hu hidle hch _ hc hnode
  | snapshot hch hworld =>
    exact hstays hc (.inr (.inr ⟨rfl, hch⟩))
  | crash hworld =>
    rw [getElem?_map] at hc
    obtain ⟨d, hd, rfl⟩ := map_eq_some_iff.mp hc
    by_cases hnode : d.node = u
    · exact .of_over (lose_over hnode)
    obtain hlose | ⟨-, hself, -⟩ := @lose_cases _ u d
    · rw [hlose]
      refine .update (fun _ => hstays hd (.inl hnode)) fun hself => absurd hself hnode
    · exact absurd hself hnode
  | proposed hcause hdata hleader hworld =>
    have hact : act.quiet = true := by
      obtain ⟨rfl, -⟩ | ⟨id₀, c₀, leader, rfl, -⟩ := hcause
      all_goals rfl
    obtain hd | ⟨-, rfl⟩ := getElem?_concat_cases hc
    · exact hstays hd (.inr (.inl hact))
    refine ⟨fun i t _ _ _ => .inl rfl, fun e hentry he => ?_⟩
    cases hentry
    rw [hsame u (.inr (.inl hact))] at he
    obtain ⟨wpast, hworld, -⟩ := path_world hpath
    have hheld := entries_held hworld hu sys.world hworld.mem _ (mem_entries_of_consumed he)
    exact absurd (hheld.le_lastLogIndex hworld hu hu hleader rfl) (Nat.not_succ_le_self _)
  | refused hcause hphase =>
    obtain hd | ⟨-, rfl⟩ := getElem?_concat_cases hc
    · exact hinv.sync id c hd
    · exact .of_slotless rfl
  | @found id₀ index term c₀ s hc₀ hphase hslot hnode hs =>
    obtain ⟨rfl, rfl⟩ | ⟨hne, hd⟩ := setPhase_cases hc₀ hc
    · exact .of_over rfl
    refine hinv.sync_tables hd (fun _ _ _ _ _ => rfl) (fun i t hself hslot' hawaits => ?_)
      fun _ _ h => h
    have hi := hinv.ne_index hc₀ hd hne (hself.trans hnode.symm) (by rw [Call.over, hphase])
      hawaits hslot hslot'
    refine find?_filter_index fun s hs => ?_
    rw [hs]
    exact decide_eq_true hi
  | @registered id₀ index term c₀ hc₀ hphase hslot hnode hs =>
    obtain ⟨rfl, rfl⟩ | ⟨hne, hd⟩ := setPhase_cases hc₀ hc
    · refine .update (absurd hnode) fun _ => ?_
      exact hinv.sync_registered (c := c₀) hc₀ hphase hslot hnode hs (update_self ..)
    · refine hinv.sync_tables hd (fun i t hself hslot' hawaits => ?_) (fun _ _ _ _ _ => rfl)
        fun _ _ h => h
      exact update_of_ne (hinv.ne_index hc₀ hd hne (hself.trans hnode.symm)
        (by rw [Call.over, hphase]) hawaits hslot hslot') _ _
  | @delivered id₀ outcome c₀ hdeliver hc₀ hphase =>
    obtain ⟨rfl, rfl⟩ | ⟨hne, hd⟩ := setPhase_cases hc₀ hc
    · exact hinv.sync_delivered hpath (c := c₀) hdeliver hc₀ hphase
    · refine hinv.sync_tables hd (fun _ _ _ _ _ => rfl) (fun _ _ _ _ _ => rfl)
        fun _ outcome' hother => ?_
      cases hdeliver.symm.trans hother
      exact absurd rfl hne
  | @dropped id₀ outcome c₀ hdeliver hc₀ hphase =>
    refine hinv.sync_tables hc (fun _ _ _ _ _ => rfl) (fun _ _ _ _ _ => rfl)
      fun hwaits outcome' hother => ?_
    cases hdeliver.symm.trans hother
    cases hc₀.symm.trans hc
    exact absurd hwaits hphase
  | received hc₀ hphase hnode | answered hc₁ hphase horigin hc₀ hphase₀ | failed hc₀ hphase =>
    obtain ⟨rfl, rfl⟩ | ⟨-, hd⟩ := setPhase_cases hc₀ hc
    · exact .of_over rfl
    · exact hinv.sync id c hd
  | left hc₀ hphase hslot hnode hpoll =>
    obtain ⟨rfl, rfl⟩ | ⟨-, hd⟩ := setPhase_cases hc₀ hc
    · exact .of_not_awaits rfl
    · exact hinv.sync id c hd
  | @forgot id₀ index term why c₀ hc₀ hphase hslot hnode =>
    obtain ⟨rfl, rfl⟩ | ⟨hne, hd⟩ := setPhase_cases hc₀ hc
    · exact .of_over rfl
    refine hinv.sync_tables hd (fun i t hself hslot' hawaits => ?_) (fun _ _ _ _ _ => rfl)
      fun _ _ h => h
    exact update_of_ne (hinv.ne_index hc₀ hd hne (hself.trans hnode.symm)
      (by rw [Call.over, hphase]) hawaits hslot hslot') _ _

end

lemma WaitInv.reachable (hpath : Path (step app cluster) WaitStep (.init app cluster) past sys) :
    WaitInv sys := by
  refine hpath.invariant (fun _ sys => WaitInv sys) ?_ ?_
  · refine ⟨fun id id' c c' i t t' hc => ?_, fun id c hc => ?_⟩
    all_goals cases hc
  rintro past sys sys' ⟨u, act⟩ hpath hinv hwait hstep
  obtain ⟨hu, hsys⟩ := step_inv hstep
  exact ⟨fun id id' c c' i t t' hc hc' hnode hover hover' hslot hslot' =>
      hinv.apart_step hwait hsys hc hc' hnode hover hover' hslot hslot',
    fun id c hc => hinv.sync_step hpath hwait hu hsys hc⟩

def System.Awaits (sys : System σ ρ) (id : Nat) : Prop :=
  ∃ c ∈ sys.calls[id]?, c.phase.awaits = true
  deriving Decidable

/-- The node consumed the entry, in a state of the run in which the call waited. -/
def AppliedWaiting (past : List (System σ ρ)) (id : Nat) (u : NodeId) (e : Entry) : Prop :=
  ∃ s ∈ past, s.Awaits id ∧ .entry e ∈ (s.world.nodes u).consumed

/-- The node led the term in every state of the run in which the call waited. -/
def LedWaiting (past : List (System σ ρ)) (id : Nat) (u : NodeId) (term : Nat) : Prop :=
  ∀ s ∈ past, s.Awaits id → (s.world.nodes u).rf.state = .leader ∧ (s.world.nodes u).rf.term = term

/-- The steps a call still has to take when its result is there. -/
def Call.remaining (c : Call ρ) (id : Nat) : List (NodeId × ProposeAction σ) :=
  match c.phase with
  | .proposed => [(c.node, .register id)]
  | .waiting none => [(c.node, .deliver), (c.node, .receive id)]
  | .waiting (some _) => [(c.node, .receive id)]
  | _ => []

lemma calls_length_le (hpath : Path (step app cluster) Ok (.init app cluster) past sys) :
    ∀ s ∈ past, s.calls.length ≤ sys.calls.length := by
  refine hpath.invariant (fun past sys => ∀ s ∈ past, s.calls.length ≤ sys.calls.length) ?_ ?_
  · intro s hs
    rw [mem_singleton.mp hs]
  rintro past sys sys' ⟨u, act⟩ - hle - hstep s hs
  obtain rfl | hs := mem_cons.mp hs
  · exact le_rfl
  · exact le_trans (hle s hs) (step_inv hstep).2.length_le

/-- A waiting call whose entry was consumed gets its result in the next step, goes on waiting
or dies with its process, unless its node stops leading the term. -/
lemma waiting_step (hpath : Path (step app cluster) WaitStep (.init app cluster) past sys)
    (hwait : WaitStep sys (u, act)) (hstep : SystemStep app cluster sys u act sys')
    (hc : sys.calls[id]? = some c) (hentry : c.entry = some e) (hawaits : c.phase.awaits = true)
    (he : .entry e ∈ (sys.world.nodes c.node).consumed)
    (hleads : (sys.world.nodes c.node).rf.state = .leader ∧ (sys.world.nodes c.node).rf.term =
      e.term) (hc' : sys'.calls[id]? = some c') :
    c'.phase = .returned .lost ∨ (∃ res, c'.phase = .returned (.applied res)) ∨
      c'.phase.awaits = true ∧ .entry e ∈ (sys'.world.nodes c.node).consumed := by
  obtain ⟨wpast, hworld, -⟩ := path_world hpath
  have hnet := (IndexInv.reachable hworld.reach).calls
  have hdue := ((WaitInv.reachable hpath).sync id c hc).late e hentry he
  obtain ⟨slot, hslot, rfl⟩ := map_eq_some_iff.mp hentry
  obtain ⟨hnode, during, rfl⟩ | ⟨new, hgrown, -⟩ := hstep.consumed hnet c.node
  · -- its process dies
    cases hstep with
    | crash hworld =>
      rw [getElem?_map, hc] at hc'
      cases hc'
      refine .inl ?_
      unfold lose
      split
      · next hphase =>
        rw [hphase] at hawaits
        cases hawaits
      · rw [if_pos hnode]
    | proposed hcause =>
      obtain ⟨h, -⟩ | ⟨id₀, c₀, leader, h, -⟩ := hcause
      all_goals cases h
    | refused hcause =>
      obtain ⟨h, -⟩ | ⟨id₀, h, -⟩ := hcause
      all_goals cases h
  have hstill : ApplyMsg.entry { index := slot.1, term := slot.2, data := c.data } ∈
      (sys'.world.nodes c.node).consumed := by
    rw [hgrown]
    exact mem_append_left _ he
  cases hstep.call_change hc' with
  | same hd =>
    cases hd.symm.trans hc
    exact .inr (.inr ⟨hawaits, hstill⟩)
  | proposed | refused =>
    have hlt := (List.getElem?_eq_some_iff.mp hc).1
    omega
  | lost hd hover hnode => exact .inl rfl
  | @found index term d s hd hphase hslot' hnode hs =>
    cases hd.symm.trans hc
    cases hslot'.symm.trans hslot
    rw [Due, hphase, hnode] at hdue
    obtain ⟨s', hsome, hterm⟩ := hdue
    obtain rfl : s' = s := some.inj (hsome.symm.trans hs)
    refine .inr (.inl ⟨s'.res, ?_⟩)
    simp only [hterm, ne_eq, not_true_eq_false, if_false]
  | registered | delivered => exact .inr (.inr ⟨rfl, hstill⟩)
  | received hd hphase =>
    cases hd.symm.trans hc
    rw [Due, hphase] at hdue
    obtain ⟨res, rfl⟩ := hdue
    exact .inr (.inl ⟨res, rfl⟩)
  | @left index term why resultCh d hact hd hphase hslot' hnode hpoll =>
    cases hd.symm.trans hc
    cases hslot'.symm.trans hslot
    subst hact
    exfalso
    by_cases hwhy : why = .poll
    · obtain hterm | hstate := hpoll hwhy
      · rw [← hnode] at hterm
        exact hterm hleads.2
      · rw [← hnode] at hstate
        exact hstate hleads.1
    obtain ⟨hempty, hnone⟩ := hwait hwhy
    have hphase' := hempty c hc
    rw [Due, hphase', hnode] at hdue
    obtain ⟨res, hd⟩ := hdue
    rw [hd] at hnone
    exact hnone rfl
  | forgot hd hphase | answered hd hphase | failed hd hphase =>
    cases hd.symm.trans hc
    rw [hphase] at hawaits
    cases hawaits

/-- From the moment a call's entry is consumed while it waits, the call waits on, has its
result or died with its process. -/
lemma waiting_run (hpath : Path (step app cluster) WaitStep (.init app cluster) past sys)
    (hc : sys.calls[id]? = some c) (hentry : c.entry = some e)
    (happlied : AppliedWaiting past id c.node e) (hled : LedWaiting past id c.node e.term) :
    c.phase = .returned .lost ∨ (∃ res, c.phase = .returned (.applied res)) ∨
      c.phase.awaits = true ∧ .entry e ∈ (sys.world.nodes c.node).consumed := by
  induction hpath generalizing c with
  | refl => cases hc
  | @tail past sys sys' act hpath hwait hstep ih =>
  have hsys := (step_inv hstep).2
  obtain ⟨s, hs, ⟨d, hd, hawaits⟩, he⟩ := happlied
  obtain rfl | hs := mem_cons.mp hs
  · cases hd.symm.trans hc
    exact .inr (.inr ⟨hawaits, he⟩)
  obtain ⟨c₀, phase, hc₀, hover, rfl⟩ | ⟨hid, -⟩ := (hsys.call_change hc).kept
  · have hled₀ : LedWaiting past id c₀.node e.term := fun s hs =>
      hled s (mem_cons_of_mem _ hs)
    have hentry₀ : c₀.entry = some e := hentry
    obtain hlost | ⟨res, hres⟩ | ⟨hawaits₀, he₀⟩ :=
      ih hc₀ hentry₀ ⟨s, hs, ⟨d, hd, hawaits⟩, he⟩ hled₀
    · exact .inl ((hover (by rw [Call.over, hlost])).trans hlost)
    · exact .inr (.inl ⟨res, (hover (by rw [Call.over, hres])).trans hres⟩)
    have hnext := waiting_step hpath hwait hsys hc₀ hentry₀ hawaits₀ he₀
      (hled₀ sys hpath.mem ⟨c₀, hc₀, hawaits₀⟩) hc
    exact hnext
  · have hle := calls_length_le hpath s hs
    have hlt := (List.getElem?_eq_some_iff.mp hd).1
    omega

lemma System.step_receive {id : Nat} {c : Call ρ} {outcome : Outcome ρ}
    (hmember : c.node ∈ cluster.members) (hc : sys.calls[id]? = some c)
    (hphase : c.phase = .waiting (some outcome)) : sys.step app cluster (c.node, .receive id) =
      some (sys.setPhase id c (.returned outcome)) := by
  simp [step, hmember, receive, hc, hphase]

/-- A result that is there is returned by the steps the call still has to take, and it is that
of the call's own entry. -/
lemma remaining_returns (hpath : Path (step app cluster) WaitStep (.init app cluster) past sys)
    {id : Nat} {c : Call ρ} {e : Entry} (hc : sys.calls[id]? = some c) (hentry : c.entry = some e)
    (hawaits : c.phase.awaits = true) (he : .entry e ∈ (sys.world.nodes c.node).consumed) :
    ∃ res, AppliedIn app cluster past c.node e res ∧
      ∃ sys' c', run (step app cluster) (fun _ _ => True) sys (c.remaining id) = some sys' ∧
        sys'.calls[id]? = some c' ∧ c'.phase = .returned (.applied res) := by
  obtain ⟨hcalls, htables⟩ := CallsInv.reachable hpath
  have hmember := (hcalls.held id c e hc hentry).1
  have hdue := ((WaitInv.reachable hpath).sync id c hc).late e hentry he
  obtain ⟨⟨i, t⟩, hslot, rfl⟩ := map_eq_some_iff.mp hentry
  have hown {f : Entry} {res : ρ} (happlied : AppliedIn app cluster past c.node f res)
      (hindex : f.index = i) (hterm : f.term = t) :
      AppliedIn app cluster past c.node { index := i, term := t, data := c.data } res := by
    have hsame := applied_entry hpath hc hentry happlied hindex hterm
    rw [hsame] at happlied
    exact happlied
  cases hphase : c.phase with
  | proposed =>
    rw [Due, hphase] at hdue
    obtain ⟨s, hs, hterm⟩ := hdue
    obtain ⟨hmem, hindex⟩ := mem_of_settledAt hs
    obtain ⟨f, hfindex, hfterm, -, happlied⟩ := (htables c.node).settled s hmem
    refine ⟨s.res, hown happlied (hfindex.trans hindex) (hfterm.trans hterm), ?_⟩
    have hstep : sys.step app cluster (c.node, .register id) =
        some ((sys.setTables c.node ((sys.tables c.node).takeSettledLocked i).2).setPhase id c
          (.returned (.applied s.res))) := by
      simp [step, hmember, register, hc, hphase, hslot, takeSettledLocked, hs, hterm]
    have hc' := @setPhase_self _ _ id c (.returned (.applied s.res))
      (sys.setTables c.node ((sys.tables c.node).takeSettledLocked i).2) hc
    refine ⟨_, _, ?_, hc', rfl⟩
    rw [remaining, hphase]
    simp only [run, if_true, hstep, bind_some]
  | waiting resultCh =>
    cases resultCh with
    | none =>
      rw [Due, hphase] at hdue
      obtain ⟨res, hd⟩ := hdue
      obtain ⟨-, c₁, f, t₁, hc₁, -, -, hslot₁, -, happlied⟩ := (htables c.node).delivering _ _ hd
      cases hc₁.symm.trans hc
      cases hslot₁.symm.trans hslot
      obtain ⟨hterm, happlied⟩ := happlied res rfl
      refine ⟨res, hown happlied rfl hterm, ?_⟩
      have hdeliver : sys.step app cluster (c.node, .deliver) =
          some ((sys.setTables c.node { sys.tables c.node with delivering := none }).setPhase id c
            (.waiting (some (.applied res)))) := by
        simp [step, hmember, deliver, hd, hc, hphase]
      have hc' := @setPhase_self _ _ id c (.waiting (some (.applied res)))
        (sys.setTables c.node { sys.tables c.node with delivering := none }) hc
      have hreceive := @step_receive _ _ _ app cluster _ id
        { c with phase := .waiting (some (.applied res)) } _ hmember hc' rfl
      refine ⟨_, _, ?_, setPhase_self hc', rfl⟩
      rw [remaining, hphase]
      simp only [run, if_true, hdeliver, hreceive, bind_some]
    | some outcome =>
      rw [Due, hphase] at hdue
      obtain ⟨res, rfl⟩ := hdue
      obtain ⟨f, hindex, hterm, happlied⟩ := hcalls.results id c i t res hc hslot (.inl hphase)
      refine ⟨res, hown happlied hindex hterm, ?_⟩
      refine ⟨_, _, ?_, setPhase_self hc, rfl⟩
      rw [remaining, hphase]
      simp only [run, if_true, step_receive hmember hc hphase, bind_some]
  | leaving | forwarding | returned =>
    rw [hphase] at hawaits
    cases hawaits

end stratum.raft
