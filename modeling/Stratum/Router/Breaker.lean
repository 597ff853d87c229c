import Mathlib.Data.Rat.Defs
import Stratum.Lib.Reach

namespace stratum.router

open stratum.lib List Option

inductive Code
  | ok | canceled | unknown | invalidArgument | deadlineExceeded | notFound | alreadyExists
  | permissionDenied | resourceExhausted | failedPrecondition | aborted | outOfRange
  | unimplemented | internal | unavailable | dataLoss | unauthenticated
deriving DecidableEq

def nodeLevelFailure : Code → Bool
  | .unavailable | .deadlineExceeded | .resourceExhausted => true
  | _ => false

inductive BreakerState
  | breakerClosed
  | breakerOpen
  | breakerHalfOpen
deriving DecidableEq

structure Outcome where
  time : Int
  success : Bool

/-- `breakerConfig`, with times in nanoseconds. -/
structure BreakerConfig where
  failureRatio : Rat
  minSamples : Int
  window : Int
  cooldown : Int
  halfOpenProbes : Int

def defaultBreakerConfig : BreakerConfig := ⟨1 / 2, 5, 10000000000, 5000000000, 2⟩

structure Breaker where
  state : BreakerState := .breakerClosed
  opened : Int := 0
  window : List Outcome := []
  probes : Int := 0
  externalProbe : Bool := false

namespace Breaker

variable (cfg : BreakerConfig) (b : Breaker) (now : Int)

def tripLocked : Breaker :=
  { b with state := .breakerOpen, opened := now, window := [], probes := 0 }

def pruneLocked : Breaker :=
  { b with window := b.window.dropWhile fun o => o.time < now - cfg.window }

def countsLocked : Nat × Nat := (b.window.countP fun o => !o.success, b.window.length)

def becomeHalfOpen : Breaker := { b with state := .breakerHalfOpen, probes := 0 }

/-- The end of `allow`: a half-open breaker admits what its probe budget has left. -/
def admitProbe : Breaker × Bool :=
  if cfg.halfOpenProbes ≤ b.probes then (b, false) else ({ b with probes := b.probes + 1 }, true)

def allow : Breaker × Bool :=
  match b.state with
  | .breakerClosed => (b, true)
  | .breakerOpen =>
    if b.externalProbe ∨ now - b.opened < cfg.cooldown then (b, false)
    else b.becomeHalfOpen.admitProbe cfg
  | .breakerHalfOpen => b.admitProbe cfg

def record (success : Bool) : Breaker :=
  if b.state = .breakerHalfOpen ∧ !success then b.tripLocked now
  else
    let b := pruneLocked cfg { b with window := b.window ++ [⟨now, success⟩] } now
    match b.state with
    | .breakerHalfOpen =>
      -- The probes counted here are admissions, not successes.
      if cfg.halfOpenProbes ≤ b.probes then { b with state := .breakerClosed, window := [] } else b
    | .breakerClosed =>
      let (failures, total) := b.countsLocked
      if cfg.minSamples ≤ total ∧ cfg.failureRatio ≤ (failures : Rat) / total then b.tripLocked now
      else b
    | .breakerOpen => b

def observe : Option Code → Breaker
  | none => b.record cfg now true
  | some err =>
    if nodeLevelFailure err then b.record cfg now false
    else if b.state = .breakerHalfOpen then b.record cfg now true
    else b

def release : Breaker :=
  if b.state = .breakerHalfOpen ∧ 0 < b.probes then { b with probes := b.probes - 1 } else b

/-- `observeFor`, where `gaveUp` says that the caller's context is over. -/
def observeFor (gaveUp : Bool) (err : Option Code) : Breaker :=
  if err.isSome ∧ gaveUp then b.release else b.observe cfg now err

def stateNow : Breaker :=
  if !b.externalProbe ∧ b.state = .breakerOpen ∧ cfg.cooldown ≤ now - b.opened then
    b.becomeHalfOpen
  else b

def probeResult (healthy : Bool) : Breaker :=
  if b.state ≠ .breakerOpen then b
  else if !healthy then { b with opened := now }
  else { b with state := .breakerClosed, window := [], probes := 0 }

end Breaker

inductive Verdict
  | answered
  | failed
  | noVerdict
deriving DecidableEq

def verdict (gaveUp : Bool) : Option Code → Verdict
  | none => .answered
  | some err =>
    if gaveUp then .noVerdict else if nodeLevelFailure err then .failed else .answered

namespace Breaker

variable {cfg : BreakerConfig} {b : Breaker} {now : Int} {gaveUp healthy : Bool} {err : Option Code}

/-- The probes of a half-open breaker; another one has none to account for. -/
def spent (b : Breaker) : Int := if b.state = .breakerHalfOpen then b.probes else 0

lemma allow_spent : (b.allow cfg now).1.spent ≤ b.spent + if (b.allow cfg now).2 then 1 else 0 := by
  unfold allow admitProbe becomeHalfOpen spent
  grind

lemma stateNow_spent : (b.stateNow cfg now).spent ≤ b.spent := by
  unfold stateNow becomeHalfOpen spent
  grind

lemma probeResult_spent : (b.probeResult now healthy).spent ≤ b.spent := by
  unfold probeResult spent
  grind

lemma spent_of_not_halfOpen (hstate : b.state ≠ .breakerHalfOpen) : b.spent = 0 := if_neg hstate

/-- Only a success leaves a half-open breaker half-open, with its budget not spent. -/
lemma record_halfOpen {success : Bool}
    (hafter : (b.record cfg now success).state = .breakerHalfOpen) :
    b.state = .breakerHalfOpen ∧ success = true ∧ b.probes < cfg.halfOpenProbes ∧
      (b.record cfg now success).probes = b.probes := by
  cases hstate : b.state with
  | breakerClosed =>
    simp only [record, pruneLocked, hstate, reduceCtorEq, false_and, if_false] at hafter
    split at hafter
    · cases hafter
    · cases hafter
  | breakerOpen =>
    simp only [record, pruneLocked, hstate, reduceCtorEq, false_and, if_false] at hafter
  | breakerHalfOpen =>
  cases success with
  | false =>
    simp only [record, hstate, Bool.not_false, and_self, if_true] at hafter
    cases hafter
  | true =>
    simp only [record, pruneLocked, hstate, Bool.not_true, Bool.false_eq_true, and_false,
      if_false] at hafter ⊢
    split at hafter
    · cases hafter
    · next hbudget =>
      rw [if_neg hbudget]
      exact ⟨trivial, trivial, Int.not_le.mp hbudget, rfl⟩

lemma record_spent {success : Bool} : (b.record cfg now success).spent ≤ 0 ∨
    (b.record cfg now success).spent ≤ b.spent := by
  by_cases hafter : (b.record cfg now success).state = .breakerHalfOpen
  · obtain ⟨hbefore, -, -, hprobes⟩ := record_halfOpen hafter
    refine .inr (Int.le_of_eq ?_)
    rw [spent, spent, if_pos hafter, if_pos hbefore, hprobes]
  · exact .inl (Int.le_of_eq (spent_of_not_halfOpen hafter))

lemma record_externalProbe {success : Bool} :
    (b.record cfg now success).externalProbe = b.externalProbe := by
  unfold record
  split
  · rfl
  dsimp only [pruneLocked]
  split
  all_goals try split
  all_goals rfl

lemma record_failed_spent : (b.record cfg now false).spent ≤ 0 := by
  refine Int.le_of_eq (spent_of_not_halfOpen fun hafter => ?_)
  exact Bool.false_ne_true (record_halfOpen hafter).2.1

lemma release_state : b.release.state = b.state := by
  unfold release
  split <;> rfl

lemma release_externalProbe : b.release.externalProbe = b.externalProbe := by
  unfold release
  split <;> rfl

/-- A half-open breaker takes a probe back that it had given out. -/
lemma release_probes (hstate : b.state = .breakerHalfOpen) :
    b.release.probes ≤ 0 ∨ b.release.probes = b.probes - 1 := by
  unfold release
  split
  · exact .inr rfl
  · next hnone => exact .inl (Int.not_lt.mp fun hpos => hnone ⟨hstate, hpos⟩)

lemma release_spent : b.release.spent ≤ 0 ∨ b.release.spent ≤ b.spent - 1 := by
  by_cases hstate : b.state = .breakerHalfOpen
  · rw [spent, spent, release_state, if_pos hstate, if_pos hstate]
    exact (release_probes hstate).imp_right Int.le_of_eq
  · rw [spent, release_state, if_neg hstate]
    exact .inl (Int.le_refl 0)

/-- What a call comes to: its verdict is recorded, or its probe is given back. -/
lemma observeFor_cases (cfg : BreakerConfig) (b : Breaker) (now : Int) (gaveUp : Bool)
    (err : Option Code) :
    (verdict gaveUp err = .answered ∧ b.observeFor cfg now gaveUp err = b.record cfg now true) ∨
    (verdict gaveUp err = .failed ∧ b.observeFor cfg now gaveUp err = b.record cfg now false) ∨
    (verdict gaveUp err = .noVerdict ∧ b.observeFor cfg now gaveUp err = b.release) ∨
    (b.state ≠ .breakerHalfOpen ∧ b.observeFor cfg now gaveUp err = b) := by
  cases err with
  | none => exact .inl ⟨rfl, rfl⟩
  | some code =>
  cases gaveUp with
  | true => exact .inr (.inr (.inl ⟨rfl, rfl⟩))
  | false =>
  by_cases hfailed : nodeLevelFailure code = true
  · exact .inr (.inl (by simp [observeFor, observe, verdict, hfailed]))
  by_cases hstate : b.state = .breakerHalfOpen
  · exact .inl (by simp [observeFor, observe, verdict, hfailed, hstate])
  · exact .inr (.inr (.inr (by simp [observeFor, observe, hfailed, hstate])))

/-- Only an answer leaves its probe spent. -/
lemma observeFor_spent : (b.observeFor cfg now gaveUp err).spent ≤ 0 ∨
    (b.observeFor cfg now gaveUp err).spent ≤
      b.spent - if verdict gaveUp err = .answered then 0 else 1 := by
  obtain ⟨hverdict, heq⟩ | ⟨-, heq⟩ | ⟨hverdict, heq⟩ | ⟨hstate, heq⟩ :=
    observeFor_cases cfg b now gaveUp err
  · rw [heq, hverdict, if_pos rfl, Int.sub_zero]
    exact record_spent
  · rw [heq]
    exact .inl record_failed_spent
  · rw [heq, hverdict, if_neg nofun]
    exact release_spent
  · rw [heq]
    exact .inl (Int.le_of_eq (spent_of_not_halfOpen hstate))

lemma observeFor_halfOpen (hafter : (b.observeFor cfg now gaveUp err).state = .breakerHalfOpen) :
    b.state = .breakerHalfOpen ∧ verdict gaveUp err ≠ .failed := by
  obtain ⟨hverdict, heq⟩ | ⟨-, heq⟩ | ⟨hverdict, heq⟩ | ⟨hstate, heq⟩ :=
    observeFor_cases cfg b now gaveUp err <;> rw [heq] at hafter
  · rw [hverdict]
    exact ⟨(record_halfOpen hafter).1, nofun⟩
  · exact absurd (record_halfOpen hafter).2.1 Bool.false_ne_true
  · rw [hverdict]
    exact ⟨release_state.symm.trans hafter, nofun⟩
  · exact absurd hafter hstate

/-- A half-open breaker is closed by an answer that finds its budget spent. -/
lemma record_closes {success : Bool} (hbefore : b.state = .breakerHalfOpen)
    (hafter : (b.record cfg now success).state = .breakerClosed) :
    success = true ∧ cfg.halfOpenProbes ≤ b.probes := by
  cases success with
  | false =>
    simp only [record, hbefore, Bool.not_false, and_self, if_true] at hafter
    cases hafter
  | true =>
    simp only [record, pruneLocked, hbefore, Bool.not_true, Bool.false_eq_true, and_false,
      if_false] at hafter
    split at hafter
    · next hbudget => exact ⟨rfl, hbudget⟩
    · cases hafter

lemma observeFor_closes (hbefore : b.state = .breakerHalfOpen)
    (hafter : (b.observeFor cfg now gaveUp err).state = .breakerClosed) :
    verdict gaveUp err = .answered ∧ cfg.halfOpenProbes ≤ b.probes := by
  obtain ⟨hverdict, heq⟩ | ⟨-, heq⟩ | ⟨-, heq⟩ | ⟨hstate, -⟩ :=
    observeFor_cases cfg b now gaveUp err
  · rw [heq] at hafter
    exact ⟨hverdict, (record_closes hbefore hafter).2⟩
  · rw [heq] at hafter
    exact absurd (record_closes hbefore hafter).1 Bool.false_ne_true
  · rw [heq, release_state, hbefore] at hafter
    cases hafter
  · exact absurd hbefore hstate

end Breaker

/-- A breaker and the calls under way. The counts are not in the source: the calls admitted since
it last became half-open (`fresh`) and before (`stale`) that are still outstanding, and how many
of the former were answered or failed. -/
structure World where
  breaker : Breaker
  fresh : Nat := 0
  stale : Nat := 0
  answered : Nat := 0
  failed : Nat := 0

inductive Action
  | allow (now : Int)
  | observeFor (fresh gaveUp : Bool) (err : Option Code) (now : Int)
  | stateNow (now : Int)
  | probeResult (now : Int) (healthy : Bool)

namespace World

/-- The breaker after a call that may admit: the counts begin anew when it becomes half-open. -/
def put (w : World) (b : Breaker) (admitted : Bool) : World :=
  if w.breaker.state ≠ .breakerHalfOpen ∧ b.state = .breakerHalfOpen then
    { breaker := b, stale := w.stale + w.fresh, fresh := admitted.toNat }
  else { w with breaker := b, fresh := w.fresh + admitted.toNat }

def step (cfg : BreakerConfig) (w : World) : Action → Option World
  | .allow now => some (w.put (w.breaker.allow cfg now).1 (w.breaker.allow cfg now).2)
  | .stateNow now => some (w.put (w.breaker.stateNow cfg now) false)
  | .probeResult now healthy => some (w.put (w.breaker.probeResult now healthy) false)
  | .observeFor true gaveUp err now =>
    if 0 < w.fresh then
      some { w with
        breaker := w.breaker.observeFor cfg now gaveUp err
        fresh := w.fresh - 1
        answered := w.answered + if verdict gaveUp err = .answered then 1 else 0
        failed := w.failed + if verdict gaveUp err = .failed then 1 else 0 }
    else none
  | .observeFor false gaveUp err now =>
    if 0 < w.stale then
      some { w with breaker := w.breaker.observeFor cfg now gaveUp err, stale := w.stale - 1 }
    else none

/-- An answer that finds the probe budget of a half-open breaker spent is that of its last
outstanding probe. -/
def LastProbe (cfg : BreakerConfig) (w : World) : Action → Prop
  | .observeFor fresh gaveUp err _ => w.breaker.state = .breakerHalfOpen →
      cfg.halfOpenProbes ≤ w.breaker.probes → verdict gaveUp err = .answered → fresh ∧ w.fresh = 1
  | _ => True

variable {cfg : BreakerConfig} {w w' : World} {a : Action} {external : Bool}

/-- The probes spent are answered or still outstanding. -/
structure Inv (w : World) : Prop where
  spent : w.breaker.spent ≤ w.answered + w.fresh
  failed : w.breaker.state = .breakerHalfOpen → w.failed = 0

namespace Inv

variable (h : Inv w)

include h

lemma put {b : Breaker} {admitted : Bool}
    (hspent : b.spent ≤ w.breaker.spent + if admitted then 1 else 0) : Inv (w.put b admitted) := by
  have hold := h.spent
  have hfailed := h.failed
  unfold World.put
  constructor <;> grind [Breaker.spent]

lemma step (hstep : w.step cfg a = some w') : Inv w' := by
  have hold := h.spent
  cases a with
  | allow now =>
    cases hstep
    exact h.put Breaker.allow_spent
  | stateNow now =>
    cases hstep
    exact h.put (by simpa using Breaker.stateNow_spent)
  | probeResult now healthy =>
    cases hstep
    exact h.put (by simpa using Breaker.probeResult_spent)
  | observeFor fresh gaveUp err now =>
  have hspent := @Breaker.observeFor_spent cfg w.breaker now gaveUp err
  cases fresh <;> obtain ⟨hpos, ⟨⟩⟩ := ite_none_right_eq_some.mp hstep
  · refine ⟨by grind, fun hhalf => h.failed (Breaker.observeFor_halfOpen hhalf).1⟩
  refine ⟨by grind, fun hhalf => ?_⟩
  obtain ⟨hbefore, hverdict⟩ := Breaker.observeFor_halfOpen hhalf
  simp [h.failed hbefore, hverdict]

end Inv

/-- Whatever calls are outstanding, a half-open breaker that is closed by the answer of its last
outstanding probe has had enough probes answered, and none that failed. -/
theorem closes_after_probes
    (hreach : Reachable (World.step cfg) { breaker := { externalProbe := external } } w)
    (hstep : w.step cfg a = some w') (hok : w.LastProbe cfg a)
    (hhalf : w.breaker.state = .breakerHalfOpen) (hclosed : w'.breaker.state = .breakerClosed) :
    cfg.halfOpenProbes ≤ w'.answered ∧ w'.failed = 0 := by
  have h := hreach.invariant Inv ⟨Int.le_refl 0, nofun⟩ fun _ _ _ _ h _ hstep => h.step hstep
  cases a with
  | allow | stateNow | probeResult =>
    cases hstep
    grind [put, Breaker.allow, Breaker.admitProbe, Breaker.stateNow, Breaker.probeResult]
  | observeFor fresh gaveUp err now =>
  have hcloses : (w.breaker.observeFor cfg now gaveUp err).state = .breakerClosed := by
    cases fresh <;> obtain ⟨-, ⟨⟩⟩ := ite_none_right_eq_some.mp hstep <;> exact hclosed
  obtain ⟨hverdict, hprobes⟩ := Breaker.observeFor_closes hhalf hcloses
  obtain ⟨rfl, hlast⟩ := hok hhalf hprobes hverdict
  obtain ⟨-, ⟨⟩⟩ := ite_none_right_eq_some.mp hstep
  have hspent := h.spent
  rw [Breaker.spent, if_pos hhalf, hlast] at hspent
  rw [hverdict, if_pos rfl]
  exact ⟨Int.le_trans hprobes hspent, h.failed hhalf⟩

/-- Six calls are sent and five of them fail. After the cooldown both probes are on their way when
the sixth is answered: the breaker closes, and no probe has come back. -/
theorem closes_on_stale_answer :
    ∃ w w', Reachable (World.step defaultBreakerConfig) { breaker := {} } w ∧
      w.step defaultBreakerConfig (.observeFor false false none 6000000000) = some w' ∧
      w.breaker.state = .breakerHalfOpen ∧ w'.breaker.state = .breakerClosed ∧
      w'.answered = 0 ∧ w'.fresh = 2 :=
  Reach.exists_decide_step (replicate 6 (Action.allow 0) ++
    replicate 5 (Action.observeFor true false (some .unavailable) 0) ++
    replicate 2 (Action.allow 5000000000)) (by decide +kernel)

theorem closes_after_probes_two : ∃ w w' : World, w.breaker.state = .breakerHalfOpen ∧
    w'.breaker.state = .breakerClosed ∧ defaultBreakerConfig.halfOpenProbes ≤ w'.answered ∧
      w'.failed = 0 := by
  obtain ⟨w, w', hreach, hstep, hhalf, hclosed, hlast⟩ : ∃ w w',
      Reachable (World.step defaultBreakerConfig) { breaker := {} } w ∧
        w.step defaultBreakerConfig (.observeFor true false none 6000000000) = some w' ∧
        w.breaker.state = .breakerHalfOpen ∧ w'.breaker.state = .breakerClosed ∧ w.fresh = 1 :=
    Reach.exists_decide_step (replicate 5 (Action.allow 0) ++
      replicate 5 (Action.observeFor true false (some .unavailable) 0) ++
      [Action.allow 5000000000, .observeFor true false none 5000000000, .allow 5000000000])
      (by decide +kernel)
  exact ⟨w, w', hhalf, hclosed,
    closes_after_probes hreach hstep (fun _ _ _ => ⟨rfl, hlast⟩) hhalf hclosed⟩

end World

/-- A breaker and the calls it has admitted. `observe` lets go of the lock between its look at the
state and the record: `answering` counts the calls in between. -/
structure Calls where
  breaker : Breaker := {}
  outstanding : Nat := 0
  answering : Nat := 0

namespace Calls

/-- The sections under the lock. An outstanding call is released, recorded, or, with an answer
that is an error, looks at the state and may have it recorded later. -/
inductive Section
  | allow (now : Int)
  | stateNow (now : Int)
  | release
  | record (now : Int) (success : Bool)
  | look
  | answer (now : Int)

def take (w : Calls) : Option Calls :=
  if 0 < w.outstanding then some { w with outstanding := w.outstanding - 1 } else none

def step (cfg : BreakerConfig) (w : Calls) : Section → Option Calls
  | .allow now =>
    let (breaker, admitted) := w.breaker.allow cfg now
    some { w with breaker, outstanding := w.outstanding + admitted.toNat }
  | .stateNow now => some { w with breaker := w.breaker.stateNow cfg now }
  | .release => w.take.map fun w => { w with breaker := w.breaker.release }
  | .record now success => w.take.map fun w =>
    { w with breaker := w.breaker.record cfg now success }
  | .look => w.take.map fun w =>
    { w with answering := w.answering + if w.breaker.state = .breakerHalfOpen then 1 else 0 }
  | .answer now =>
    if 0 < w.answering then
      some { w with breaker := w.breaker.record cfg now true, answering := w.answering - 1 }
    else none

variable {cfg : BreakerConfig} {w w' : Calls} {a : Section}

/-- A half-open breaker whose probes are all spent has a call on its way. -/
structure Inv (cfg : BreakerConfig) (w : Calls) : Prop where
  own : w.breaker.externalProbe = false
  budget : w.breaker.state = .breakerHalfOpen → w.breaker.probes ≤ cfg.halfOpenProbes
  waits : w.breaker.state = .breakerHalfOpen → w.outstanding + w.answering = 0 →
    w.breaker.probes < cfg.halfOpenProbes

/-- A probe is admitted within the budget, and is a call on its way. -/
lemma admitProbe_inv {b : Breaker} {outstanding answering : Nat} (hown : b.externalProbe = false)
    (hbudget : b.probes ≤ cfg.halfOpenProbes)
    (hwaits : outstanding + answering = 0 → b.probes < cfg.halfOpenProbes) :
    Inv cfg ⟨(b.admitProbe cfg).1, outstanding + (b.admitProbe cfg).2.toNat, answering⟩ := by
  unfold Breaker.admitProbe
  split
  · exact ⟨hown, fun _ => hbudget, fun _ hnone => hwaits hnone⟩
  · next hleft =>
    refine ⟨hown, fun _ => Int.not_le.mp hleft, fun _ hnone => ?_⟩
    dsimp only [Bool.toNat_true] at hnone
    omega

/-- Where a half-open breaker has probes left, nobody has to be on the way. -/
lemma inv_of_left {b : Breaker} (hown : b.externalProbe = false)
    (hleft : b.state = .breakerHalfOpen → b.probes < cfg.halfOpenProbes)
    (outstanding answering : Nat) : Inv cfg ⟨b, outstanding, answering⟩ :=
  ⟨hown, fun hhalf => Int.le_of_lt (hleft hhalf), fun hhalf _ => hleft hhalf⟩

lemma record_inv {b : Breaker} (hown : b.externalProbe = false) (now : Int) (success : Bool)
    (outstanding answering : Nat) :
    Inv cfg ⟨b.record cfg now success, outstanding, answering⟩ := by
  refine inv_of_left (Breaker.record_externalProbe.trans hown) (fun hhalf => ?_) _ _
  obtain ⟨-, -, hlt, hprobes⟩ := Breaker.record_halfOpen hhalf
  rwa [hprobes]

lemma take_eq_some {w₁ : Calls} (htake : w.take = some w₁) :
    w₁ = { w with outstanding := w.outstanding - 1 } := by
  unfold take at htake
  split at htake
  · exact (some.inj htake).symm
  · cases htake

lemma Inv.allow (hcfg : 1 ≤ cfg.halfOpenProbes) (h : Inv cfg w) (now : Int) :
    Inv cfg { w with
      breaker := (w.breaker.allow cfg now).1
      outstanding := w.outstanding + (w.breaker.allow cfg now).2.toNat } := by
  cases hstate : w.breaker.state with
  | breakerClosed =>
    simp only [Breaker.allow, hstate]
    refine ⟨h.own, fun hhalf => ?_, fun hhalf => ?_⟩ <;> cases hstate.symm.trans hhalf
  | breakerHalfOpen =>
    simp only [Breaker.allow, hstate]
    exact admitProbe_inv h.own (h.budget hstate) (h.waits hstate)
  | breakerOpen =>
  by_cases hcool : w.breaker.externalProbe = true ∨ now - w.breaker.opened < cfg.cooldown
  · simp only [Breaker.allow, hstate, if_pos hcool]
    refine ⟨h.own, fun hhalf => ?_, fun hhalf => ?_⟩ <;> cases hstate.symm.trans hhalf
  · simp only [Breaker.allow, hstate, if_neg hcool]
    exact admitProbe_inv h.own (Int.le_trans Int.one_nonneg hcfg) fun _ => hcfg

lemma Inv.stateNow (hcfg : 1 ≤ cfg.halfOpenProbes) (h : Inv cfg w) (now : Int) :
    Inv cfg { w with breaker := w.breaker.stateNow cfg now } := by
  unfold Breaker.stateNow
  split
  · exact inv_of_left (b := w.breaker.becomeHalfOpen) h.own (fun _ => hcfg) _ _
  · exact h

lemma Inv.release (hcfg : 1 ≤ cfg.halfOpenProbes) (h : Inv cfg w) (outstanding : Nat) :
    Inv cfg { w with breaker := w.breaker.release, outstanding } := by
  refine inv_of_left (Breaker.release_externalProbe.trans h.own) (fun hhalf => ?_) _ _
  rw [Breaker.release_state] at hhalf
  have hbudget := h.budget hhalf
  obtain hnone | hback := Breaker.release_probes hhalf <;> omega

lemma Inv.step (hcfg : 1 ≤ cfg.halfOpenProbes) (h : Inv cfg w)
    (hstep : w.step cfg a = some w') : Inv cfg w' := by
  cases a with
  | allow now =>
    cases hstep
    exact h.allow hcfg now
  | stateNow now =>
    cases hstep
    exact h.stateNow hcfg now
  | release =>
    obtain ⟨w₁, htake, rfl⟩ := map_eq_some_iff.mp hstep
    rw [take_eq_some htake]
    exact h.release hcfg _
  | record now success =>
    obtain ⟨w₁, htake, rfl⟩ := map_eq_some_iff.mp hstep
    rw [take_eq_some htake]
    exact record_inv h.own now success _ _
  | look =>
    obtain ⟨w₁, htake, rfl⟩ := map_eq_some_iff.mp hstep
    rw [take_eq_some htake]
    refine ⟨h.own, h.budget, fun hhalf hnone => ?_⟩
    dsimp only at hhalf hnone
    rw [if_pos hhalf] at hnone
    omega
  | answer now =>
    obtain ⟨-, ⟨⟩⟩ := ite_none_right_eq_some.mp hstep
    exact record_inv h.own now true _ _

/-- Whatever the calls come to, a half-open breaker with no call outstanding admits the next one,
and so does an open one after its cooldown. -/
theorem never_wedges (hcfg : 1 ≤ cfg.halfOpenProbes) (hreach : Reachable (Calls.step cfg) {} w)
    (now : Int) :
    (w.breaker.state = .breakerHalfOpen → w.outstanding + w.answering = 0 →
      (w.breaker.allow cfg now).2 = true) ∧
    (w.breaker.state = .breakerOpen → cfg.cooldown ≤ now - w.breaker.opened →
      (w.breaker.allow cfg now).2 = true) := by
  have h := hreach.invariant (Inv cfg) ⟨rfl, nofun, nofun⟩ fun _ _ _ _ h _ hstep =>
    h.step hcfg hstep
  have hadmits {b : Breaker} (hlt : b.probes < cfg.halfOpenProbes) :
      (b.admitProbe cfg).2 = true := by
    rw [Breaker.admitProbe, if_neg (Int.not_le.mpr hlt)]
  refine ⟨fun hhalf hnone => ?_, fun hopen hcool => ?_⟩
  · simp only [Breaker.allow, hhalf]
    exact hadmits (h.waits hhalf hnone)
  · simp only [Breaker.allow, hopen, h.own, Bool.false_eq_true, false_or]
    rw [if_neg (Int.not_lt.mpr hcool)]
    exact hadmits hcfg

theorem never_wedges_probed : ∃ w : Calls, w.breaker.state = .breakerHalfOpen ∧
    w.breaker.probes = 1 ∧ (w.breaker.allow defaultBreakerConfig 5000000000).2 = true := by
  obtain ⟨w, hreach, hhalf, hprobes, hnone⟩ : ∃ w, Reachable (step defaultBreakerConfig) {} w ∧
      w.breaker.state = .breakerHalfOpen ∧ w.breaker.probes = 1 ∧ w.outstanding + w.answering = 0 :=
    Reach.exists_decide (replicate 5 (Section.allow 0) ++ replicate 5 (Section.record 0 false) ++
      [Section.allow 5000000000, .look, .answer 5000000000]) (by decide +kernel)
  exact ⟨w, hhalf, hprobes, (never_wedges (by decide) hreach 5000000000).1 hhalf hnone⟩

end Calls

end stratum.router
