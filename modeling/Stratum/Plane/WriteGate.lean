import Mathlib.Data.Finset.Basic
import Stratum.Lib.Reach

namespace stratum.plane.writegate

open stratum.lib Function List Option

/-- The writes in flight for one knowledge base, and the channel the waiters wait on. -/
structure PerKBGate where
  n : Nat := 0
  wait : Nat

/-- The limiter with its callers. `made` channels have been made so far; a blocked caller waits on
the one it captured. `holding` counts the slots taken by `Acquire` and not yet released. -/
structure WriteLimiter where
  gates : String → Option PerKBGate := fun _ => none
  made : Nat := 0
  closed : Finset Nat := ∅
  waiters : List (Nat × String) := []
  holding : String → Nat := fun _ => 0

inductive Action
  | acquire (kbID : String)
  | wake (kbID : String) (wait : Nat)
  | cancel (kbID : String) (wait : Nat)
  | release (kbID : String)

namespace WriteLimiter

def inFlight (l : WriteLimiter) (kbID : String) : Nat := (l.gates kbID).elim 0 (·.n)

/-- One round of `Acquire` under the lock. -/
def acquire (limit : Nat) (l : WriteLimiter) (kbID : String) : WriteLimiter :=
  let gate := (l.gates kbID).getD { wait := l.made }
  let made := max l.made (gate.wait + 1)
  if gate.n < limit then { l with
    made
    gates := update l.gates kbID (some { gate with n := gate.n + 1 })
    holding := update l.holding kbID (l.holding kbID + 1) }
  else { l with
    made
    gates := update l.gates kbID (some gate)
    waiters := (gate.wait, kbID) :: l.waiters }

def release (l : WriteLimiter) (kbID : String) : WriteLimiter :=
  match l.gates kbID with
  | none | some ⟨0, _⟩ => l
  | some ⟨n + 1, wait⟩ => { l with
      made := l.made + 1
      gates := update l.gates kbID (some ⟨n, l.made⟩)
      closed := insert wait l.closed }

/-- A waiter goes on when its channel is closed; `Release` is called for a slot that is held. -/
def step (limit : Nat) (l : WriteLimiter) : Action → Option WriteLimiter
  | .acquire kbID => some (l.acquire limit kbID)
  | .wake kbID wait =>
    if (wait, kbID) ∈ l.waiters ∧ wait ∈ l.closed then
      some ({ l with waiters := l.waiters.erase (wait, kbID) }.acquire limit kbID)
    else none
  | .cancel kbID wait =>
    if (wait, kbID) ∈ l.waiters then some { l with waiters := l.waiters.erase (wait, kbID) }
    else none
  | .release kbID =>
    if 0 < l.holding kbID then
      some ({ l with holding := update l.holding kbID (l.holding kbID - 1) }.release kbID)
    else none

variable {limit : Nat} {l l' : WriteLimiter} {a : Action}

/-- A waiter whose channel is open waits for a full gate. -/
structure Inv (limit : Nat) (l : WriteLimiter) : Prop where
  count : ∀ kbID, l.inFlight kbID = l.holding kbID
  bound : ∀ kbID, l.holding kbID ≤ limit
  waits : ∀ kbID wait, (wait, kbID) ∈ l.waiters → wait ∈ l.closed ∨
    ∃ gate, l.gates kbID = some gate ∧ gate.wait = wait ∧ gate.n = limit

section

variable (h : Inv limit l)

include h

/-- A slot is free: no one waits on the gate with its channel open, so none is forgotten. -/
lemma Inv.take {kbID : String} {gate : PerKBGate} {made : Nat} (hgate : gate.n = l.inFlight kbID)
    (hfree : gate.n < limit) :
    Inv limit { l with
      made
      gates := update l.gates kbID (some { gate with n := gate.n + 1 })
      holding := update l.holding kbID (l.holding kbID + 1) } := by
  refine ⟨fun kb => ?_, fun kb => ?_, fun kb wait hin => ?_⟩
  · simp only [inFlight, update_apply]
    split
    · rw [elim_some, hgate, h.count kbID]
    · exact h.count kb
  · simp only [update_apply]
    split
    · rw [← h.count kbID, ← hgate]
      exact hfree
    · exact h.bound kb
  · obtain hclosed | ⟨other, hother, hwait, hfull⟩ := h.waits kb wait hin
    · exact .inl hclosed
    have hne : kb ≠ kbID := by
      rintro rfl
      rw [inFlight, hother, elim_some] at hgate
      omega
    exact .inr ⟨other, (update_of_ne hne _ _).trans hother, hwait, hfull⟩

/-- The gate is full: the caller waits on the gate's channel. -/
lemma Inv.block {kbID : String} {gate : PerKBGate} {made : Nat} (hgate : gate.n = l.inFlight kbID)
    (hsame : ∀ other, l.gates kbID = some other → other = gate) (hfull : ¬ gate.n < limit) :
    Inv limit { l with
      made
      gates := update l.gates kbID (some gate)
      waiters := (gate.wait, kbID) :: l.waiters } := by
  refine ⟨fun kb => ?_, h.bound, fun kb wait hin => ?_⟩
  · simp only [inFlight, update_apply]
    split
    · next heq => rw [elim_some, hgate, heq, h.count kbID]
    · exact h.count kb
  · have hbound := h.bound kbID
    rw [← h.count kbID, ← hgate] at hbound
    obtain heq | hin := mem_cons.mp hin
    · obtain ⟨rfl, rfl⟩ := Prod.mk.inj heq
      exact .inr ⟨gate, update_self .., rfl, by omega⟩
    obtain hclosed | ⟨other, hother, hwait, hn⟩ := h.waits kb wait hin
    · exact .inl hclosed
    refine .inr ⟨other, ?_, hwait, hn⟩
    by_cases heq : kb = kbID
    · subst heq
      rw [hsame other hother]
      exact update_self ..
    · exact (update_of_ne heq _ _).trans hother

lemma Inv.acquire (kbID : String) : Inv limit (l.acquire limit kbID) := by
  have hgate : ((l.gates kbID).getD { wait := l.made }).n = l.inFlight kbID := by
    unfold inFlight
    cases l.gates kbID <;> rfl
  unfold WriteLimiter.acquire
  dsimp only
  split
  · next hfree => exact h.take hgate hfree
  · next hfull => exact h.block hgate (fun other hother => by rw [hother, getD_some]) hfull

/-- A slot comes back: the gate's channel is closed and a new one made. -/
lemma Inv.release {kbID : String} (hheld : 0 < l.holding kbID) :
    Inv limit ({ l with
      holding := update l.holding kbID (l.holding kbID - 1) }.release kbID) := by
  have hcount := h.count kbID
  unfold WriteLimiter.release
  split
  · next hgate =>
    rw [inFlight, hgate, elim_none] at hcount
    omega
  · next wait hgate =>
    rw [inFlight, hgate, elim_some] at hcount
    dsimp only at hcount
    omega
  · next n wait hgate =>
    rw [inFlight, hgate, elim_some] at hcount
    dsimp only at hcount
    refine ⟨fun kb => ?_, fun kb => ?_, fun kb wait' hin => ?_⟩
    · simp only [inFlight, update_apply]
      split
      · change n = _
        omega
      · exact h.count kb
    · have hbound := h.bound kb
      simp only [update_apply]
      split
      · next heq =>
        rw [← heq]
        omega
      · exact hbound
    · obtain hclosed | ⟨gate, hother, rfl, hfull⟩ := h.waits kb wait' hin
      · exact .inl (Finset.mem_insert_of_mem hclosed)
      by_cases heq : kb = kbID
      · subst heq
        cases hgate.symm.trans hother
        exact .inl (Finset.mem_insert_self ..)
      · exact .inr ⟨gate, (update_of_ne heq _ _).trans hother, rfl, hfull⟩

lemma Inv.forget (x : Nat × String) : Inv limit { l with waiters := l.waiters.erase x } :=
  { h with waits := fun kbID wait hin => h.waits kbID wait (mem_of_mem_erase hin) }

lemma Inv.step (hstep : l.step limit a = some l') : Inv limit l' := by
  cases a with
  | acquire kbID =>
    cases hstep
    exact h.acquire kbID
  | wake kbID wait =>
    obtain ⟨-, ⟨⟩⟩ := ite_none_right_eq_some.mp hstep
    exact (h.forget _).acquire kbID
  | cancel kbID wait =>
    obtain ⟨-, ⟨⟩⟩ := ite_none_right_eq_some.mp hstep
    exact h.forget _
  | release kbID =>
    obtain ⟨hheld, ⟨⟩⟩ := ite_none_right_eq_some.mp hstep
    exact h.release hheld

end

/-- No more than the limit of writes hold a slot, and while one is free every waiter's channel has
been closed. -/
theorem no_lost_wakeup (hreach : Reachable (step limit) {} l) (kbID : String) :
    l.holding kbID ≤ limit ∧ (l.holding kbID < limit →
      ∀ wait, (wait, kbID) ∈ l.waiters → wait ∈ l.closed) := by
  have h := hreach.invariant (Inv limit) ⟨fun _ => rfl, fun _ => Nat.zero_le _, nofun⟩
    fun _ _ _ _ h _ hstep => h.step hstep
  refine ⟨h.bound kbID, fun hfree wait hin => ?_⟩
  obtain hclosed | ⟨gate, hgate, -, hfull⟩ := h.waits kbID wait hin
  · exact hclosed
  · have hcount := h.count kbID
    rw [inFlight, hgate, elim_some] at hcount
    omega

theorem no_lost_wakeup_released : ∃ l : WriteLimiter, l.waiters = [(0, "kb")] ∧
    l.holding "kb" = 0 ∧ ∀ wait, (wait, "kb") ∈ l.waiters → wait ∈ l.closed := by
  obtain ⟨l, hreach, hwaits, hfree⟩ : ∃ l, Reachable (step 1) {} l ∧ l.waiters = [(0, "kb")] ∧
      l.holding "kb" = 0 :=
    Reach.exists_decide [.acquire "kb", .acquire "kb", .release "kb"] (by decide +kernel)
  exact ⟨l, hwaits, hfree, (no_lost_wakeup hreach "kb").2 (by rw [hfree]; decide)⟩

end WriteLimiter

end stratum.plane.writegate
