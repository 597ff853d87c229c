import Mathlib.Data.List.Basic
import Stratum.Lib.Reach

namespace stratum.coordinator.documents

open stratum.lib List Option

/-- `writeDocumentsConcurrently` over `n` changes, by their places in the list: those the loop has
still to reach, the one it waits for a slot with, those being written and those written. `failed`
stands for `firstErr`. -/
structure Writing where
  todo : List Nat
  next : Option Nat := none
  running : List Nat := []
  written : List Nat := []
  cancelled : Bool := false
  stopped : Bool := false
  failed : Bool := false

def start (n : Nat) : Writing := { todo := range n }

/-- The loop goes to the next change or starts its write, a write comes back, or the caller's
context is cancelled. -/
inductive Action
  | check
  | begin
  | finish (change : Nat) (ok : Bool)
  | cancel
deriving DecidableEq

namespace Writing

/-- A list of at most one change is written without a look at the context. -/
def step (workers n : Nat) (w : Writing) : Action → Option Writing
  | .check =>
    match w.todo with
    | change :: todo =>
      if w.next.isSome ∨ w.stopped then none
      else if w.cancelled ∧ 1 < n then some { w with stopped := true }
      else some { w with todo, next := some change }
    | [] => none
  | .begin => w.next.bind fun change =>
    if w.running.length < workers then
      some { w with next := none, running := change :: w.running }
    else none
  | .finish change ok =>
    if change ∈ w.running then
      let w := { w with running := w.running.erase change }
      some (if ok then { w with written := change :: w.written }
        else { w with failed := true, cancelled := true })
    else none
  | .cancel => some { w with cancelled := true }

abbrev ReturnsNil (w : Writing) : Prop :=
  (w.todo = [] ∨ w.stopped) ∧ w.next = none ∧ w.running = [] ∧ w.failed = false

/-- The context is not cancelled while the loop has changes to reach. -/
abbrev InTime (n : Nat) (w : Writing) (a : Action) : Prop := a = .cancel → n ≤ 1 ∨ w.todo = []

variable {n workers : Nat} {w w' : Writing} {a : Action}

structure Inv (n : Nat) (w : Writing) : Prop where
  covers : w.failed = false → ∀ i < n, i ∈ w.todo ∨ w.next = some i ∨ i ∈ w.running ∨ i ∈ w.written
  cancelled : w.cancelled → w.failed = false → n ≤ 1 ∨ w.todo = []
  stopped : w.stopped → w.cancelled ∧ 1 < n

lemma Inv.step (h : Inv n w) (hok : InTime n w a)
    (hstep : w.step workers n a = some w') : Inv n w' := by
  obtain ⟨hcovers, hcancelled, hstopped⟩ := h
  cases a with
  | check =>
    unfold Writing.step at hstep
    grind [Inv]
  | begin =>
    obtain ⟨change, hnext, hstep⟩ := bind_eq_some_iff.mp hstep
    obtain ⟨-, ⟨⟩⟩ := ite_none_right_eq_some.mp hstep
    exact ⟨by grind, hcancelled, hstopped⟩
  | finish change ok =>
    obtain ⟨hin, ⟨⟩⟩ := ite_none_right_eq_some.mp hstep
    cases ok <;> constructor <;> grind
  | cancel =>
    cases hstep
    exact ⟨hcovers, fun _ _ => hok rfl, fun hstop => ⟨rfl, (hstopped hstop).2⟩⟩

/-- A nil return means that every change was written, unless the context was cancelled while the
loop still had changes to reach. -/
theorem nil_writes_all (hreach : Reach (step workers n) (InTime n) (start n) w)
    (hnil : w.ReturnsNil) : ∀ i < n, i ∈ w.written := by
  have hinit : Inv n (start n) := ⟨by simp [start], nofun, nofun⟩
  have h := hreach.invariant (Inv n) hinit fun _ _ _ _ h hok hstep => h.step hok hstep
  obtain ⟨hend, hnext, hrunning, hfailed⟩ := hnil
  obtain ⟨hcovers, hcancelled, hstopped⟩ := h
  grind

/-- With the context cancelled before the loop begins, two changes give nil and neither is
written. -/
theorem nil_unwritten : ∃ w, Reachable (step 8 2) (start 2) w ∧ w.ReturnsNil ∧ w.written = [] :=
  Reach.exists_decide [.cancel, .check] (by decide +kernel)

/-- The context is cancelled when the loop has only to begin its last change. -/
theorem nil_writes_all_late : ∃ w : Writing, Reach (step 8 2) (InTime 2) (start 2) w ∧
    w.cancelled ∧ w.ReturnsNil ∧ ∀ i < 2, i ∈ w.written := by
  obtain ⟨w, hreach, hlate, hnil⟩ : ∃ w, Reach (step 8 2) (InTime 2) (start 2) w ∧ w.cancelled ∧
      w.ReturnsNil :=
    Reach.exists_decide [.check, .begin, .check, .cancel, .begin, .finish 0 true, .finish 1 true]
      (by decide +kernel)
  exact ⟨w, hreach, hlate, hnil, nil_writes_all hreach hnil⟩

end Writing

end stratum.coordinator.documents
