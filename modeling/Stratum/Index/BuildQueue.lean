import Mathlib.Data.Finset.Basic
import Stratum.Lib.Reach

namespace stratum.index.buildpool

open stratum.lib List Option
open Finset (mem_insert mem_insert_self mem_insert_of_mem mem_erase insert_eq_of_mem)

structure IndexKey where
  kbID : String
  versionID : Int
deriving DecidableEq

/-- Why a build is scheduled: someone waits for it, or it is a head start. -/
inductive BuildPriority
  | interactive
  | backfill
deriving DecidableEq

structure BuildPool where
  interactive : List IndexKey := []
  backfill : List IndexKey := []

namespace BuildPool

def queue (p : BuildPool) : BuildPriority → List IndexKey
  | .interactive => p.interactive
  | .backfill => p.backfill

/-- `nextLocked`: the interactive queue is drained first. -/
def nextLocked (p : BuildPool) : Option (IndexKey × BuildPool) :=
  match p.interactive, p.backfill with
  | key :: rest, _ => some (key, { p with interactive := rest })
  | [], key :: rest => some (key, { p with backfill := rest })
  | [], [] => none

/-- `Submit` to a pool that is not closed. -/
def submit (p : BuildPool) (key : IndexKey) : BuildPriority → BuildPool
  | .interactive => { p with interactive := p.interactive ++ [key] }
  | .backfill => { p with backfill := p.backfill ++ [key] }

variable {p p' : BuildPool} {k key : IndexKey} {priority other : BuildPriority}

lemma mem_queue_submit : k ∈ (p.submit key priority).queue other ↔
    k ∈ p.queue other ∨ k = key ∧ other = priority := by
  cases priority <;> cases other <;> simp [submit, queue]

lemma nextLocked_spec (hnext : p.nextLocked = some (key, p')) :
    (∀ priority, p'.queue priority ⊆ p.queue priority) ∧
      (key ∈ p.interactive ∨ p'.interactive = []) := by
  unfold nextLocked at hnext
  split at hnext
  · next rest hqueue =>
    cases hnext
    refine ⟨fun priority k hk => ?_, .inl (hqueue ▸ mem_cons_self)⟩
    cases priority with
    | interactive => exact (hqueue ▸ mem_cons_of_mem _ hk : k ∈ p.interactive)
    | backfill => exact hk
  · next rest hempty hqueue =>
    cases hnext
    refine ⟨fun priority k hk => ?_, .inr hempty⟩
    cases priority with
    | interactive => exact hk
    | backfill => exact (hqueue ▸ mem_cons_of_mem _ hk : k ∈ p.backfill)
  · cases hnext

end BuildPool

/-- The manager and its pool. `submitting` has the requests that are marked in `loading` and not
yet handed to the pool: the lock is released in between. `awaited` and `asked` are not in the
source: the versions `TriggerBuild` was called for since their last build finished, and ever. -/
structure World where
  pool : BuildPool := {}
  loading : Finset IndexKey := ∅
  submitting : List (IndexKey × BuildPriority) := []
  running : List IndexKey := []
  awaited : Finset IndexKey := ∅
  asked : Finset IndexKey := ∅

/-- `TriggerBuild` and `TriggerBuildBackfill` by their priority, a worker that takes the next
request, and a `doBuild` that returns, with whatever outcome. -/
inductive Action
  | triggerBuild (key : IndexKey) (priority : BuildPriority)
  | submitBuild (key : IndexKey) (priority : BuildPriority)
  | start
  | finish (key : IndexKey)

namespace World

def request (w : World) (key : IndexKey) (priority : BuildPriority) : World :=
  { w with
    awaited := if priority = .interactive then insert key w.awaited else w.awaited
    asked := if priority = .interactive then insert key w.asked else w.asked }

/-- One step of a manager with `size` build workers. -/
def step (size : Nat) (w : World) : Action → Option World
  | .triggerBuild key priority =>
    -- A version already marked is not queued again, whatever its priority.
    if key ∈ w.loading then some (w.request key priority)
    else some { w.request key priority with
      loading := insert key w.loading, submitting := (key, priority) :: w.submitting }
  | .submitBuild key priority =>
    if (key, priority) ∈ w.submitting then
      some { w with
        submitting := w.submitting.erase (key, priority), pool := w.pool.submit key priority }
    else none
  | .start =>
    if w.running.length < size then
      w.pool.nextLocked.map fun (key, pool) => { w with pool, running := key :: w.running }
    else none
  | .finish key =>
    if key ∈ w.running then
      some { w with
        running := w.running.erase key
        loading := w.loading.erase key
        awaited := w.awaited.erase key }
    else none

variable {size : Nat} {w w' : World} {k key : IndexKey} {priority : BuildPriority} {a : Action}

/-- A request that is queued, or about to be. -/
def Waits (w : World) (k : IndexKey) (priority : BuildPriority) : Prop :=
  k ∈ w.pool.queue priority ∨ (k, priority) ∈ w.submitting
  deriving Decidable

/-- `TriggerBuild` is not called for a version that waits as backfill. -/
def InTime (w : World) : Action → Prop
  | .triggerBuild key priority => priority = .interactive → ¬ w.Waits key .backfill
  | _ => True

instance : ∀ a, Decidable (w.InTime a)
  | .triggerBuild key priority =>
    inferInstanceAs (Decidable (priority = .interactive → ¬ w.Waits key .backfill))
  | .submitBuild _ _ | .start | .finish _ => isTrue trivial

/-- What the queue a request waits in says about the version. -/
def Fits (w : World) (k : IndexKey) : BuildPriority → Prop
  | .interactive => k ∈ w.asked
  | .backfill => k ∉ w.awaited

structure Inv (w : World) : Prop where
  waits : ∀ k priority, w.Waits k priority → w.Fits k priority
  marked : w.awaited ⊆ w.loading

namespace Inv

variable (h : Inv w)

include h

lemma trigger (hok : w.InTime (.triggerBuild key priority))
    (hstep : w.step size (.triggerBuild key priority) = some w') : Inv w' := by
  have hfits (k : IndexKey) (other : BuildPriority) (hk : w.Waits k other) :
      (w.request key priority).Fits k other := by
    have hold := h.waits k other hk
    cases priority with
    | backfill => cases other <;> exact hold
    | interactive =>
    cases other with
    | interactive => exact mem_insert_of_mem hold
    | backfill =>
    intro hin
    obtain rfl | hin := mem_insert.mp hin
    · exact hok rfl hk
    · exact hold hin
  have hmarked : (w.request key priority).awaited ⊆ insert key w.loading := by
    cases priority with
    | interactive => exact Finset.insert_subset_insert key h.marked
    | backfill => exact fun k hk => mem_insert_of_mem (h.marked hk)
  dsimp only [World.step] at hstep
  split at hstep
  · next hmark =>
    cases hstep
    rw [insert_eq_of_mem hmark] at hmarked
    exact ⟨hfits, hmarked⟩
  next hnew =>
  cases hstep
  refine ⟨fun k other hk => ?_, hmarked⟩
  obtain hk | hk := hk
  · exact hfits k other (.inl hk)
  obtain heq | hk := mem_cons.mp hk
  · cases heq
    cases priority with
    | interactive => exact mem_insert_self _ _
    -- A version someone waits for has its mark until the build is over.
    | backfill => exact fun hin => hnew (h.marked hin)
  · exact hfits k other (.inr hk)

lemma start {pool : BuildPool} (hnext : w.pool.nextLocked = some (key, pool)) :
    Inv { w with pool, running := key :: w.running } :=
  ⟨fun k other hk => h.waits k other (hk.imp_left fun hin =>
    (BuildPool.nextLocked_spec hnext).1 other hin), h.marked⟩

lemma step (hok : w.InTime a) (hstep : w.step size a = some w') : Inv w' := by
  cases a with
  | triggerBuild key priority => exact h.trigger hok hstep
  | submitBuild key priority =>
    obtain ⟨hin, ⟨⟩⟩ := ite_none_right_eq_some.mp hstep
    refine ⟨fun k other hk => h.waits k other ?_, h.marked⟩
    obtain hk | hk := hk
    · obtain hk | ⟨rfl, rfl⟩ := BuildPool.mem_queue_submit.mp hk
      · exact .inl hk
      · exact .inr hin
    · exact .inr (mem_of_mem_erase hk)
  | start =>
    obtain ⟨-, hstep⟩ := ite_none_right_eq_some.mp hstep
    obtain ⟨⟨key, pool⟩, hnext, rfl⟩ := map_eq_some_iff.mp hstep
    exact h.start hnext
  | finish key =>
    obtain ⟨-, ⟨⟩⟩ := ite_none_right_eq_some.mp hstep
    refine ⟨fun k other hk => ?_, Finset.erase_subset_erase key h.marked⟩
    cases other with
    | interactive => exact h.waits k _ hk
    | backfill => exact fun hin => h.waits k _ hk (mem_erase.mp hin).2

end Inv

/-- In every run in which a version waiting as backfill is not asked for, a worker that starts a
version nobody has asked for leaves no awaited version in a queue. -/
theorem awaited_not_behind_backfill (hreach : Reach (World.step size) InTime {} w)
    (hstart : w.step size .start = some w') (hkey : w'.running = key :: w.running)
    (honly : key ∉ w.asked) : ∀ k ∈ w'.awaited, ∀ priority, k ∉ w'.pool.queue priority := by
  have hinit : Inv {} := by
    refine ⟨fun k priority hk => ?_, Finset.empty_subset _⟩
    cases priority <;> cases hk <;> contradiction
  have h := hreach.invariant Inv hinit fun _ _ _ _ h hok hstep => h.step hok hstep
  obtain ⟨-, hstep⟩ := ite_none_right_eq_some.mp hstart
  obtain ⟨⟨key', pool⟩, hnext, rfl⟩ := map_eq_some_iff.mp hstep
  cases hkey
  obtain ⟨-, hqueue | hempty⟩ := BuildPool.nextLocked_spec hnext
  · exact absurd (h.waits _ .interactive (.inl hqueue)) honly
  intro k hk priority hin
  cases priority with
  | interactive =>
    have hin : k ∈ pool.interactive := hin
    rw [hempty] at hin
    cases hin
  | backfill => exact (h.start hnext).waits k .backfill (.inl hin) hk

/-- Of two versions queued as backfill someone asks for the second: it keeps its place, and the
one worker starts the first. -/
theorem awaited_behind_backfill : ∃ w w', Reachable (World.step 1) {} w ∧
    World.step 1 w .start = some w' ∧ w'.running = ⟨"kb", 1⟩ :: w.running ∧ ⟨"kb", 1⟩ ∉ w.asked ∧
      ⟨"kb", 2⟩ ∈ w'.awaited ∧ ⟨"kb", 2⟩ ∈ w'.pool.backfill :=
  Reach.exists_decide_step [.triggerBuild ⟨"kb", 1⟩ .backfill, .submitBuild ⟨"kb", 1⟩ .backfill,
    .triggerBuild ⟨"kb", 2⟩ .backfill, .submitBuild ⟨"kb", 2⟩ .backfill,
    .triggerBuild ⟨"kb", 2⟩ .interactive] (by decide +kernel)

theorem awaited_not_behind_backfill_first : ∃ w w', World.step 1 w .start = some w' ∧
    w'.awaited = {⟨"kb", 2⟩} ∧ ∀ k ∈ w'.awaited, ∀ priority, k ∉ w'.pool.queue priority := by
  obtain ⟨w, w', hreach, hstart, hkey, honly, hawaited⟩ : ∃ w w',
      Reach (World.step 1) InTime {} w ∧ World.step 1 w .start = some w' ∧
        w'.running = ⟨"kb", 1⟩ :: w.running ∧ ⟨"kb", 1⟩ ∉ w.asked ∧ w'.awaited = {⟨"kb", 2⟩} :=
    Reach.exists_decide_step [.triggerBuild ⟨"kb", 1⟩ .backfill, .submitBuild ⟨"kb", 1⟩ .backfill,
      .triggerBuild ⟨"kb", 2⟩ .interactive] (by decide +kernel)
  exact ⟨w, w', hstart, hawaited, awaited_not_behind_backfill hreach hstart hkey honly⟩

end World

end stratum.index.buildpool
