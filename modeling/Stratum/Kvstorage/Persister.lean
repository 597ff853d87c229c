import Stratum.Kvraft.Log

open stratum.kvraft

namespace stratum.kvstorage

/-- Raft's hard state as the state file holds it. -/
structure PersistState where
  term : Nat
  voteFor : Option NodeId
  log : Log
deriving DecidableEq

/-- The two files of a node and the in-process guard of the snapshot file. Snapshot
data is the value the serialized bytes decode to. -/
structure Persister (σ : Type) where
  state : Option PersistState
  snapshot : Option (σ × Nat)
  snapshotIndex : Nat
deriving DecidableEq

namespace Persister

variable {σ : Type}

/-- A fresh path: neither file exists. -/
def new : Persister σ := { state := none, snapshot := none, snapshotIndex := 0 }

/-- The saved hard state, or on a fresh path the values a node starts with. -/
def loadState (p : Persister σ) : PersistState :=
  p.state.getD { term := 0, voteFor := none, log := .initial }

/-- Every write is assumed to succeed. -/
def saveState (p : Persister σ) (term : Nat) (voteFor : Option NodeId) (log : Log) : Persister σ :=
  { p with state := some { term, voteFor, log } }

/-- A snapshot below the highest index persisted by this process is refused. -/
def saveSnapshot (p : Persister σ) (data : σ) (lastIndex : Nat) : Persister σ :=
  if lastIndex < p.snapshotIndex then p
  else { p with snapshot := some (data, lastIndex), snapshotIndex := lastIndex }

def lastIndex (p : Persister σ) : Nat := (p.snapshot.map Prod.snd).getD 0

/-- What a new process finds: the files, and the guard that loading the snapshot sets. -/
def reopen (p : Persister σ) : Persister σ := { p with snapshotIndex := p.lastIndex }

variable (p : Persister σ)

@[simp] lemma saveState_snapshot (term : Nat) (voteFor : Option NodeId) (log : Log) :
    (p.saveState term voteFor log).snapshot = p.snapshot := rfl

@[simp] lemma saveSnapshot_loadState (data : σ) (lastIndex : Nat) :
    (p.saveSnapshot data lastIndex).loadState = p.loadState := by
  unfold saveSnapshot
  split <;> rfl

@[simp] lemma reopen_lastIndex : p.reopen.lastIndex = p.lastIndex := rfl

/-- Whether it writes or refuses, the snapshot file ends at or above the given index. -/
lemma saveSnapshot_spec {p : Persister σ} (data : σ) (i : Nat)
    (hguard : p.snapshotIndex = p.lastIndex) :
    (p.saveSnapshot data i).snapshotIndex = (p.saveSnapshot data i).lastIndex ∧
      p.lastIndex ≤ (p.saveSnapshot data i).lastIndex ∧
      i ≤ (p.saveSnapshot data i).lastIndex ∧
      ((p.saveSnapshot data i).lastIndex = p.lastIndex ∨
        (p.saveSnapshot data i).lastIndex = i) := by
  unfold saveSnapshot
  split
  · exact ⟨hguard, Nat.le_refl _, by omega, .inl rfl⟩
  refine ⟨rfl, ?_, Nat.le_refl _, .inr rfl⟩
  change p.lastIndex ≤ i
  omega

end Persister

end stratum.kvstorage
