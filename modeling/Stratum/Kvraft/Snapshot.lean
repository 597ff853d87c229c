import Stratum.Kvraft.Raft

namespace stratum.kvraft

open Function

namespace Raft

variable {σ : Type}

def resetSnapshotPending (rf : Raft σ) (peerID : NodeId) : Raft σ :=
  { rf with snapshotPending := update rf.snapshotPending peerID false }

def resetSnapshotting (rf : Raft σ) : Raft σ := { rf with snapshotting := false }

/-- The test made before the snapshot is written and again before the log is trimmed. -/
def CanSnapshot (rf : Raft σ) (index : Nat) : Prop :=
  ¬ index ≤ rf.log.base.index ∧ ¬ rf.log.length ≤ rf.log.logIndex index
  deriving Decidable

/-- The durable write of a snapshot, made outside the lock. -/
def saveSnapshot (rf : Raft σ) (data : σ) (index : Nat) : Raft σ :=
  { rf with persister := rf.persister.saveSnapshot data index }

/-- The log trimmed to `index`, keeping the term the log itself holds there. -/
def trimTo (rf : Raft σ) (index : Nat) : Option (Raft σ) :=
  (rf.log.logEntry index).map fun entry =>
    persist { rf with log := rf.log.compactAt index entry.term (rf.log.logIndex index) }

def snapshotTrim (rf : Raft σ) (index : Nat) : Option (Raft σ) :=
  if rf.CanSnapshot index then rf.trimTo index else some rf

def snapshotDone (rf : Raft σ) (peerID : NodeId) (lastIndex : Nat) : Raft σ :=
  { rf with
    snapshotPending := update rf.snapshotPending peerID false
    nextIndex := update rf.nextIndex peerID (lastIndex + 1)
    matchIndex := update rf.matchIndex peerID (some lastIndex) }

def trimLogLocked (rf : Raft σ) (index term : Nat) : Option (Raft σ) :=
  if index ≤ rf.log.base.index then some rf
  else if rf.log.length ≤ rf.log.logIndex index then
    let log : Log := { base := { index, term, data := [] }, entries := [] }
    some { persist { rf with log := log } with snapshotting := false }
  else (rf.trimTo index).map fun rf => { rf with snapshotting := false }

def installDone (rf : Raft σ) (lastIndex lastTerm : Nat) : Option (Raft σ) :=
  trimLogLocked
    { rf with
      lastApplied := if rf.lastApplied < lastIndex then lastIndex else rf.lastApplied
      lastCommitIndex := if rf.lastCommitIndex < lastIndex then lastIndex else rf.lastCommitIndex }
    lastIndex lastTerm

variable {rf rf' : Raft σ}

lemma trimTo_spec {i : Nat} (htrim : rf.trimTo i = some rf') :
    ∃ entry, rf.log.logEntry i = some entry ∧
      rf' = persist { rf with log := rf.log.compactAt i entry.term (rf.log.logIndex i) } := by
  simp only [trimTo, Option.map_eq_some_iff] at htrim
  obtain ⟨entry, hentry, rfl⟩ := htrim
  exact ⟨entry, hentry, rfl⟩

lemma installDone_spec {i t : Nat} (hdone : rf.installDone i t = some rf') :
    ∃ rf₁ : Raft σ, rf₁ = { rf with
        lastApplied := max rf.lastApplied i
        lastCommitIndex := max rf.lastCommitIndex i } ∧
      ((i ≤ rf.log.base.index ∧ rf' = rf₁) ∨
        (rf.log.lastLogIndex < i ∧
          rf' = { persist { rf₁ with
            log := { base := { index := i, term := t, data := [] }, entries := [] } } with
              snapshotting := false }) ∨
        ∃ rf₂, rf.log.base.index < i ∧ rf₁.trimTo i = some rf₂ ∧
          rf' = { rf₂ with snapshotting := false }) := by
  have happlied : (if rf.lastApplied < i then i else rf.lastApplied) = max rf.lastApplied i := by
    split <;> omega
  have hcommit : (if rf.lastCommitIndex < i then i else rf.lastCommitIndex) =
      max rf.lastCommitIndex i := by
    split <;> omega
  refine ⟨_, rfl, ?_⟩
  rw [installDone, happlied, hcommit] at hdone
  unfold trimLogLocked at hdone
  dsimp only at hdone
  split at hdone
  · next hbelow =>
    cases hdone
    exact .inl ⟨hbelow, rfl⟩
  split at hdone
  · next hbeyond =>
    cases hdone
    refine .inr (.inl ⟨?_, rfl⟩)
    rw [Log.lastLogIndex_eq]
    simp only [Log.length, Log.logIndex] at hbeyond
    omega
  · simp only [Option.map_eq_some_iff] at hdone
    obtain ⟨rf₂, htrim, rfl⟩ := hdone
    exact .inr (.inr ⟨rf₂, by omega, htrim, rfl⟩)

end Raft

end stratum.kvraft
