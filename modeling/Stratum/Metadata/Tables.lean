import Stratum.Metadata.Idempotent

namespace stratum.metadata

open stratum.lib

/-- A replica and the snapshots it has saved. `births` counts how often each version id has come
into the tables, over the commands the state stands for; a snapshot keeps the count it was saved
with. -/
structure SnapshotNode where
  sm : StateMachine
  births : Nat → Nat := fun _ => 0
  saved : List (SnapshotState × (Nat → Nat)) := []

namespace SnapshotNode

inductive Event
  | apply (now : Int) (cmd : Command)
  | save (arrays : Nat → List Int)
  /-- A saved snapshot replaces what `into` holds: the state machine of the process that saved it,
  or that of a later one. -/
  | restore (into : StateMachine) (i : Nat) (minted : String)

def step (n : SnapshotNode) : Event → Option SnapshotNode
  | .apply now cmd =>
    let sm := (n.sm.apply now cmd).1
    some { n with
      sm := sm
      births := fun v =>
        if n.sm.versions v = none ∧ (sm.versions v).isSome then n.births v + 1 else n.births v }
  | .save arrays => some { n with saved := n.saved ++ [(n.sm.deepCopy arrays, n.births)] }
  | .restore into i minted => n.saved[i]?.map fun s =>
      { n with sm := into.restore s.1 minted, births := s.2 }

def Plain (n : SnapshotNode) : Event → Prop
  | .apply now cmd => PlainEvent n.sm (.apply now cmd)
  | _ => True

instance (n : SnapshotNode) : (e : Event) → Decidable (n.Plain e)
  | .apply now cmd => inferInstanceAs (Decidable (PlainEvent n.sm (.apply now cmd)))
  | .save _ | .restore .. => isTrue trivial

end SnapshotNode

/-- The tables agree, and no id below the next one has come twice, nor one above it at all. -/
structure TablesAgree (sm : StateMachine) (births : Nat → Nat) : Prop where
  requests : Requests sm
  ascending : Ascending sm
  births : ∀ v, births v ≤ if v < sm.nextVersionID then 1 else 0

namespace TablesAgree

variable {n : SnapshotNode} {sm : StateMachine} {births : Nat → Nat}

lemma apply (h : TablesAgree n.sm n.births) {now : Int} {cmd : Command}
    (hplain : n.Plain (.apply now cmd)) {n' : SnapshotNode}
    (hstep : n.step (.apply now cmd) = some n') : TablesAgree n'.sm n'.births := by
  cases hstep
  have hwf := h.requests.wf
  refine ⟨h.requests.apply hplain, h.ascending.apply hwf now cmd, fun v => ?_⟩
  have hnext := next_le_apply hwf now cmd
  have hold := h.births v
  dsimp only
  split
  · next hborn =>
    obtain ⟨m', hm'⟩ := Option.isSome_iff_exists.mp hborn.2
    have hlt := (hwf.apply now cmd).lt_next hm'
    -- What was not there is the id the command allocated, which had not come before.
    obtain rfl | ⟨m, hm, -⟩ := present_before hwf hm'
    · rw [if_neg (lt_irrefl _)] at hold
      rw [if_pos hlt]
      omega
    · rw [hborn.1] at hm
      cases hm
  · split at hold
    · next hlt => rwa [if_pos (Nat.lt_of_lt_of_le hlt hnext)]
    · exact Nat.le_trans hold (Nat.zero_le _)

lemma restore (h : TablesAgree sm births) (arrays : Nat → List Int) (into : StateMachine)
    (minted : String) : TablesAgree (into.restore (sm.deepCopy arrays) minted) births :=
  ⟨h.requests.restore arrays into minted, h.ascending, h.births⟩

end TablesAgree

/-- The tables of a replica agree, and so do those of every snapshot it has saved. -/
structure SnapshotNode.Inv (n : SnapshotNode) : Prop where
  tables : TablesAgree n.sm n.births
  saved : ∀ s ∈ n.saved, ∃ (sm : StateMachine) (arrays : Nat → List Int),
    s.1 = sm.deepCopy arrays ∧ TablesAgree sm s.2

lemma SnapshotNode.Inv.step {n n' : SnapshotNode} {e : Event} (h : n.Inv) (hplain : n.Plain e)
    (hstep : n.step e = some n') : n'.Inv := by
  cases e with
  | apply now cmd =>
    refine ⟨h.tables.apply hplain hstep, ?_⟩
    cases hstep
    exact h.saved
  | save arrays =>
    cases hstep
    refine ⟨h.tables, fun s hs => ?_⟩
    obtain hs | hs := List.mem_append.mp hs
    · exact h.saved s hs
    · rw [List.mem_singleton.mp hs]
      exact ⟨n.sm, arrays, rfl, h.tables⟩
  | restore into i minted =>
    obtain ⟨s, hs, rfl⟩ := Option.map_eq_some_iff.mp hstep
    obtain ⟨sm, arrays, hsnap, htables⟩ := h.saved s (List.mem_of_getElem? hs)
    refine ⟨?_, h.saved⟩
    rw [hsnap]
    exact htables.restore arrays into minted

/-- After every sequence of commands over plain knowledge base ids, snapshots saved and snapshots
restored, the lists of versions are ascending and list exactly the versions there are, the next
id is above all of them, every request entry points at one, and no id has come twice in the
commands the state stands for. -/
theorem version_tables_agree (limit : Nat) (epoch : String) {n : SnapshotNode}
    (hreach : Reach SnapshotNode.step SnapshotNode.Plain { sm := newStateMachine limit epoch } n) :
    (∀ kbID, (n.sm.versionsByKB kbID).Pairwise (· < ·) ∧
      ∀ v, v ∈ n.sm.versionsByKB kbID ↔ ∃ m, n.sm.versions v = some m ∧ m.kbID = kbID) ∧
    (∀ v m, n.sm.versions v = some m → v < n.sm.nextVersionID) ∧
    (∀ v, n.births v ≤ 1) ∧
    ∀ key v, n.sm.versionsByRequest key = some v → ∃ m, n.sm.versions v = some m := by
  have hinv : n.Inv := by
    refine hreach.invariant SnapshotNode.Inv ⟨⟨.new limit epoch, ?_, ?_⟩, ?_⟩ ?_
    · exact ascending_newStateMachine limit epoch
    · exact fun _ => Nat.zero_le _
    · exact nofun
    · exact fun _ _ _ _ hinv hplain hstep => hinv.step hplain hstep
  obtain ⟨⟨hreq, hasc, hbirths⟩, -⟩ := hinv
  refine ⟨fun kbID => ⟨hasc kbID, fun v => ⟨hreq.wf.present, ?_⟩⟩, fun v m => hreq.wf.lt_next, ?_, ?_⟩
  · rintro ⟨m, hm, rfl⟩
    exact hreq.wf.listed hm
  · intro v
    refine le_trans (hbirths v) ?_
    split <;> decide
  · intro key v hv
    obtain ⟨m, -, hm, -⟩ := hreq.mapped hv
    exact ⟨m, hm⟩

/-- Two versions, the first removed and the second saved in a snapshot that a new process
restores before it creates a third. -/
def restoredRun : List SnapshotNode.Event :=
  [.apply 0 (.createKB { kbID := "kb" }), .apply 0 (.createVersion "kb" 0 "a"),
    .apply 0 (.markVersionDeleting "kb" 1 .subtree), .apply 0 (.removeVersionMeta "kb" 1),
    .apply 0 (.createVersion "kb" 0 "b"), .save fun _ => [],
    .apply 0 (.createVersion "kb" 0 "c"), .restore (newStateMachine 8 "other") 0 "minted",
    .apply 0 (.createVersion "kb" 0 "d")]

theorem version_tables_agree_restored : ∃ n : SnapshotNode,
    n.sm.versionsByKB "kb" = [2, 3] ∧ n.births 1 = 1 ∧
      (∀ v, v ∈ n.sm.versionsByKB "kb" ↔ ∃ m, n.sm.versions v = some m ∧ m.kbID = "kb") ∧
      (∀ v, n.births v ≤ 1) ∧
      ∀ key v, n.sm.versionsByRequest key = some v → ∃ m, n.sm.versions v = some m := by
  obtain ⟨n, hreach, hlist, hborn⟩ : ∃ n, Reach SnapshotNode.step SnapshotNode.Plain
      { sm := newStateMachine 8 "epoch" } n ∧ n.sm.versionsByKB "kb" = [2, 3] ∧ n.births 1 = 1 :=
    Reach.exists_decide restoredRun (by decide +kernel)
  obtain ⟨hlists, -, hbirths, hrequests⟩ := version_tables_agree 8 "epoch" hreach
  exact ⟨n, hlist, hborn, (hlists "kb").2, hbirths, hrequests⟩

/-- The id of a version created after a snapshot is given out again, to a version of another
knowledge base, once the snapshot is restored. -/
theorem id_given_again : ∃ past n,
    Path SnapshotNode.step SnapshotNode.Plain { sm := newStateMachine 8 "epoch" } past n ∧
      (∃ t ∈ past, (t.sm.versions 1).map (·.kbID) = some "a") ∧
      (n.sm.versions 1).map (·.kbID) = some "b" :=
  Path.exists_decide
    [.save fun _ => [], .apply 0 (.createKB { kbID := "a" }), .apply 0 (.createVersion "a" 0 "")]
    [.restore (newStateMachine 8 "other") 0 "", .apply 0 (.createKB { kbID := "b" }),
      .apply 0 (.createVersion "b" 0 "")] (by decide +kernel)

end stratum.metadata
