import Stratum.Metadata.Revised
import Stratum.Metadata.Reads

namespace stratum.metadata

open List

namespace StateMachine

/-- `ListVersionsInRange`: the versions between the bounds that are given. -/
def listVersionsInRange (sm : StateMachine) (kbID : String)
    (fromExclusive toInclusive : Option Nat) : Except Error (List VersionMeta) :=
  match sm.listVersions kbID with
  | .error e => .error e
  | .ok all =>
    .ok (all.filter fun v =>
      !fromExclusive.any (v.versionID ≤ ·) && !toInclusive.any (· < v.versionID))

lemma withIndexReadyNode_nil (id : Int) : withIndexReadyNode [] id = [id] := rfl

lemma withIndexReadyNode_cons (node : Int) (nodes : List Int) (id : Int) :
    withIndexReadyNode (node :: nodes) id =
      if id ≤ node then if node = id then node :: nodes else id :: node :: nodes
      else node :: withIndexReadyNode nodes id := by
  unfold withIndexReadyNode
  by_cases hle : id ≤ node
  · simp [findIdx_cons, hle]
  simp only [findIdx_cons, hle, decide_false, cond_false, getElem?_cons_succ,
    take_succ_cons, if_false, cons_append]
  split <;> rfl

variable {nodes : List Int}

lemma mem_withIndexReadyNode {id node : Int} (hnode : node ∈ withIndexReadyNode nodes id) :
    node = id ∨ node ∈ nodes := by
  induction nodes with
  | nil => simpa [withIndexReadyNode_nil] using hnode
  | cons first nodes ih =>
  rw [withIndexReadyNode_cons] at hnode
  split at hnode
  · split at hnode
    · exact .inr hnode
    · exact mem_cons.mp hnode
  · obtain rfl | hnode := mem_cons.mp hnode
    · exact .inr mem_cons_self
    · exact (ih hnode).imp_right (mem_cons_of_mem _)

lemma withIndexReadyNode_ascending (hnodes : nodes.Pairwise (· < ·)) (id : Int) :
    (withIndexReadyNode nodes id).Pairwise (· < ·) := by
  induction nodes with
  | nil => exact pairwise_singleton _ _
  | cons first nodes ih =>
  obtain ⟨hfirst, hrest⟩ := pairwise_cons.mp hnodes
  rw [withIndexReadyNode_cons]
  split
  · split
    · exact hnodes
    refine pairwise_cons.mpr ⟨fun x hx => ?_, hnodes⟩
    obtain rfl | hx := mem_cons.mp hx
    · omega
    · have := hfirst x hx
      omega
  · refine pairwise_cons.mpr ⟨fun x hx => ?_, ih hrest⟩
    obtain rfl | hx := mem_withIndexReadyNode hx
    · omega
    · exact hfirst x hx

end StateMachine

/-- The nodes that reported a version ready are listed once each, in ascending order. -/
def ReadyAscending (sm : StateMachine) : Prop :=
  ∀ v m, sm.versions v = some m → m.indexReadyNodes.Pairwise (· < ·)

lemma readyAscending_newStateMachine (limit : Nat) (epoch : String) :
    ReadyAscending (newStateMachine limit epoch) := by
  intro v m hm
  cases hm

lemma ReadyAscending.apply {sm : StateMachine} (h : ReadyAscending sm) (now : Int)
    (cmd : Command) : ReadyAscending (sm.apply now cmd).1 := by
  intro v m' hm'
  cases Source.of_apply hm' with
  | allocated kbID parent clientRequestID hcmd hkb hnew hparent hv hm' =>
    rw [hm']
    exact List.Pairwise.nil
  | revised m hm hrevised =>
  have hasc := h v m hm
  cases hrevised with
  | same | marked => exact hasc
  | reported m' hrevision =>
  cases hrevision with
  | status status nodeID nodes hnodes =>
    obtain rfl | rfl := hnodes
    · exact StateMachine.withIndexReadyNode_ascending hasc nodeID
    · exact hasc
  | summary | durable | indexFailed | dataFailed | retried => exact hasc

end stratum.metadata
