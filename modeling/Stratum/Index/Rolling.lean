import Mathlib.Algebra.Order.Field.Rat
import Mathlib.Data.Finset.Card
import Stratum.Metadata.ReadyNodes

namespace stratum.index.rolling

open stratum.lib stratum.metadata List Option Function

/-- The one version a range read of the metadata comes back with. -/
def versionInRange (sm : StateMachine) (kbID : String) (versionID : Nat) :
    Except Error (Option VersionMeta) :=
  match sm.listVersionsInRange kbID (some (versionID - 1)) (some versionID) with
  | .error e => .error e
  | .ok versions => .ok (versions.find? (·.versionID = versionID))

/-- `IndexReadyReplicaCount`: how many nodes besides the asking one have reported the version's
index ready. Nothing takes a node off that list. -/
def indexReadyReplicaCount (sm : StateMachine) (kbID : String) (versionID : Nat) (except : Int) :
    Except Error Nat :=
  let notFound := Sentinel.versionNotFound.wrap
    s!"plane: IndexReadyReplicaCount: version {versionID} of {kbID} not found"
  if versionID = 0 then .error notFound
  else
    match versionInRange sm kbID versionID with
    | .error e =>
      .error { e with detail := s!"plane: IndexReadyReplicaCount: list versions of {kbID}" }
    | .ok none => .error notFound
    | .ok (some v) => .ok (v.indexReadyNodes.countP (· ≠ except))

/-- Where a node's collection of the version stands: the check has passed, or the version is out
of service on the node. -/
inductive Phase
  | idle
  | cleared
  | out
deriving DecidableEq

/-- A node as far as the version goes: its settings, whether it has the version's index, and its
collector. -/
structure Node where
  gcEnabled : Bool
  indexServingReplicaMin : Int
  gcGraphRebuildRatio : Rat
  holds : Bool
  phase : Phase

def defaultIndexServingReplicaMin : Nat := 1

def defaultGCGraphRebuildRatio : Rat := 1 / 2

def Node.minimum (node : Node) : Nat :=
  if node.indexServingReplicaMin ≤ 0 then defaultIndexServingReplicaMin
  else node.indexServingReplicaMin.toNat

def Node.graphRebuildRatio (node : Node) : Rat :=
  if 0 < node.gcGraphRebuildRatio then node.gcGraphRebuildRatio else defaultGCGraphRebuildRatio

def Node.serves (node : Node) : Bool := node.holds && node.phase ≠ .out

/-- What a collector finds between the check and stepping out: the number of dead chunks, if it
can be determined, the artifact's shape (asked twice) and dead share, and whether there is a
vector store. -/
structure Findings where
  dead : Option Nat
  shape : Option Bool
  deadShare : Rat
  shapeAgain : Option Bool
  vecstore : Bool

/-- Whether the collector goes on to `collectGraphFree` or `rebuildGraphed`, and that takes the
version out of service. -/
def Findings.collects (f : Findings) (node : Node) : Bool :=
  f.dead.any (0 < ·) && f.vecstore && f.shapeAgain = f.shape &&
    match f.shape with
    | none => false
    | some true => true
    | some false => node.graphRebuildRatio ≤ f.deadShare

structure World where
  sm : StateMachine
  members : List Int
  nodes : Int → Node

/-- The metadata learns a command, such as a readiness report; a node gets the version's index, by
a build or from another node, or drops it; its collector asks for the serving replicas, looks
closer, is done; it restarts. -/
inductive Action
  | apply (now : Int) (cmd : Command)
  | build (node : Int)
  | drop (node : Int)
  | ask (node : Int)
  | proceed (node : Int) (findings : Findings)
  | done (node : Int)
  | restart (node : Int)

section Steps

variable (kbID : String) (versionID : Nat)

def World.setNode (w : World) (n : Int) (node : Node) : World :=
  { w with nodes := update w.nodes n node }

/-- The check of `collectCandidates`: the phase it leads to. -/
def check (w : World) (n : Int) : Phase :=
  match indexReadyReplicaCount w.sm kbID versionID n with
  | .error _ => .idle
  | .ok others => if others < (w.nodes n).minimum then .idle else .cleared

def World.step (w : World) : Action → Option World
  | .apply now cmd => some { w with sm := (w.sm.apply now cmd).1 }
  | .build n =>
    if n ∈ w.members then some (w.setNode n { w.nodes n with holds := true }) else none
  | .drop n =>
    if n ∈ w.members then some (w.setNode n { w.nodes n with holds := false }) else none
  | .ask n =>
    if n ∈ w.members ∧ (w.nodes n).phase = .idle ∧ (w.nodes n).gcEnabled ∧ n ≠ 0 then
      some (w.setNode n { w.nodes n with phase := check kbID versionID w n })
    else none
  | .proceed n findings =>
    if (w.nodes n).phase = .cleared then
      -- Without an artifact there are no dead chunks to be found.
      let out := (w.nodes n).holds && findings.collects (w.nodes n)
      some (w.setNode n { w.nodes n with phase := if out then .out else .idle })
    else none
  | .done n =>
    if (w.nodes n).phase = .out then some (w.setNode n { w.nodes n with phase := .idle }) else none
  | .restart n =>
    if n ∈ w.members then some (w.setNode n { w.nodes n with phase := .idle }) else none

/-- Nodes with settings of their own, none of which has the index. -/
def World.init (limit : Nat) (epoch : String) (members : List Int) (gcEnabled : Int → Bool)
    (minimum : Int → Int) (ratio : Int → Rat) : World where
  sm := newStateMachine limit epoch
  members := members
  nodes n := ⟨gcEnabled n, minimum n, ratio n, false, .idle⟩

/-- Whenever a node has the version out of service, its minimum of other nodes serve it. -/
def Served (w : World) : Prop :=
  ∀ n, (w.nodes n).phase = .out → ∃ others : Finset Int,
    (w.nodes n).minimum ≤ others.card ∧ ∀ m ∈ others, m ≠ n ∧ (w.nodes m).serves = true

def reported (sm : StateMachine) : List Int :=
  match versionInRange sm kbID versionID with
  | .ok (some v) => v.indexReadyNodes
  | _ => []

/-- One node at a time: the check of a node passes only while no other node is between its own
check and its return to service, and all nodes that reported the index still have it; an index is
dropped only while no other node is. -/
def OneAtATime (w : World) : Action → Prop
  | .ask n => check kbID versionID w n = .cleared →
      (∀ m ∈ w.members, m ≠ n → (w.nodes m).phase = .idle) ∧
        ∀ m ∈ reported kbID versionID w.sm, m ≠ n → (w.nodes m).holds = true
  | .drop n => ∀ m ∈ w.members, m ≠ n → (w.nodes m).phase = .idle
  | _ => True

instance (w : World) (a : Action) : Decidable (OneAtATime kbID versionID w a) := by
  induction a using Action.casesOn <;> dsimp only [OneAtATime] <;> infer_instance

end Steps

/-- Nodes outside the cluster do nothing. -/
def Closed (w : World) : Prop :=
  ∀ n ∉ w.members, (w.nodes n).phase = .idle ∧ (w.nodes n).holds = false

/-- A node between its check and its return has its minimum of nodes that have the index and are
not so themselves. -/
structure Inv (w : World) : Prop where
  ready : ReadyAscending w.sm
  closed : Closed w
  backed : ∀ n, (w.nodes n).phase ≠ .idle → ∃ others : Finset Int,
    (w.nodes n).minimum ≤ others.card ∧
      ∀ m ∈ others, m ≠ n ∧ (w.nodes m).holds = true ∧ (w.nodes m).phase = .idle

variable {kbID : String} {versionID : Nat} {w w' : World}

lemma Inv.served (h : Inv w) : Served w := by
  intro n hout
  obtain ⟨others, hcard, hothers⟩ := h.backed n (by simp [hout])
  refine ⟨others, hcard, fun m hm => ?_⟩
  obtain ⟨hne, hholds, hidle⟩ := hothers m hm
  exact ⟨hne, by simp [Node.serves, hholds, hidle]⟩

variable {n : Int}

lemma Closed.setNode (h : Closed w) (hn : n ∈ w.members) (node : Node) :
    Closed (w.setNode n node) := by
  intro m hm
  have hne : m ≠ n := by
    rintro rfl
    exact hm hn
  dsimp only [World.setNode]
  rw [update_of_ne hne]
  exact h m hm

lemma Closed.mem_of_phase (h : Closed w) (hphase : (w.nodes n).phase ≠ .idle) : n ∈ w.members := by
  by_contra hn
  exact hphase (h n hn).1

variable {a : Action}

lemma Closed.step (h : Closed w) (hstep : w.step kbID versionID a = some w') : Closed w' := by
  cases a with
  | apply now cmd =>
    cases hstep
    exact h
  | build n | drop n | restart n =>
    obtain ⟨hn, ⟨⟩⟩ := ite_none_right_eq_some.mp hstep
    exact h.setNode hn _
  | ask n =>
    obtain ⟨⟨hn, -⟩, ⟨⟩⟩ := ite_none_right_eq_some.mp hstep
    exact h.setNode hn _
  | proceed n findings =>
    obtain ⟨hcleared, ⟨⟩⟩ := ite_none_right_eq_some.mp hstep
    exact h.setNode (h.mem_of_phase (by simp [hcleared])) _
  | done n =>
    obtain ⟨hout, ⟨⟩⟩ := ite_none_right_eq_some.mp hstep
    exact h.setNode (h.mem_of_phase (by simp [hout])) _

variable (limit : Nat) (epoch : String) (members : List Int) (gcEnabled : Int → Bool)
  (minimum : Int → Int) (ratio : Int → Rat)

lemma closed_init :
    Closed (World.init limit epoch members gcEnabled minimum ratio) := fun _ _ => ⟨rfl, rfl⟩

lemma inv_init : Inv (World.init limit epoch members gcEnabled minimum ratio) where
  ready := readyAscending_newStateMachine limit epoch
  closed := closed_init limit epoch members gcEnabled minimum ratio
  backed _ hphase := absurd rfl hphase

lemma versionInRange_ascending {sm : StateMachine} (hsm : ReadyAscending sm) {m : VersionMeta}
    (hm : versionInRange sm kbID versionID = .ok (some m)) :
    m.indexReadyNodes.Pairwise (· < ·) := by
  unfold versionInRange StateMachine.listVersionsInRange StateMachine.listVersions at hm
  cases hkb : sm.kbs kbID with
  | none =>
    rw [hkb] at hm
    cases hm
  | some kb =>
  rw [hkb] at hm
  have hmem := mem_of_find?_eq_some (Except.ok.inj hm)
  obtain ⟨id, -, rfl⟩ := mem_map.mp (mem_of_mem_filter hmem)
  rw [StateMachine.version]
  cases hm' : sm.versions id with
  | none => exact List.Pairwise.nil
  | some m' => exact hsm id m' hm'

lemma check_cleared (hsm : ReadyAscending w.sm) (hcheck : check kbID versionID w n = .cleared) :
    ∃ others : Finset Int, (w.nodes n).minimum ≤ others.card ∧
      ∀ m ∈ others, m ≠ n ∧ m ∈ reported kbID versionID w.sm := by
  unfold check at hcheck
  split at hcheck
  · cases hcheck
  next others hcount =>
  split at hcheck
  · cases hcheck
  next hmin =>
  unfold indexReadyReplicaCount at hcount
  split at hcount
  · cases hcount
  split at hcount
  · cases hcount
  · cases hcount
  next m hm =>
  cases hcount
  have hasc := versionInRange_ascending hsm hm
  refine ⟨(m.indexReadyNodes.filter (· ≠ n)).toFinset, ?_, fun x hx => ?_⟩
  · have hnodup : (m.indexReadyNodes.filter (· ≠ n)).Nodup :=
      (hasc.imp ne_of_lt).filter _
    rw [toFinset_card_of_nodup hnodup, ← countP_eq_length_filter]
    exact not_lt.mp hmin
  rw [List.mem_toFinset, mem_filter] at hx
  refine ⟨of_decide_eq_true hx.2, ?_⟩
  rw [reported, hm]
  exact hx.1

/-- One node changes. The sets that back the other nodes may count on it as before, and it is
backed itself. -/
lemma Inv.setNode (h : Inv w) {node : Node} (hn : n ∈ w.members)
    (hkeep : ∀ m, m ≠ n → (w.nodes m).phase ≠ .idle → (w.nodes n).holds = true → (w.nodes n).phase
      = .idle → node.holds = true ∧ node.phase = .idle)
    (hself : node.phase ≠ .idle → ∃ others : Finset Int, node.minimum ≤ others.card ∧ ∀ m ∈ others,
      m ≠ n ∧ (w.nodes m).holds = true ∧ (w.nodes m).phase = .idle) : Inv (w.setNode n node) := by
  refine ⟨h.ready, h.closed.setNode hn node, fun m hphase => ?_⟩
  dsimp only [World.setNode] at hphase ⊢
  by_cases hmn : m = n
  · subst hmn
    rw [update_self] at hphase ⊢
    obtain ⟨others, hcard, hothers⟩ := hself hphase
    refine ⟨others, hcard, fun k hk => ?_⟩
    rw [update_of_ne (hothers k hk).1]
    exact hothers k hk
  rw [update_of_ne hmn] at hphase ⊢
  obtain ⟨others, hcard, hothers⟩ := h.backed m hphase
  refine ⟨others, hcard, fun k hk => ?_⟩
  obtain ⟨hkm, hholds, hidle⟩ := hothers k hk
  refine ⟨hkm, ?_⟩
  by_cases hkn : k = n
  · subst hkn
    rw [update_self]
    exact hkeep m hmn hphase hholds hidle
  · rw [update_of_ne hkn]
    exact ⟨hholds, hidle⟩

lemma Inv.ask (h : Inv w) (hn : n ∈ w.members) (hok : OneAtATime kbID versionID w (.ask n)) :
    Inv (w.setNode n { w.nodes n with phase := check kbID versionID w n }) := by
  cases hcheck : check kbID versionID w n with
  | idle =>
    refine h.setNode hn (fun m _ _ hholds _ => ⟨hholds, rfl⟩) fun hphase => ?_
    exact absurd rfl hphase
  | cleared =>
    obtain ⟨halone, htrue⟩ := hok hcheck
    have hidle (m : Int) (hm : m ≠ n) : (w.nodes m).phase = .idle := by
      by_contra hphase
      exact hphase (halone m (h.closed.mem_of_phase hphase) hm)
    refine h.setNode hn (fun m hm hphase _ _ => absurd (hidle m hm) hphase) fun _ => ?_
    obtain ⟨others, hcard, hothers⟩ := check_cleared h.ready hcheck
    refine ⟨others, hcard, fun m hm => ?_⟩
    obtain ⟨hne, hreported⟩ := hothers m hm
    exact ⟨hne, htrue m hreported hne, hidle m hne⟩
  | out =>
    unfold check at hcheck
    split at hcheck
    · cases hcheck
    · split at hcheck <;> cases hcheck

lemma Inv.step (h : Inv w) (hok : OneAtATime kbID versionID w a)
    (hstep : w.step kbID versionID a = some w') : Inv w' := by
  cases a with
  | apply now cmd =>
    cases hstep
    exact ⟨h.ready.apply now cmd, h.closed, h.backed⟩
  | build n =>
    obtain ⟨hn, ⟨⟩⟩ := ite_none_right_eq_some.mp hstep
    exact h.setNode hn (fun _ _ _ _ hidle => ⟨rfl, hidle⟩) (h.backed n)
  | drop n =>
    obtain ⟨hn, ⟨⟩⟩ := ite_none_right_eq_some.mp hstep
    refine h.setNode hn (fun m hm hphase _ _ => ?_) (h.backed n)
    exact absurd (hok m (h.closed.mem_of_phase hphase) hm) hphase
  | ask n =>
    obtain ⟨⟨hn, -⟩, ⟨⟩⟩ := ite_none_right_eq_some.mp hstep
    exact h.ask hn hok
  | proceed n findings =>
    obtain ⟨hcleared, ⟨⟩⟩ := ite_none_right_eq_some.mp hstep
    have hphase : (w.nodes n).phase ≠ .idle := by simp [hcleared]
    refine h.setNode (h.closed.mem_of_phase hphase)
      (fun _ _ _ _ hidle => absurd hidle hphase) fun _ => ?_
    exact h.backed n hphase
  | done n =>
    obtain ⟨hout, ⟨⟩⟩ := ite_none_right_eq_some.mp hstep
    have hphase : (w.nodes n).phase ≠ .idle := by simp [hout]
    refine h.setNode (h.closed.mem_of_phase hphase)
      (fun _ _ _ hholds _ => ⟨hholds, rfl⟩) fun hidle => ?_
    exact absurd rfl hidle
  | restart n =>
    obtain ⟨hn, ⟨⟩⟩ := ite_none_right_eq_some.mp hstep
    refine h.setNode hn (fun _ _ _ hholds _ => ⟨hholds, rfl⟩) fun hidle => ?_
    exact absurd rfl hidle

/-- In a run in which the nodes collect one at a time, a version that is out of service on a node
is served by its minimum of others. -/
theorem served_of_oneAtATime (kbID : String) (versionID limit : Nat) (epoch : String)
    (members : List Int) (gcEnabled : Int → Bool) (minimum : Int → Int) (ratio : Int → Rat)
    {w : World} (hreach : Reach (World.step kbID versionID) (OneAtATime kbID versionID)
      (World.init limit epoch members gcEnabled minimum ratio) w) : Served w := by
  have hinv : Inv w := hreach.invariant _ (inv_init limit epoch members gcEnabled minimum ratio)
    fun _ _ _ _ h hok hstep => h.step hok hstep
  exact hinv.served

def cluster : World :=
  .init 8 "epoch" [1, 2, 3] (fun _ => true) (fun _ => 0) fun _ => 0

def rolledOut : List Action :=
  [.apply 0 (.createKB { kbID := "kb" }), .apply 0 (.createVersion "kb" 0 ""),
    .build 1, .build 2, .build 3, .apply 0 (.updateVersionStatus 1 .ready 1),
    .apply 0 (.updateVersionStatus 1 .ready 2), .apply 0 (.updateVersionStatus 1 .ready 3)]

def worthwhile : Findings := ⟨some 1, some true, 1, some true, true⟩

theorem served_in_turn : ∃ w, Reach (World.step "kb" 1) (OneAtATime "kb" 1) cluster w ∧
    (w.nodes 2).phase = .out ∧ Served w := by
  have hrun : (run (World.step "kb" 1) (OneAtATime "kb" 1) cluster (rolledOut ++
      [Action.ask 1, .proceed 1 worthwhile, .done 1, .drop 1, .build 1, .ask 2,
        .proceed 2 worthwhile])).any (fun w : World => decide ((w.nodes 2).phase = .out)) = true := by
    decide +kernel
  obtain ⟨w, hreach, hw⟩ := Reach.exists_of_run hrun
  exact ⟨w, hreach, of_decide_eq_true hw, served_of_oneAtATime "kb" 1 8 "epoch" [1, 2, 3]
    (fun _ => true) (fun _ => 0) (fun _ => 0) hreach⟩

/-- Each of the three counts the other two before any of them has stepped out. -/
theorem all_out_at_once : ∃ w, Reachable (World.step "kb" 1) cluster w ∧
    (∀ n ∈ [1, 2, 3], (w.nodes n).phase = .out) ∧ (∀ m, (w.nodes m).serves = false) ∧
      ¬Served w := by
  obtain ⟨w, hreach, hmembers, hminimum, hout⟩ : ∃ w : World,
      Reachable (World.step "kb" 1) cluster w ∧
        w.members = [1, 2, 3] ∧
        (w.nodes 1).minimum = 1 ∧ ∀ n ∈ w.members, (w.nodes n).phase = .out :=
    Reach.exists_decide (rolledOut ++ [Action.ask 1, .ask 2, .ask 3, .proceed 1 worthwhile,
      .proceed 2 worthwhile, .proceed 3 worthwhile]) (by decide +kernel)
  have hclosed : Closed w := hreach.invariant Closed (closed_init _ _ _ _ _ _)
    fun _ _ _ _ h _ hstep => h.step hstep
  have hnone (m : Int) : (w.nodes m).serves = false := by
    by_cases hm : m ∈ w.members
    · simp [Node.serves, hout m hm]
    · simp [Node.serves, (hclosed m hm).2]
  refine ⟨w, hreach, fun n hn => hout n (hmembers ▸ hn), hnone, fun hserved => ?_⟩
  obtain ⟨others, hcard, hothers⟩ := hserved 1 (hout 1 (by simp [hmembers]))
  rw [hminimum] at hcard
  obtain ⟨m, hm⟩ := Finset.card_pos.mp hcard
  exact absurd (hothers m hm).2 (by simp [hnone m])

end stratum.index.rolling
