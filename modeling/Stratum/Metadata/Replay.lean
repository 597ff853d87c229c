import Stratum.Metadata.Effect

namespace stratum.metadata

open StateMachine List

/-- What a node brings to a replay of the log: its clock at the moment it applies the
command at each position, and the epoch its random source gave it at the start. -/
structure Env where
  clock : Nat → Int
  epoch : String

/-- The answer of an incremental read of the deletion log. -/
structure Deletions where
  entries : List DeletedVersion
  latest : Nat
  oldest : Nat
  epoch : String
deriving DecidableEq

/-- The deletions after `afterSeq`, at most `limit` of them when `limit` is positive, with
the bounds and the identity of the log. -/
def StateMachine.deletionsSince (sm : StateMachine) (afterSeq : Int) (limit : Nat) : Deletions :=
  let newer := sm.deletedLog.filter fun entry => afterSeq < entry.seq
  { entries :=
      if sm.deletedSeq ≤ afterSeq then []
      else if 0 < limit then newer.take limit
      else newer
    latest := sm.deletedSeq
    oldest := (sm.deletedLog.head?.map (·.seq)).getD 0
    epoch := sm.deletedEpoch }

/-- Applies the commands in order, the first at position `n` of the log. -/
def StateMachine.replayFrom (clock : Nat → Int) : Nat → StateMachine → List Command → StateMachine
  | _, sm, [] => sm
  | n, sm, cmd :: cmds => replayFrom clock (n + 1) (sm.apply (clock n) cmd).1 cmds

/-- The state of a freshly started node that has applied `cmds`. -/
def replay (limit : Nat) (env : Env) (cmds : List Command) : StateMachine :=
  (newStateMachine limit env.epoch).replayFrom env.clock 0 cmds

namespace StateMachine

variable (clock : Nat → Int)

lemma replayFrom_append (n : Nat) (sm : StateMachine) (xs ys : List Command) :
    sm.replayFrom clock n (xs ++ ys) =
      (sm.replayFrom clock n xs).replayFrom clock (n + xs.length) ys := by
  induction xs generalizing n sm with
  | nil => rfl
  | cons cmd xs ih =>
    simp only [cons_append, replayFrom, length_cons, ih]
    rw [Nat.add_right_comm, Nat.add_assoc]

lemma replayFrom_congr {c c' : Nat → Int} {n : Nat} (hclock : ∀ m, n ≤ m → c m = c' m)
    (sm : StateMachine) (cmds : List Command) :
    sm.replayFrom c n cmds = sm.replayFrom c' n cmds := by
  induction cmds generalizing n sm with
  | nil => rfl
  | cons cmd cmds ih =>
    simp only [replayFrom, hclock n n.le_refl]
    exact ih (fun m hm => hclock m (Nat.le_of_succ_le hm)) _

lemma replayFrom_createKB (n k : Nat) (sm : StateMachine) {kb : KnowledgeBaseMeta}
    (hstatus : kb.status = .active) :
    sm.replayFrom clock n (replicate (k + 1) (Command.createKB kb)) = sm.setKB kb.kbID kb := by
  have happly : ∀ (sm : StateMachine) (now : Int),
      (sm.apply now (.createKB kb)).1 = sm.setKB kb.kbID kb := by
    intro sm now
    cases kb
    cases hstatus
    rfl
  induction k generalizing n sm with
  | zero => exact happly sm (clock n)
  | succ k ih =>
    rw [replicate_succ]
    simp only [replayFrom, happly, ih]
    simp [setKB]

end StateMachine

lemma replay_eq_of_agree {a b : Env} (hepoch : a.epoch = b.epoch)
    (hclock : ∀ n, 0 < n → a.clock n = b.clock n) (limit : Nat) (cmds : List Command) :
    replay limit a cmds = replay limit b cmds := by
  cases cmds with
  | nil => simp only [replay, replayFrom, hepoch]
  | cons cmd cmds =>
    -- the first command meets no knowledge base: the clock it reads is in neither state
    simp only [replay, hepoch]
    exact replayFrom_congr hclock _ _

lemma replayFrom_wellFormed (clock : Nat → Int) (n : Nat) {sm : StateMachine}
    (hwf : WellFormed sm) (hasc : Ascending sm) (cmds : List Command) :
    WellFormed (sm.replayFrom clock n cmds) ∧ Ascending (sm.replayFrom clock n cmds) := by
  induction cmds generalizing n sm with
  | nil => exact ⟨hwf, hasc⟩
  | cons cmd cmds ih => exact ih (n + 1) (hwf.apply _ cmd) (hasc.apply hwf _ cmd)

lemma replay_wellFormed (limit : Nat) (env : Env) (cmds : List Command) :
    WellFormed (replay limit env cmds) ∧ Ascending (replay limit env cmds) :=
  replayFrom_wellFormed env.clock 0 (wellFormed_newStateMachine limit env.epoch)
    (ascending_newStateMachine limit env.epoch) cmds

/-- Two freshly started nodes hold the same state and answer every read of the deletion log
alike after every sequence of commands exactly when their random sources gave them the same
epoch and their clocks read the same second whenever they apply the same command, the very
first one excepted. -/
theorem replay_agree_iff (limit : Nat) (a b : Env) :
    (∀ cmds, replay limit a cmds = replay limit b cmds ∧
      ∀ afterSeq page, (replay limit a cmds).deletionsSince afterSeq page =
        (replay limit b cmds).deletionsSince afterSeq page) ↔
      a.epoch = b.epoch ∧ ∀ n, 0 < n → a.clock n = b.clock n := by
  constructor
  · intro hagree
    refine ⟨congrArg deletedEpoch (hagree []).1, ?_⟩
    intro n hn
    -- A version created at position `n` carries the reading of that position.
    obtain ⟨k, rfl⟩ := Nat.exists_eq_succ_of_ne_zero (Nat.pos_iff_ne_zero.mp hn)
    let kb : KnowledgeBaseMeta := { kbID := "kb" }
    have hcreated : ∀ env : Env,
        ((replay limit env (replicate (k + 1) (Command.createKB kb) ++
          [Command.createVersion "kb" 0 ""])).versions 1).map (·.createdAt) = some (env.clock (k + 1)) := by
      intro env
      rw [replay, replayFrom_append, replayFrom_createKB _ _ _ _ rfl,
        length_replicate, Nat.zero_add]
      simp [replayFrom, apply, applyCreateVersion, setKB, kb, requestedVersion, parentRefused,
        allocateVersion, newStateMachine]
    have hsame := hcreated a
    rw [(hagree _).1, hcreated b] at hsame
    exact (Option.some.inj hsame).symm
  · rintro ⟨hepoch, hclock⟩ cmds
    have heq := replay_eq_of_agree hepoch hclock limit cmds
    exact ⟨heq, fun afterSeq page => by rw [heq]⟩

/-- A node whose clock shows `second` while it applies the log. -/
def nodeAt (second : Int) (epoch : String) : Env := { clock := fun _ => second, epoch }

def firstVersion : List Command :=
  [.createKB { kbID := "kb" }, .createVersion "kb" 0 "request"]

/-- Two nodes that apply the same two commands, one second apart and with their own random
epochs, end up with different metadata for version `1` and answer the same read of the
deletion log differently. -/
theorem replay_disagree :
    (replay 0 (nodeAt 1700000000 "5e1f0a9c3b7d2e84") firstVersion).versions 1 ≠
      (replay 0 (nodeAt 1700000001 "c04a77d1e9b35f26") firstVersion).versions 1 ∧
    (replay 0 (nodeAt 1700000000 "5e1f0a9c3b7d2e84") firstVersion).deletionsSince 0 100 ≠
      (replay 0 (nodeAt 1700000001 "c04a77d1e9b35f26") firstVersion).deletionsSince 0 100 := by
  decide +kernel

end stratum.metadata
