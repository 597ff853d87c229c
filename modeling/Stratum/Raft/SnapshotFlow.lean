import Stratum.Raft.Steps

open stratum.kvraft List

namespace stratum.raft

variable {σ : Type} [DecidableEq σ] {machine : StateMachine σ} {cluster : Cluster}
  {net out : List (Msg σ)} {nd nd' : Node σ} {act : Action σ}

/-- What a step does to the snapshots under way: a transfer is started at the base of the log,
fetched from the handler, encoded or sent, the consumer may write into a copy, and a handler
takes in a request from the network. -/
structure SnapshotStep (machine : StateMachine σ) (net : List (Msg σ)) (nd : Node σ)
    (act : Action σ) (nd' : Node σ) (out : List (Msg σ)) : Prop where
  transfers : ∀ t ∈ nd'.transfers, t ∈ nd.transfers ∨
    (∃ p, t = .chosen p nd.rf.log.base.index nd.rf.log.base.term) ∨
    (∃ p i s, act = .transferStep (.chosen p i s) ∧ .chosen p i s ∈ nd.transfers ∧
      t = nd.snapshotHandler p i s) ∨
    (∃ p i s data, .copied p i s data ∈ nd.transfers ∧ t = .loaded p i s data) ∨
    (∃ msg rest, act = .consume ∧ nd.applyCh = msg :: rest ∧
      t ∈ (Node.handleMsg machine nd msg).transfers) ∨
    ∃ p req, .loaded p req.lastIncludedIndex req.lastIncludedTerm req.data ∈ nd.transfers ∧
      req.term = nd.rf.term ∧ req.leaderId = nd.rf.me ∧ t = .sent p req
  installs : ∀ inst ∈ nd'.installs, inst ∈ nd.installs ∨ Msg.installSnapshot nd.rf.me inst.req ∈ net
  sent : ∀ p req, Msg.installSnapshot p req ∈ out →
    .loaded p req.lastIncludedIndex req.lastIncludedTerm req.data ∈ nd.transfers ∧
      req.term = nd.rf.term ∧ req.leaderId = nd.rf.me

omit [DecidableEq σ] in
/-- Most steps move no snapshot at all, or only drop one. -/
lemma SnapshotStep.of_subset (htransfers : nd'.transfers ⊆ nd.transfers)
    (hinstalls : nd'.installs ⊆ nd.installs) (hout : ∀ p req, Msg.installSnapshot p req ∉ out) :
    SnapshotStep machine net nd act nd' out where
  transfers := fun _ ht => .inl (htransfers ht)
  installs := fun _ hinst => .inl (hinstalls hinst)
  sent := fun p req hmsg => absurd hmsg (hout p req)

omit [DecidableEq σ] in
lemma SnapshotStep.of_same (htransfers : nd'.transfers = nd.transfers)
    (hinstalls : nd'.installs = nd.installs) (hout : ∀ p req, Msg.installSnapshot p req ∉ out) :
    SnapshotStep machine net nd act nd' out :=
  .of_subset (fun _ ht => htransfers ▸ ht) (fun _ hinst => hinstalls ▸ hinst) hout

lemma Node.step_snapshots (hstep : nd.step machine cluster net act = some (nd', out)) :
    SnapshotStep machine net nd act nd' out := by
  cases stepped hstep with
  | @choose p _ _ _ hleader hround =>
    obtain ⟨-, heq⟩ | ⟨-, heq⟩ | ⟨next, req, -, -, -, heq⟩ := Raft.replicateToPeer_spec hleader hround
    · cases heq
    · cases heq
      refine ⟨fun t' ht' => ?_, fun _ hinst => .inl hinst, by simp⟩
      obtain rfl | ht' := mem_cons.mp ht'
      · exact .inr (.inl ⟨p, rfl⟩)
      · exact .inl ht'
    · cases heq
  | @load p i s ht =>
    refine ⟨fun t' ht' => ?_, fun _ hinst => .inl hinst, by simp⟩
    obtain rfl | ht' := mem_cons.mp ht'
    · exact .inr (.inr (.inl ⟨p, i, s, rfl, ht, rfl⟩))
    · exact .inl (mem_of_mem_erase ht')
  | @encode p i s data ht =>
    refine ⟨fun t' ht' => ?_, fun _ hinst => .inl hinst, by simp⟩
    obtain rfl | ht' := mem_cons.mp ht'
    · exact .inr (.inr (.inr (.inl ⟨p, i, s, data, ht, rfl⟩)))
    · exact .inl (mem_of_mem_erase ht')
  | @send p req ht hterm hme =>
    refine ⟨fun t' ht' => ?_, fun _ hinst => .inl hinst, fun p' req' hmsg => ?_⟩
    · obtain rfl | ht' := mem_cons.mp ht'
      · exact .inr (.inr (.inr (.inr (.inr ⟨p, req, ht, hterm, hme, rfl⟩))))
      · exact .inl (mem_of_mem_erase ht')
    · cases mem_singleton.mp hmsg
      exact ⟨ht, hterm, hme⟩
  | transferFailed | snapshotResponse =>
    exact .of_subset (fun _ => mem_of_mem_erase) (fun _ => id) (by simp)
  | install hmsg =>
    refine ⟨fun _ ht => .inl ht, fun inst hinst => ?_, by simp⟩
    obtain rfl | hinst := mem_cons.mp hinst
    · exact .inr hmsg
    · exact .inl hinst
  | handOff => exact .of_subset (fun _ => id) (fun _ => mem_of_mem_erase) (by simp)
  | @consume msg rest _ hch =>
    refine ⟨fun t ht => .inr (.inr (.inr (.inr (.inl ⟨msg, rest, rfl, hch, ?_⟩)))),
      fun inst hinst => .inl ?_, by simp⟩
    all_goals cases msg with
    | entry | snapshotRequest | snapshot => assumption
  | restart | crashInHandler => exact .of_subset (nil_subset _) (nil_subset _) (by simp)
  | _ => exact .of_same rfl rfl (by simp)

end stratum.raft
