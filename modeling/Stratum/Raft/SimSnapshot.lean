import Stratum.Raft.SimTransport

open stratum.lib stratum.kvraft List

namespace stratum.raft

open Node Raft

variable {σ : Type} {machine : StateMachine σ} {cluster : Cluster} {h : RunHistory} {u : NodeId}
  {w : World σ} {nd' : Node σ} {out : List (Msg σ)}

lemma ItemsSim.send {nd : Node σ} (msg : ApplyMsg σ) (hitems : ItemsSim cluster h nd)
    (hok : ApplyMsgOk cluster h nd.rf.term nd.rf.lastApplied msg)
    (hentry : ∀ e, msg = .entry e → EntryOk cluster h e) : ItemsSim cluster h
      { nd with applyCh := nd.applyCh ++ [msg], history := nd.history ++ [msg] } := by
  refine { hitems with applyCh := fun msg' hmsg' => ?_, history := fun e he => ?_ }
  · obtain hmsg' | hmsg' := mem_append.mp hmsg'
    · exact hitems.applyCh msg' hmsg'
    rw [mem_singleton] at hmsg'
    subst hmsg'
    exact hok
  · obtain he | he := mem_append.mp he
    · exact hitems.history e he
    · exact hentry e (mem_singleton.mp he).symm

variable [DecidableEq σ] (hsim : Sim cluster h w) (hu : u ∈ cluster.members)

include hsim hu

variable {t : Transfer σ}

lemma transferStep_sim
    (hstep : (w.nodes u).step machine cluster w.net (.transferStep t) = some (nd', out)) :
    ∃ h', StepSim cluster h h' u (w.nodes u) nd' out := by
  have hraft := hsim.nodes u hu
  have hitems := hsim.items u hu
  -- A stage that is not sent yet takes the place of the one before it.
  have hnext : ∀ {next : Transfer σ}, TransferOk cluster h (w.nodes u).rf.term next →
      ItemsSim cluster h { w.nodes u with transfers := next :: (w.nodes u).transfers.erase t } := by
    intro next hok
    refine { hitems with transfers := fun t' ht' => ?_ }
    obtain rfl | ht' := mem_cons.mp ht'
    · exact hok
    · exact hitems.transfers t' (mem_of_mem_erase ht')
  cases stepped hstep with
  | @load p i s ht =>
    have hok : SnapshotOk cluster h (w.nodes u).rf.term i s := hitems.transfers _ ht
    refine ⟨h, .same hsim hu rfl rfl rfl hraft (hnext ?_) nofun⟩
    obtain ⟨data, heq⟩ | heq := snapshotHandler_cases (w.nodes u) p i s
    all_goals
      rw [heq]
      exact hok
  | encode ht =>
    have hok := hitems.transfers _ ht
    exact ⟨h, .same hsim hu rfl rfl rfl hraft (hnext hok) nofun⟩
  | @send p req ht hterm =>
    have hok : SnapshotOk cluster h (w.nodes u).rf.term _ _ := hitems.transfers _ ht
    refine ⟨h, .same hsim hu rfl rfl rfl hraft (hnext hok) fun msg hmsg => ?_⟩
    rw [mem_singleton] at hmsg
    subst hmsg
    change SnapshotOk cluster h req.term _ _
    rwa [hterm]

lemma transferFailed_sim
    (hstep : (w.nodes u).step machine cluster w.net (.transferFailed t) = some (nd', out)) :
    ∃ h', StepSim cluster h h' u (w.nodes u) nd' out := by
  cases stepped hstep
  have hframe := (hsim.items u hu).frame ((w.nodes u).rf.resetSnapshotPending t.peer) .refl
    le_rfl le_rfl le_rfl
  refine ⟨h, .same hsim hu rfl rfl rfl ((hsim.nodes u hu).congr rfl rfl rfl rfl rfl rfl rfl rfl rfl)
    { hframe with transfers := fun t' ht' => ?_ } nofun⟩
  exact hframe.transfers t' (mem_of_mem_erase ht')

/-- The response to a transfer. The peer is taken to hold everything up to the label,
which is committed whether the peer installed it or not. -/
lemma snapshotResponse_sim {p : NodeId} {req : InstallSnapshotRequest σ}
    {resp : InstallSnapshotResponse}
    (hstep : (w.nodes u).step machine cluster w.net (.snapshotResponse p req resp) =
      some (nd', out)) : ∃ h', StepSim cluster h h' u (w.nodes u) nd' out := by
  cases stepped hstep with
  | snapshotResponse hsent =>
  have hraft := hsim.nodes u hu
  have hitems := hsim.items u hu
  have hok : SnapshotOk cluster h (w.nodes u).rf.term req.lastIncludedIndex
    req.lastIncludedTerm := hitems.transfers _ hsent
  unfold Raft.snapshotResponse
  split
  · next hlt =>
    have hcont : Continues h (h.setTerm u resp.term) :=
      .setTerm (by rw [hraft.term]; exact le_of_lt hlt)
    have hframe := hitems.frame (((w.nodes u).rf.stepDown resp.term).resetSnapshotPending p) hcont
      (le_of_lt hlt) le_rfl le_rfl
    have hnode : RaftSim cluster (h.setTerm u resp.term) u
        (((w.nodes u).rf.stepDown resp.term).resetSnapshotPending p) :=
      (RaftSim.stepDown hsim hu hlt).congr rfl rfl rfl rfl rfl rfl rfl rfl rfl
    refine ⟨_, .later hsim hu hlt rfl rfl rfl hnode { hframe with transfers := fun t ht => ?_ }
      nofun⟩
    exact hframe.transfers t (mem_of_mem_erase ht)
  · have hframe := hitems.frame ((w.nodes u).rf.snapshotDone p req.lastIncludedIndex) .refl
      le_rfl le_rfl le_rfl
    refine ⟨h, .same hsim hu rfl rfl rfl (hraft.record (.inr hok.covered) _ _)
      { hframe with transfers := fun t ht => ?_ } nofun⟩
    exact hframe.transfers t (mem_of_mem_erase ht)

lemma installSnapshot_sim {req : InstallSnapshotRequest σ}
    (hstep : (w.nodes u).step machine cluster w.net (.installSnapshot req) = some (nd', out)) :
    ∃ h', StepSim cluster h h' u (w.nodes u) nd' out := by
  cases stepped hstep with
  | @answerInstall _ rf' resp hinstall =>
    have hnet (h' : RunHistory) : ∀ msg ∈ [Msg.installResponse (w.nodes u).rf.me req resp],
        MsgOk cluster h' msg := by
      intro msg hmsg
      rw [mem_singleton] at hmsg
      subst hmsg
      trivial
    obtain ⟨rfl, -⟩ | ⟨hle, rfl⟩ := installSnapshot_spec hinstall
    · exact ⟨h, .same hsim hu rfl rfl rfl (hsim.nodes u hu) (hsim.items u hu) (hnet h)⟩
    · exact ⟨_, .followed hsim hu hle rfl (ItemsSim.follow req.leaderId hsim hu hle) (hnet _)⟩
  | install hmsg hinstall =>
    have hok : SnapshotOk cluster h req.term _ _ := hsim.net _ hmsg
    obtain ⟨-, ⟨⟩⟩ | ⟨hle, rfl⟩ := installSnapshot_spec hinstall
    have hframe := ItemsSim.follow req.leaderId hsim hu hle
    refine ⟨_, .followed hsim hu hle rfl { hframe with installs := fun inst hinst => ?_ }
      nofun⟩
    obtain rfl | hinst := mem_cons.mp hinst
    · have hext : History.Extends Entry.term h (h.setTerm u req.term) :=
        History.setTerm_extends (by rw [(hsim.nodes u hu).term]; exact hle)
      refine hok.mono hext ?_
      rw [follow_term req.leaderId hle]
    · exact hframe.installs inst hinst

lemma handOff_sim {inst : PendingInstall σ}
    (hstep : (w.nodes u).step machine cluster w.net (.handOff inst) = some (nd', out)) :
    ∃ h', StepSim cluster h h' u (w.nodes u) nd' out := by
  cases stepped hstep with
  | handOff hinst hmsg =>
  subst hmsg
  have hitems := hsim.items u hu
  have hsend := hitems.send (.snapshot inst.req.data inst.req.lastIncludedIndex
    inst.req.lastIncludedTerm) (hitems.installs inst hinst) nofun
  refine ⟨h, .same hsim hu rfl rfl rfl (hsim.nodes u hu)
    { hsend with installs := fun inst' hinst' => hitems.installs inst' (mem_of_mem_erase hinst') }
    fun msg hmsg => ?_⟩
  rw [mem_singleton] at hmsg
  subst hmsg
  trivial

end stratum.raft
