import Stratum.Raft.ApplyStream

open stratum.kvraft

namespace stratum.raft

open Raft

variable {σ : Type}

/-- The actions of the apply loop, the consumer, the local snapshots and a crash. -/
def Action.applySide : Action σ → Bool
  | .handOff _ | .applyStep | .consume | .installDone | .jobStep _ | .restart
  | .crashInHandler _ => true
  | _ => false

def Action.crashes : Action σ → Bool
  | .restart | .crashInHandler _ => true
  | _ => false

/-- What the other actions leave alone. -/
structure NodeFrame (nd nd' : Node σ) : Prop where
  rf : Raft.ApplyFrame nd.rf nd'.rf
  applyPc : nd'.applyPc = nd.applyPc
  applyCh : nd'.applyCh = nd.applyCh
  sm : nd'.sm = nd.sm
  installing : nd'.installing = nd.installing
  jobs : nd'.jobs = nd.jobs
  history : nd'.history = nd.history
  bootIndex : nd'.bootIndex = nd.bootIndex
  bootState : nd'.bootState = nd.bootState
  consumed : nd'.consumed = nd.consumed

lemma NodeFrame.of_rest {nd nd' : Node σ} (hrf : Raft.ApplyFrame nd.rf nd'.rf)
    (hrest : nd' = { nd with
      rf := nd'.rf, electing := nd'.electing, ballots := nd'.ballots, calls := nd'.calls
      transfers := nd'.transfers, installs := nd'.installs }) : NodeFrame nd nd' := by
  refine ⟨hrf, ?_, ?_, ?_, ?_, ?_, ?_, ?_, ?_, ?_⟩
  all_goals rw [hrest]

/-- Calls on the network carry consecutive entries. -/
def CallsIndexed (net : List (Msg σ)) : Prop :=
  ∀ p req, Msg.appendEntries p req ∈ net → Consecutive req.prevLogIndex req.entries

variable [DecidableEq σ] {machine : StateMachine σ} {cluster : Cluster} {net out : List (Msg σ)}
  {nd nd' : Node σ} {act : Action σ}

lemma Node.step_frame (hnet : CallsIndexed net) (hquiet : act.applySide = false)
    (hstep : nd.step machine cluster net act = some (nd', out)) : NodeFrame nd nd' := by
  cases stepped hstep with
  | startElection | transferFailed => exact .of_rest (.of_log rfl rfl rfl rfl rfl) rfl
  | elected => exact .of_rest nd.rf.becomeLeaderLocked_applyFrame rfl
  | sendVoteRequest | idle | load | encode | send => exact .of_rest (.refl _) rfl
  | requestVote _ hvote => exact .of_rest (requestVote_applyFrame hvote) rfl
  | voteResponse _ _ _ hvote => exact .of_rest (voteResponse_applyFrame hvote) rfl
  | propose => exact .of_rest (nd.rf.appendEntryLocked_applyFrame _) rfl
  | heartbeat hleader hround | choose hleader hround | append hleader hround =>
    exact .of_rest (replicateToPeer_applyFrame hleader hround).1 rfl
  | appendEntries hmsg happend =>
    exact .of_rest (appendEntries_applyFrame happend (hnet _ _ hmsg)) rfl
  | appendResponse => exact .of_rest (nd.rf.applyAppendResponse_applyFrame _ _ _) rfl
  | snapshotResponse => exact .of_rest (nd.rf.snapshotResponse_applyFrame _ _ _) rfl
  | answerInstall hinstall | install _ hinstall =>
    exact .of_rest (installSnapshot_applyFrame hinstall) rfl
  | _ => cases hquiet

/-- Both ways to start over find the state a process had in memory on its files. -/
lemma Node.crash_inv (hcrash : act.crashes = true)
    (hstep : nd.step machine cluster net act = some (nd', out)) :
    ∃ rf' : Raft σ, (nd.rf.Saved → rf'.Saved) ∧ rf'.log = nd.rf.log ∧
      rf'.persister.snapshot = nd.rf.persister.snapshot ∧
      nd' = ({ nd with rf := rf' } : Node σ).restart machine cluster := by
  cases stepped hstep with
  | restart => exact ⟨nd.rf, id, rfl, rfl, rfl⟩
  | @crashInHandler _ _ term _ hrf' =>
    obtain ⟨req, -, -, rfl⟩ | ⟨req, -, -, rfl⟩ := hrf'
    · exact ⟨nd.rf.stepDown term, fun _ => persist_saved _, rfl, rfl, rfl⟩
    · exact ⟨nd.rf.adoptTerm term, fun _ => persist_saved _, rfl, rfl, rfl⟩
  | _ => cases hcrash

omit [DecidableEq σ] in
lemma trimTo_indexed {rf rf' : Raft σ} {i : Nat} (htrim : rf.trimTo i = some rf')
    (hlog : rf.log.Indexed) : rf'.log.Indexed := by
  obtain ⟨entry, hentry, rfl⟩ := trimTo_spec htrim
  exact hlog.compactAt _ ((rf.log.logEntry_isSome_iff i).mp (by rw [hentry]; rfl)).1

/-- What a step does to the channel of a process, to its log and to what it has applied. -/
inductive Node.Moved (machine : StateMachine σ) (cluster : Cluster) (nd : Node σ) :
    Action σ → Node σ → Prop
  | framed (act : Action σ) (nd' : Node σ) (hframe : NodeFrame nd nd') :
      Moved machine cluster nd act nd'
  | handedOff (inst : PendingInstall σ) (msg : ApplyMsg σ) (hinst : inst ∈ nd.installs)
      (hmsg : msg = .snapshot inst.req.data inst.req.lastIncludedIndex inst.req.lastIncludedTerm) :
      Moved machine cluster nd (.handOff inst) { nd with
        applyCh := nd.applyCh ++ [msg]
        history := nd.history ++ [msg]
        installs := nd.installs.erase inst }
  | looped (rf' : Raft σ) (pc : Raft.ApplyPc)
      (hloop : nd.applyPc = .top ∧ nd.rf.applyLoopTop = some (rf', pc) ∨
        nd.applyPc = .inner ∧ nd.rf.applyLoopInner = some (rf', pc)) :
      Moved machine cluster nd .applyStep { nd with rf := rf', applyPc := pc }
  | sent (msg : ApplyMsg σ) (pc : Raft.ApplyPc)
      (hsent : (∃ e, nd.applyPc = .sending e ∧ msg = .entry e ∧ pc = .inner) ∨
        ∃ r, nd.applyPc = .requesting r ∧ msg = .snapshotRequest r ∧ pc = .top) :
      Moved machine cluster nd .applyStep { nd with
        applyCh := nd.applyCh ++ [msg], history := nd.history ++ [msg], applyPc := pc }
  | consumed (msg : ApplyMsg σ) (rest : List (ApplyMsg σ)) (hch : nd.applyCh = msg :: rest) :
      Moved machine cluster nd .consume
        (handleMsg machine { nd with applyCh := rest, consumed := nd.consumed ++ [msg] } msg)
  | compacted (act : Action σ) (rf' : Raft σ) (jobs : List (SnapshotJob σ))
      (installing : Option (Nat × Nat)) (hlog : nd.rf.log.Indexed → rf'.log.Indexed)
      (happlied : nd.rf.lastApplied ≤ rf'.lastApplied) :
      Moved machine cluster nd act { nd with rf := rf', jobs, installing }
  | restarted (act : Action σ) (rf' : Raft σ) (hcrash : act.crashes = true)
      (hsaved : nd.rf.Saved → rf'.Saved) (hlog : rf'.log = nd.rf.log) :
      Moved machine cluster nd act (({ nd with rf := rf' } : Node σ).restart machine cluster)

lemma Node.Moved.of_step (hnet : CallsIndexed net)
    (hstep : nd.step machine cluster net act = some (nd', out)) :
    Moved machine cluster nd act nd' := by
  cases hside : act.applySide with
  | false => exact .framed act nd' (step_frame hnet hside hstep)
  | true =>
  cases stepped hstep with
  | handOff hinst hmsg => exact .handedOff _ _ hinst hmsg
  | applyLoop hloop => exact .looped _ _ hloop
  | sendEntry hpc => exact .sent _ _ (.inl ⟨_, hpc, rfl, rfl⟩)
  | requestSnapshot hpc => exact .sent _ _ (.inr ⟨_, hpc, rfl, rfl⟩)
  | consume _ hch => exact .consumed _ _ hch
  | @installDone i t rf' _ hdone =>
    refine .compacted .installDone rf' nd.jobs none (fun hlog => ?_) ?_
    all_goals
      obtain ⟨rf₁, rfl, ⟨-, rfl⟩ | ⟨-, rfl⟩ | ⟨rf₂, -, htrim, rfl⟩⟩ := installDone_spec hdone
    · exact hlog
    · exact Consecutive.nil i
    · have htrimmed : rf₂.log.Indexed := trimTo_indexed htrim hlog
      exact htrimmed
    · exact le_max_left _ _
    · exact le_max_left _ _
    · obtain ⟨entry, -, rfl⟩ := trimTo_spec htrim
      exact le_max_left _ _
  | encodeJob | checkJob | keepJob => exact .compacted _ nd.rf _ nd.installing id le_rfl
  | saveJob => exact .compacted _ (nd.rf.saveSnapshot _ _) _ nd.installing id le_rfl
  | trimJob _ _ htrim =>
    refine .compacted _ _ _ nd.installing (trimTo_indexed htrim) ?_
    obtain ⟨entry, -, rfl⟩ := trimTo_spec htrim
    exact le_rfl
  | finishJob => exact .compacted _ nd.rf.resetSnapshotting _ nd.installing id le_rfl
  | restart => exact .restarted _ nd.rf rfl id rfl
  | crashInHandler =>
    obtain ⟨rf', hsaved, hlog, -, heq⟩ := crash_inv rfl hstep
    rw [heq]
    exact .restarted _ rf' rfl hsaved hlog
  | _ => cases hside

lemma Node.step_callsIndexed (hlog : nd.rf.log.Indexed)
    (hstep : nd.step machine cluster net act = some (nd', out)) : CallsIndexed out := by
  intro p req hmsg
  obtain ⟨hleader, rf', r, hround, hr⟩ := sent_call hstep hmsg
  exact (replicateToPeer_applyFrame hleader hround).2 hlog req hr

end stratum.raft
