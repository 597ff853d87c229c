import Stratum.Raft.Cluster

open stratum.kvraft List

namespace stratum.raft

open Option Node Raft

lemma Transfer.forall_onCopy {σ : Type} {f : NodeId → Nat → Nat → σ → Transfer σ}
    {ts : List (Transfer σ)} {P : Transfer σ → Prop} (hkeep : ∀ t ∈ ts, P t)
    (hcopied : ∀ p i s data, .copied p i s data ∈ ts → P (f p i s data)) :
    ∀ t ∈ ts.map (onCopy f), P t := by
  intro t ht
  obtain ⟨before, hbefore, rfl⟩ := mem_map.mp ht
  cases before with
  | copied p i s data => exact hcopied p i s data hbefore
  | _ => exact hkeep _ hbefore

lemma SnapshotJob.forall_onCopy {σ : Type} {f : Nat → σ → SnapshotJob σ}
    {jobs : List (SnapshotJob σ)} {P : SnapshotJob σ → Prop} (hkeep : ∀ job ∈ jobs, P job)
    (hcopied : ∀ i data, .copied i data ∈ jobs → P (f i data)) :
    ∀ job ∈ jobs.map (onCopy f), P job := by
  intro job hjob
  obtain ⟨before, hbefore, rfl⟩ := mem_map.mp hjob
  cases before with
  | copied i data => exact hcopied i data hbefore
  | _ => exact hkeep _ hbefore

namespace Node

variable {σ : Type} [DecidableEq σ]

section

variable (machine : StateMachine σ) (cluster : Cluster) (net : List (Msg σ)) (nd : Node σ)

/-- What a process can do, with what it needed for it and what it sends. -/
inductive Stepped : Action σ → Node σ → List (Msg σ) → Prop
  | startElection : Stepped .startElection
      { nd with rf := nd.rf.startElection.1, electing := some nd.rf.startElection.2 } []
  | elected {req} (hreq : nd.electing = some req) (hcandidate : nd.rf.state = .candidate)
      (hterm : nd.rf.term = req.term) (hmajority : nd.rf.HasMajority 1) : Stepped .sendVoteRequest
        { nd with rf := nd.rf.becomeLeaderLocked, electing := none } []
  | sendVoteRequest {req} (hreq : nd.electing = some req) : Stepped .sendVoteRequest
        { nd with
          electing := none
          ballots := { req, votes := 1, waiting := nd.rf.peers } :: nd.ballots }
        (nd.rf.peers.map fun p => .requestVote p req)
  | requestVote {req rf' res} (hmsg : .requestVote nd.rf.me req ∈ net)
      (hvote : nd.rf.requestVote req = (rf', res)) :
      Stepped (.requestVote req) { nd with rf := rf' } [.voteResponse nd.rf.me req res]
  | voteResponse {b p res rf' votes} (hb : b ∈ nd.ballots) (hp : p ∈ b.waiting)
      (hmsg : .voteResponse p b.req res ∈ net)
      (hvote : nd.rf.voteResponse b.req b.votes res = (rf', votes)) :
      Stepped (.voteResponse b p res)
        { nd with
          rf := rf'
          ballots := { b with votes, waiting := b.waiting.erase p } :: nd.ballots.erase b } []
  | propose {data} (hleader : nd.rf.state = .leader) : Stepped (.propose data)
        { nd with rf := nd.rf.appendEntryLocked data } []
  | idle {p} : Stepped (.replicate p) nd []
  | heartbeat {p rf' req} (hleader : nd.rf.state = .leader)
      (hround : nd.rf.replicateToPeer p = some (rf', .heartbeat req)) :
      Stepped (.replicate p) { nd with rf := rf' } [.appendEntries p req]
  | choose {p rf' i t} (hleader : nd.rf.state = .leader)
      (hround : nd.rf.replicateToPeer p = some (rf', .snapshot i t)) : Stepped (.replicate p)
        { nd with rf := rf', transfers := .chosen p i t :: nd.transfers } []
  | append {p rf' req} (hleader : nd.rf.state = .leader)
      (hround : nd.rf.replicateToPeer p = some (rf', .append req)) : Stepped (.replicate p)
        { nd with rf := rf', calls := (p, req) :: nd.calls } [.appendEntries p req]
  | appendEntries {req rf' resp} (hmsg : .appendEntries nd.rf.me req ∈ net)
      (happend : nd.rf.appendEntries req = some (rf', resp)) :
      Stepped (.appendEntries req) { nd with rf := rf' } [.appendResponse nd.rf.me req resp]
  | appendResponse {p req resp} (hcall : (p, req) ∈ nd.calls)
      (hmsg : .appendResponse p req resp ∈ net) : Stepped (.appendResponse p req resp)
        { nd with
          rf := nd.rf.applyAppendResponse p req resp, calls := nd.calls.erase (p, req) } []
  | load {p i s} (ht : .chosen p i s ∈ nd.transfers) : Stepped (.transferStep (.chosen p i s))
        { nd with transfers := nd.snapshotHandler p i s :: nd.transfers.erase (.chosen p i s) } []
  | encode {p i s data} (ht : .copied p i s data ∈ nd.transfers) :
      Stepped (.transferStep (.copied p i s data))
        { nd with
          transfers := .loaded p i s data :: nd.transfers.erase (.copied p i s data) } []
  | send {p req} (ht : .loaded p req.lastIncludedIndex req.lastIncludedTerm req.data ∈ nd.transfers)
      (hterm : req.term = nd.rf.term) (hme : req.leaderId = nd.rf.me) : Stepped
        (.transferStep (.loaded p req.lastIncludedIndex req.lastIncludedTerm req.data))
        { nd with
          transfers := .sent p req :: nd.transfers.erase
            (.loaded p req.lastIncludedIndex req.lastIncludedTerm req.data) }
        [.installSnapshot p req]
  | transferFailed {t} : Stepped (.transferFailed t)
      { nd with rf := nd.rf.resetSnapshotPending t.peer, transfers := nd.transfers.erase t } []
  | snapshotResponse {p req resp} (hsent : .sent p req ∈ nd.transfers)
      (hmsg : .installResponse p req resp ∈ net) : Stepped (.snapshotResponse p req resp)
        { nd with
          rf := nd.rf.snapshotResponse p req.lastIncludedIndex resp
          transfers := nd.transfers.erase (.sent p req) } []
  | answerInstall {req rf' resp} (hinstall : nd.rf.installSnapshot req = (rf', false, resp)) :
      Stepped (.installSnapshot req) { nd with rf := rf' } [.installResponse nd.rf.me req resp]
  | install {req rf' resp} (hmsg : .installSnapshot nd.rf.me req ∈ net)
      (hinstall : nd.rf.installSnapshot req = (rf', true, resp)) : Stepped (.installSnapshot req)
        { nd with rf := rf', installs := { req, resp } :: nd.installs } []
  | handOff {inst msg} (hinst : inst ∈ nd.installs)
      (hmsg : msg = .snapshot inst.req.data inst.req.lastIncludedIndex inst.req.lastIncludedTerm) :
      Stepped (.handOff inst)
        { nd with
          applyCh := nd.applyCh ++ [msg]
          history := nd.history ++ [msg]
          installs := nd.installs.erase inst } [.installResponse nd.rf.me inst.req inst.resp]
  | applyLoop {rf' pc} (hloop : nd.applyPc = .top ∧ nd.rf.applyLoopTop = some (rf', pc) ∨
        nd.applyPc = .inner ∧ nd.rf.applyLoopInner = some (rf', pc)) :
      Stepped .applyStep { nd with rf := rf', applyPc := pc } []
  | sendEntry {entry} (hpc : nd.applyPc = .sending entry) : Stepped .applyStep
        { nd with
          applyCh := nd.applyCh ++ [ApplyMsg.entry entry]
          history := nd.history ++ [ApplyMsg.entry entry]
          applyPc := .inner } []
  | requestSnapshot {i} (hpc : nd.applyPc = .requesting i) : Stepped .applyStep
        { nd with
          applyCh := nd.applyCh ++ [ApplyMsg.snapshotRequest i]
          history := nd.history ++ [ApplyMsg.snapshotRequest i]
          applyPc := .top } []
  | consume {msg rest} (hidle : nd.installing = none) (hch : nd.applyCh = msg :: rest) :
      Stepped .consume
        (handleMsg machine { nd with applyCh := rest, consumed := nd.consumed ++ [msg] } msg) []
  | installDone {i t rf'} (hpending : nd.installing = some (i, t))
      (hdone : nd.rf.installDone i t = some rf') :
      Stepped .installDone { nd with rf := rf', installing := none } []
  | encodeJob {i data} (hjob : .copied i data ∈ nd.jobs) : Stepped (.jobStep (.copied i data))
        { nd with jobs := .requested i data :: nd.jobs.erase (.copied i data) } []
  | checkJob {i data next} (hjob : .requested i data ∈ nd.jobs)
      (hnext : nd.rf.CanSnapshot i ∧ next = .checked i data ∨ next = .finished) :
      Stepped (.jobStep (.requested i data))
        { nd with jobs := next :: nd.jobs.erase (.requested i data) } []
  | saveJob {i data} (hjob : .checked i data ∈ nd.jobs) : Stepped (.jobStep (.checked i data))
        { nd with
          rf := nd.rf.saveSnapshot data i
          jobs := .saved i :: nd.jobs.erase (.checked i data) } []
  | keepJob {i} (hjob : .saved i ∈ nd.jobs) : Stepped (.jobStep (.saved i))
        { nd with jobs := .finished :: nd.jobs.erase (.saved i) } []
  | trimJob {i rf'} (hjob : .saved i ∈ nd.jobs) (hcan : nd.rf.CanSnapshot i)
      (htrim : nd.rf.trimTo i = some rf') : Stepped (.jobStep (.saved i))
        { nd with rf := rf', jobs := .finished :: nd.jobs.erase (.saved i) } []
  | finishJob : Stepped (.jobStep .finished)
      { nd with rf := nd.rf.resetSnapshotting, jobs := nd.jobs.erase .finished } []
  | restart : Stepped .restart (nd.restart machine cluster) []
  | crashInHandler {msg rf' term} (hlt : nd.rf.term < term)
      (hrf' : (∃ req, .requestVote nd.rf.me req ∈ net ∧ req.term = term ∧
          rf' = nd.rf.stepDown term) ∨
        ∃ req, .appendEntries nd.rf.me req ∈ net ∧ req.term = term ∧ rf' = nd.rf.adoptTerm term) :
      Stepped (.crashInHandler msg) (restart machine cluster { nd with rf := rf' }) []

end

variable {machine : StateMachine σ} {cluster : Cluster} {net out : List (Msg σ)} {nd nd' : Node σ}

omit [DecidableEq σ] in
lemma snapshotHandler_cases (nd : Node σ) (p : NodeId) (i s : Nat) :
    (∃ data, nd.snapshotHandler p i s = .loaded p i s data) ∨
      nd.snapshotHandler p i s = .copied p i s nd.sm := by
  unfold snapshotHandler
  split
  · split
    · exact .inl ⟨_, rfl⟩
    · exact .inr rfl
  · exact .inr rfl

omit [DecidableEq σ] in
/-- A message leaves the transfers as they are, up to what is written into a copy. -/
lemma forall_transfers_handleMsg {P : Transfer σ → Prop} (hkeep : ∀ t ∈ nd.transfers, P t)
    (hwrite : ∀ p i s data data', P (.copied p i s data) → P (.copied p i s data'))
    (hdetach : ∀ p i s data, P (.copied p i s data) → P (.loaded p i s data)) (msg : ApplyMsg σ) :
    ∀ t ∈ (handleMsg machine nd msg).transfers, P t := by
  cases msg with
  | entry e =>
    exact Transfer.forall_onCopy hkeep fun p i s data ht => hwrite p i s data _ (hkeep _ ht)
  | snapshotRequest i => exact hkeep
  | snapshot d i t =>
    exact Transfer.forall_onCopy hkeep fun p i s data ht => hdetach p i s data (hkeep _ ht)

omit [DecidableEq σ] in
/-- A message leaves the local snapshots as they are, up to what is written into a copy, or
starts one. -/
lemma forall_jobs_handleMsg {P : SnapshotJob σ → Prop} (hkeep : ∀ job ∈ nd.jobs, P job)
    (hwrite : ∀ i data data', P (.copied i data) → P (.copied i data'))
    (hdetach : ∀ i data, P (.copied i data) → P (.requested i data)) {msg : ApplyMsg σ}
    (hnew : ∀ i, msg = .snapshotRequest i →
      P (.copied (if i = 0 then nd.rf.lastApplied else i) nd.sm)) :
    ∀ job ∈ (handleMsg machine nd msg).jobs, P job := by
  cases msg with
  | entry e =>
    exact SnapshotJob.forall_onCopy hkeep fun i data hjob => hwrite i data _ (hkeep _ hjob)
  | snapshotRequest i => exact forall_mem_cons.mpr ⟨hnew i rfl, hkeep⟩
  | snapshot d i t =>
    exact SnapshotJob.forall_onCopy hkeep fun i data hjob => hdetach i data (hkeep _ hjob)

lemma replicate_stepped {p : NodeId} (hstep : nd.replicate p = some (nd', out)) :
    Stepped machine cluster net nd (.replicate p) nd' out := by
  obtain ⟨-, hstep⟩ := ite_none_right_eq_some.mp hstep
  obtain ⟨⟨rf', r⟩, hround, heq⟩ := map_eq_some_iff.mp hstep
  by_cases hleader : nd.rf.state = .leader
  · cases r with
    | none =>
      simp only [replicateToPeer, hleader, ne_eq, not_true_eq_false, if_false] at hround
      split at hround
      · split at hround
        all_goals cases hround
      · simp at hround
    | heartbeat req =>
      cases heq
      exact .heartbeat hleader hround
    | snapshot i t =>
      cases heq
      exact .choose hleader hround
    | append req =>
      cases heq
      exact .append hleader hround
  · simp only [replicateToPeer, ne_eq, hleader] at hround
    cases hround
    cases heq
    exact .idle

omit [DecidableEq σ] in
lemma send_inv {msg : ApplyMsg σ} (hsend : nd.send msg = some nd') :
    nd' = { nd with applyCh := nd.applyCh ++ [msg], history := nd.history ++ [msg] } := by
  unfold send at hsend
  split at hsend
  · cases hsend
    rfl
  · cases hsend

lemma applyStep_stepped (hstep : nd.applyStep = some (nd', out)) :
    Stepped machine cluster net nd .applyStep nd' out := by
  unfold applyStep at hstep
  split at hstep
  · next hpc =>
    obtain ⟨⟨rf', pc⟩, hloop, ⟨⟩⟩ := map_eq_some_iff.mp hstep
    exact .applyLoop (.inl ⟨hpc, hloop⟩)
  · next hpc =>
    obtain ⟨⟨rf', pc⟩, hloop, ⟨⟩⟩ := map_eq_some_iff.mp hstep
    exact .applyLoop (.inr ⟨hpc, hloop⟩)
  · next entry hpc =>
    obtain ⟨nd₁, hsend, ⟨⟩⟩ := map_eq_some_iff.mp hstep
    cases send_inv hsend
    exact .sendEntry hpc
  · next i hpc =>
    obtain ⟨nd₁, hsend, ⟨⟩⟩ := map_eq_some_iff.mp hstep
    cases send_inv hsend
    exact .requestSnapshot hpc

lemma jobStep_stepped {job : SnapshotJob σ} (hstep : nd.jobStep job = some (nd', out)) :
    Stepped machine cluster net nd (.jobStep job) nd' out := by
  obtain ⟨hjob, hstep⟩ := ite_none_right_eq_some.mp hstep
  cases job with
  | copied i data =>
    cases hstep
    exact .encodeJob hjob
  | requested i data =>
    dsimp only at hstep
    split at hstep
    · next hcan =>
      cases hstep
      exact .checkJob hjob (.inl ⟨hcan, rfl⟩)
    · cases hstep
      exact .checkJob hjob (.inr rfl)
  | checked i data =>
    cases hstep
    exact .saveJob hjob
  | saved i =>
    obtain ⟨rf', htrim, ⟨⟩⟩ := map_eq_some_iff.mp hstep
    unfold snapshotTrim at htrim
    split at htrim
    · next hcan => exact .trimJob hjob hcan htrim
    · cases htrim
      exact .keepJob hjob
  | finished =>
    cases hstep
    exact .finishJob

/-- A handler that dies between its two writes has recorded a higher term and nothing
else. -/
lemma crashInHandler_stepped {msg : Msg σ}
    (hstep : nd.crashInHandler machine cluster net msg = some (nd', out)) :
    Stepped machine cluster net nd (.crashInHandler msg) nd' out := by
  obtain ⟨hmsg, hstep⟩ := ite_none_right_eq_some.mp hstep
  cases msg with
  | requestVote receiver req =>
    obtain ⟨⟨rfl, hlt⟩, ⟨⟩⟩ := ite_none_right_eq_some.mp hstep
    exact .crashInHandler hlt (.inl ⟨req, hmsg, rfl, rfl⟩)
  | appendEntries receiver req =>
    obtain ⟨⟨rfl, hlt⟩, ⟨⟩⟩ := ite_none_right_eq_some.mp hstep
    exact .crashInHandler hlt (.inr ⟨req, hmsg, rfl, rfl⟩)
  | voteResponse | appendResponse | installSnapshot | installResponse => cases hstep

variable {act : Action σ}

lemma stepped (hstep : nd.step machine cluster net act = some (nd', out)) :
    Stepped machine cluster net nd act nd' out := by
  cases act with
  | startElection =>
    dsimp only [step, startElection] at hstep
    split at hstep <;> cases hstep
    exact .startElection
  | sendVoteRequest =>
    obtain ⟨req, hreq, heq⟩ := map_eq_some_iff.mp hstep
    by_cases hlead : nd.rf.state = .candidate ∧ nd.rf.term = req.term ∧ nd.rf.HasMajority 1
    · simp only [Raft.sendVoteRequest, if_pos hlead] at heq
      cases heq
      exact .elected hreq hlead.1 hlead.2.1 hlead.2.2
    · simp only [Raft.sendVoteRequest, if_neg hlead] at heq
      cases heq
      exact .sendVoteRequest hreq
  | requestVote req =>
    obtain ⟨hmsg, ⟨⟩⟩ := ite_none_right_eq_some.mp hstep
    exact .requestVote hmsg rfl
  | voteResponse b p res =>
    obtain ⟨⟨hb, hp, hmsg⟩, ⟨⟩⟩ := ite_none_right_eq_some.mp hstep
    exact .voteResponse hb hp hmsg rfl
  | propose data =>
    obtain ⟨rf', hrf', ⟨⟩⟩ := map_eq_some_iff.mp hstep
    obtain ⟨hleader, ⟨⟩⟩ := ite_none_right_eq_some.mp hrf'
    exact .propose hleader
  | replicate p => exact replicate_stepped hstep
  | appendEntries req =>
    obtain ⟨hmsg, hstep⟩ := ite_none_right_eq_some.mp hstep
    obtain ⟨⟨rf', resp⟩, happend, ⟨⟩⟩ := map_eq_some_iff.mp hstep
    exact .appendEntries hmsg happend
  | appendResponse p req resp =>
    obtain ⟨⟨hcall, hmsg⟩, ⟨⟩⟩ := ite_none_right_eq_some.mp hstep
    exact .appendResponse hcall hmsg
  | transferStep t =>
    obtain ⟨ht, hstep⟩ := ite_none_right_eq_some.mp hstep
    cases t with
    | chosen p i s =>
      cases hstep
      exact .load ht
    | copied p i s data =>
      cases hstep
      exact .encode ht
    | loaded p i s data =>
      cases hstep
      exact @Stepped.send _ _ machine cluster net nd p ⟨nd.rf.term, nd.rf.me, i, s, data⟩ ht rfl rfl
    | sent p req => cases hstep
  | transferFailed t =>
    obtain ⟨-, ⟨⟩⟩ := ite_none_right_eq_some.mp hstep
    exact .transferFailed
  | snapshotResponse p req resp =>
    obtain ⟨⟨hsent, hmsg⟩, ⟨⟩⟩ := ite_none_right_eq_some.mp hstep
    exact .snapshotResponse hsent hmsg
  | installSnapshot req =>
    obtain ⟨hmsg, hstep⟩ := ite_none_right_eq_some.mp hstep
    rcases hinstall : nd.rf.installSnapshot req with ⟨rf', hand, resp⟩
    rw [hinstall] at hstep
    cases hand with
    | false =>
      cases hstep
      exact .answerInstall hinstall
    | true =>
      cases hstep
      exact .install hmsg hinstall
  | handOff inst =>
    obtain ⟨hinst, hstep⟩ := ite_none_right_eq_some.mp hstep
    obtain ⟨nd₁, hsend, ⟨⟩⟩ := map_eq_some_iff.mp hstep
    cases send_inv hsend
    exact .handOff hinst rfl
  | applyStep => exact applyStep_stepped hstep
  | consume =>
    dsimp only [step, consume] at hstep
    split at hstep
    · next msg rest hidle hch =>
      cases hstep
      exact .consume hidle hch
    · cases hstep
  | installDone =>
    dsimp only [step, installDone] at hstep
    split at hstep
    · next i t hpending =>
      obtain ⟨rf', hdone, ⟨⟩⟩ := map_eq_some_iff.mp hstep
      exact .installDone hpending hdone
    · cases hstep
  | jobStep job => exact jobStep_stepped hstep
  | restart =>
    cases hstep
    exact .restart
  | crashInHandler msg => exact crashInHandler_stepped hstep

/-- What puts a message on the network: a leader's round of replication a call, the handler of
a call its answer. -/
def SentBy (net : List (Msg σ)) (nd : Node σ) (act : Action σ) (rf' : Raft σ) : Msg σ → Prop
  | .appendEntries p req =>
    nd.rf.state = .leader ∧ ∃ rf' r, nd.rf.replicateToPeer p = some (rf', r) ∧
      (r = .heartbeat req ∨ r = .append req)
  | .appendResponse p req resp =>
    act = .appendEntries req ∧ p = nd.rf.me ∧ .appendEntries nd.rf.me req ∈ net ∧
      nd.rf.appendEntries req = some (rf', resp)
  | _ => True

lemma step_sent {msg : Msg σ}
    (hstep : nd.step machine cluster net act = some (nd', out)) (hmsg : msg ∈ out) :
    SentBy net nd act nd'.rf msg := by
  cases stepped hstep with
  | sendVoteRequest =>
    obtain ⟨p, -, rfl⟩ := mem_map.mp hmsg
    trivial
  | requestVote | send | answerInstall | handOff =>
    cases mem_singleton.mp hmsg
    trivial
  | heartbeat hleader hround =>
    cases mem_singleton.mp hmsg
    exact ⟨hleader, _, _, hround, .inl rfl⟩
  | append hleader hround =>
    cases mem_singleton.mp hmsg
    exact ⟨hleader, _, _, hround, .inr rfl⟩
  | appendEntries hcall happend =>
    cases mem_singleton.mp hmsg
    exact ⟨rfl, rfl, hcall, happend⟩
  | _ => cases hmsg

lemma sent_call {p : NodeId} {req : AppendEntriesRequest}
    (hstep : nd.step machine cluster net act = some (nd', out))
    (hmsg : Msg.appendEntries p req ∈ out) :
    nd.rf.state = .leader ∧ ∃ rf' r, nd.rf.replicateToPeer p = some (rf', r) ∧
      (r = .heartbeat req ∨ r = .append req) := step_sent hstep hmsg

end Node

end stratum.raft
