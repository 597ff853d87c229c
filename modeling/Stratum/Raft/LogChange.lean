import Stratum.Kvraft.ChainedLog
import Stratum.Raft.ElectionSafety
import Stratum.Raft.SafeStep

open stratum.kvraft

namespace stratum.kvraft.Raft

variable {σ : Type}

/-- What every step does to a node's role: only a candidate of the term comes to lead it, and
whoever stands as a candidate was one before or has moved to a later term. -/
structure RoleStep (rf rf' : Raft σ) : Prop where
  term : rf.term ≤ rf'.term
  leader : rf'.state = .leader → rf'.term = rf.term ∧ (rf.state = .leader ∨ rf.state = .candidate)
  candidate : rf'.state = .candidate → rf.state = .candidate ∧ rf'.term = rf.term ∨ rf.term < rf'.term

variable {rf rf' : Raft σ} {req : AppendEntriesRequest} {resp : AppendEntriesResponse}

lemma RoleStep.of_same (hterm : rf'.term = rf.term) (hstate : rf'.state = rf.state) :
    RoleStep rf rf' :=
  ⟨le_of_eq hterm.symm, fun h => ⟨hterm, .inl (hstate ▸ h)⟩, fun h => .inl ⟨hstate ▸ h, hterm⟩⟩

lemma RoleStep.refl (rf : Raft σ) : RoleStep rf rf := .of_same rfl rfl

lemma RoleStep.of_follower (hterm : rf.term ≤ rf'.term) (hstate : rf'.state = .follower) :
    RoleStep rf rf' := by
  refine ⟨hterm, fun h => ?_, fun h => ?_⟩
  all_goals
    rw [hstate] at h
    cases h

lemma RoleStep.of_elected (hterm : rf'.term = rf.term) (hstate : rf'.state = .leader)
    (hcandidate : rf.state = .candidate) : RoleStep rf rf' := by
  refine ⟨le_of_eq hterm.symm, fun _ => ⟨hterm, .inr hcandidate⟩, fun h => ?_⟩
  rw [hstate] at h
  cases h

/-- A call that is not accepted behind its previous entry leaves the log alone; otherwise its
entries, if any, replace what followed. -/
lemma appendEntries_log (happend : rf.appendEntries req = some (rf', resp)) :
    rf'.log = rf.log ∨ rf.term ≤ req.term ∧ rf.Matches req ∧ req.entries ≠ [] ∧
      rf'.log = rf.log.spliceAfter (rf.log.logIndex req.prevLogIndex) req.entries := by
  have hfollow := rf.follow_log req.term req.leaderId
  obtain ⟨rfl, -⟩ | ⟨hterm, rf₁, rfl, ⟨rfl, -⟩ | ⟨-, rfl⟩ |
    ⟨prevEntry, hbase, hprev, hmatch, houtcome⟩⟩ := appendEntries_spec happend
  · exact .inl rfl
  · exact .inl hfollow
  · exact .inl hfollow
  obtain ⟨-, rfl⟩ | ⟨hsome, log, rfl, rfl⟩ := houtcome
  · exact .inl hfollow
  refine .inr ⟨hterm, ⟨hbase, ?_⟩, hsome, rfl⟩
  rw [hprev, ← hmatch]
  rfl

end stratum.kvraft.Raft

namespace stratum.raft

variable {σ : Type}

/-- What a step may do to a node's log: nothing, append an entry of the term it leads, replace
what follows the matching entry of a call, or cut the log at an index it holds or beyond its
end. -/
inductive LogChange (net : List (Msg σ)) (rf rf' : Raft σ) : Prop
  | same (hlog : rf'.log = rf.log)
  | appended (data : Bytes) (hstate : rf'.state = .leader)
      (hlog : rf'.log = rf.log.push ⟨rf.log.lastLogIndex + 1, rf'.term, data⟩)
  | spliced (req : AppendEntriesRequest) (prevEntry : Entry)
      (hmsg : Msg.appendEntries rf.me req ∈ net)
      (hprev : rf.log.logEntry req.prevLogIndex = some prevEntry)
      (hmatch : prevEntry.term = req.prevLogTerm) (hstate : rf'.state = .follower)
      (hlog : rf'.log = rf.log.spliceAfter (rf.log.logIndex req.prevLogIndex) req.entries)
  | trimmed (i : Nat) (entry : Entry) (hbase : rf.log.base.index < i)
      (hentry : rf.log.logEntry i = some entry)
      (hlog : rf'.log = rf.log.compactAt i entry.term (rf.log.logIndex i))
  | installed (i t : Nat) (hbeyond : rf.log.lastLogIndex < i)
      (hlog : rf'.log = { base := { index := i, term := t, data := [] }, entries := [] })

/-- What the action of a step does to the log: a call that passes the check splices it, a local
snapshot that is saved cuts it, and so does an installed snapshot that is reported. -/
inductive LogStep (net : List (Msg σ)) (nd : Node σ) (act : Action σ) (rf' : Raft σ) : Prop
  | same (hlog : rf'.log = nd.rf.log)
  | appended (data : Bytes) (hstate : rf'.state = .leader)
      (hlog : rf'.log = nd.rf.log.push ⟨nd.rf.log.lastLogIndex + 1, rf'.term, data⟩)
  | spliced (req : AppendEntriesRequest) (hact : act = .appendEntries req)
      (hmsg : Msg.appendEntries nd.rf.me req ∈ net) (hterm : nd.rf.term ≤ req.term)
      (hmatch : nd.rf.Matches req) (hsome : req.entries ≠ []) (hstate : rf'.state = .follower)
      (hlog : rf'.log = nd.rf.log.spliceAfter (nd.rf.log.logIndex req.prevLogIndex) req.entries)
  | trimmed (i : Nat) (entry : Entry)
      (hcause : .saved i ∈ nd.jobs ∨ act = .installDone ∧ ∃ t, nd.installing = some (i, t))
      (hbase : nd.rf.log.base.index < i) (hentry : nd.rf.log.logEntry i = some entry)
      (hlog : rf'.log = nd.rf.log.compactAt i entry.term (nd.rf.log.logIndex i))
  | installed (i t : Nat) (hact : act = .installDone) (hpending : nd.installing = some (i, t))
      (hbeyond : nd.rf.log.lastLogIndex < i)
      (hlog : rf'.log = { base := { index := i, term := t, data := [] }, entries := [] })

lemma LogStep.change {net : List (Msg σ)} {nd : Node σ} {act : Action σ}
    (hstep : LogStep net nd act rf') : LogChange net nd.rf rf' := by
  cases hstep with
  | same hlog => exact .same hlog
  | appended data hstate hlog => exact .appended data hstate hlog
  | spliced req hact hmsg hterm hmatch hsome hstate hlog =>
    obtain ⟨prevEntry, hprev, hprevTerm⟩ := Option.map_eq_some_iff.mp hmatch.2
    exact .spliced req prevEntry hmsg hprev hprevTerm hstate hlog
  | trimmed i entry hcause hbase hentry hlog => exact .trimmed i entry hbase hentry hlog
  | installed i t hact hpending hbeyond hlog => exact .installed i t hbeyond hlog

section

variable {net : List (Msg σ)} {rf rf' : Raft σ} (hchange : LogChange net rf rf')

include hchange

lemma LogChange.base : rf'.log.base = rf.log.base ∨ rf.log.base.index < rf'.log.base.index := by
  cases hchange with
  | same hlog => exact .inl (by rw [hlog])
  | appended data hstate hlog => exact .inl (by rw [hlog, Log.push_base])
  | spliced req prevEntry hmsg hprev hmatch hstate hlog =>
    exact .inl (by rw [hlog, Log.spliceAfter_base])
  | trimmed i entry hbase hentry hlog => exact .inr (by rw [hlog]; exact hbase)
  | installed i t hbeyond hlog =>
  refine .inr ?_
  rw [Log.lastLogIndex_eq] at hbeyond
  rw [hlog]
  change rf.log.base.index < i
  omega

lemma LogChange.lastLogIndex_le (hstate : rf'.state = .leader) :
    rf.log.lastLogIndex ≤ rf'.log.lastLogIndex := by
  cases hchange with
  | same hlog => rw [hlog]
  | appended data _ hlog =>
    rw [hlog, Log.lastLogIndex_eq, Log.lastLogIndex_eq, Log.push_base, Log.push_entries,
      List.length_append]
    omega
  | spliced req prevEntry hmsg hprev hmatch hfollower hlog =>
    rw [hfollower] at hstate
    cases hstate
  | trimmed i entry hbase hentry hlog =>
    rw [hlog, Log.lastLogIndex_eq, Log.lastLogIndex_eq, Log.compactAt, List.length_drop,
      Log.logIndex]
    dsimp only
    omega
  | installed i t hbeyond hlog =>
    rw [hlog]
    exact le_of_lt hbeyond

end

section

variable {net : List (Msg σ)} {nd : Node σ} {rf' : Raft σ}

lemma LogStep.of_appendEntries (hmsg : Msg.appendEntries nd.rf.me req ∈ net)
    (happend : nd.rf.appendEntries req = some (rf', resp)) :
    LogStep net nd (.appendEntries req) rf' ∧ Raft.RoleStep nd.rf rf' := by
  have hrole : rf' = nd.rf ∨ nd.rf.term ≤ rf'.term ∧ rf'.state = .follower := by
    obtain ⟨rfl, -⟩ | ⟨hterm, rf₁, rfl, houtcome⟩ := Raft.appendEntries_spec happend
    · exact .inl rfl
    have hfollow : nd.rf.term ≤ (nd.rf.follow req.term req.leaderId).term := by
      rw [Raft.follow_term req.leaderId hterm]
      exact hterm
    refine .inr ?_
    obtain ⟨rfl, -⟩ | ⟨-, rfl⟩ | ⟨prevEntry, -, -, -, ⟨-, rfl⟩ | ⟨-, log, rfl, rfl⟩⟩ := houtcome
    all_goals exact ⟨hfollow, rfl⟩
  obtain rfl | ⟨hterm, hstate⟩ := hrole
  · exact ⟨.same rfl, .refl _⟩
  refine ⟨?_, .of_follower hterm hstate⟩
  obtain hsame | ⟨hcurrent, hmatch, hsome, hlog⟩ := Raft.appendEntries_log happend
  · exact .same hsame
  · exact .spliced req rfl hmsg hcurrent hmatch hsome hstate hlog

end

variable {machine : StateMachine σ} {cluster : Cluster} {net out : List (Msg σ)} {nd nd' : Node σ}
  {act : Action σ}

lemma restart_change (hsaved : rf.Saved) (hlog : rf.log = nd.rf.log)
    (hterm : nd.rf.term ≤ rf.term) :
    LogStep net nd act (({ nd with rf } : Node σ).restart machine cluster).rf ∧
      Raft.RoleStep nd.rf (({ nd with rf } : Node σ).restart machine cluster).rf := by
  have hload : rf.persister.loadState = { term := rf.term, voteFor := rf.voteFor, log := rf.log } :=
    hsaved
  refine ⟨.same ?_, .of_follower ?_ rfl⟩
  · simp only [Node.restart, Node.boot, Raft.newRaft, hload, hlog]
  · simpa only [Node.restart, Node.boot, Raft.newRaft, hload] using hterm

variable [DecidableEq σ]

lemma Node.step_log (hsaved : nd.rf.Saved)
    (hstep : nd.step machine cluster net act = some (nd', out)) :
    LogStep net nd act nd'.rf ∧ Raft.RoleStep nd.rf nd'.rf := by
  cases stepped hstep with
  | startElection =>
    refine ⟨.same rfl, Nat.le_succ _, fun h => ?_, fun _ => .inr (Nat.lt_succ_self _)⟩
    cases h
  | elected _ hcandidate => exact ⟨.appended [] rfl rfl, .of_elected rfl rfl hcandidate⟩
  | requestVote _ hvote =>
    obtain ⟨-, rfl | ⟨hlt, rfl⟩⟩ | ⟨-, rf₁, ⟨rfl, -⟩ | ⟨hlt, rfl⟩, -, -, rfl⟩ :=
      Raft.requestVote_spec hvote
    · exact ⟨.same rfl, .refl _⟩
    · exact ⟨.same rfl, .of_follower (le_of_lt hlt) rfl⟩
    · exact ⟨.same rfl, .of_same rfl rfl⟩
    · exact ⟨.same rfl, .of_follower (le_of_lt hlt) rfl⟩
  | voteResponse _ _ _ hvote =>
    obtain ⟨-, rfl | ⟨hlt, rfl⟩⟩ | ⟨-, -, hcandidate, -, rfl | ⟨-, rfl⟩⟩ :=
      Raft.voteResponse_spec hvote
    · exact ⟨.same rfl, .refl _⟩
    · exact ⟨.same rfl, .of_follower (le_of_lt hlt) rfl⟩
    · exact ⟨.same rfl, .refl _⟩
    · exact ⟨.appended [] rfl rfl, .of_elected rfl rfl hcandidate⟩
  | propose hleader => exact ⟨.appended _ hleader rfl, .of_same rfl rfl⟩
  | heartbeat hleader hround | choose hleader hround | append hleader hround =>
    obtain ⟨rfl, -⟩ | ⟨rfl, -⟩ | ⟨next, req, -, -, rfl, -⟩ := Raft.replicateToPeer_spec hleader hround
    · exact ⟨.same rfl, .refl _⟩
    · exact ⟨.same rfl, .of_same rfl rfl⟩
    · exact ⟨.same rfl, .refl _⟩
  | appendEntries hmsg happend => exact LogStep.of_appendEntries hmsg happend
  | @appendResponse p req =>
    unfold Raft.applyAppendResponse
    split
    · next hlt => exact ⟨.same rfl, .of_follower (le_of_lt hlt) rfl⟩
    split
    · obtain ⟨rf₁, hsucceeded, rfl | ⟨nextIndex, rfl⟩⟩ := Raft.appendSucceeded_spec nd.rf p req
      · rw [hsucceeded]
        exact ⟨.same rfl, .of_same rfl rfl⟩
      · rw [hsucceeded]
        exact ⟨.same rfl, .of_same rfl rfl⟩
    · exact ⟨.same rfl, .of_same rfl rfl⟩
  | snapshotResponse =>
    unfold Raft.snapshotResponse
    split
    · next hlt => exact ⟨.same rfl, .of_follower (le_of_lt hlt) rfl⟩
    · exact ⟨.same rfl, .of_same rfl rfl⟩
  | @answerInstall req _ _ hinstall | @install req _ _ _ hinstall =>
    obtain ⟨rfl, -⟩ | ⟨hterm, rfl⟩ := Raft.installSnapshot_spec hinstall
    · exact ⟨.same rfl, .refl _⟩
    refine ⟨.same (nd.rf.follow_log _ _), .of_follower ?_ rfl⟩
    rw [Raft.follow_term req.leaderId hterm]
    exact hterm
  | applyLoop hloop =>
    obtain ⟨applied, flag, rfl⟩ := Raft.applyLoop_spec (hloop.imp And.right And.right)
    exact ⟨.same rfl, .of_same rfl rfl⟩
  | @consume msg =>
    cases msg with
    | entry | snapshotRequest => exact ⟨.same rfl, .refl _⟩
    | snapshot data i t => exact ⟨.same rfl, .of_same rfl rfl⟩
  | installDone hpending hdone =>
    obtain ⟨rf₁, rfl, ⟨-, rfl⟩ | ⟨hbeyond, rfl⟩ | ⟨rf₂, hi, htrim, rfl⟩⟩ :=
      Raft.installDone_spec hdone
    · exact ⟨.same rfl, .of_same rfl rfl⟩
    · exact ⟨.installed _ _ rfl hpending hbeyond rfl, .of_same rfl rfl⟩
    · obtain ⟨entry, hentry, rfl⟩ := Raft.trimTo_spec htrim
      exact ⟨.trimmed _ entry (.inr ⟨rfl, _, hpending⟩) hi hentry rfl, .of_same rfl rfl⟩
  | transferFailed | saveJob | finishJob => exact ⟨.same rfl, .of_same rfl rfl⟩
  | trimJob hjob hcan htrim =>
    obtain ⟨entry, hentry, rfl⟩ := Raft.trimTo_spec htrim
    exact ⟨.trimmed _ entry (.inl hjob) (Nat.lt_of_not_le hcan.1) hentry rfl, .of_same rfl rfl⟩
  | restart => exact restart_change hsaved rfl le_rfl
  | crashInHandler hlt hrf' =>
    obtain ⟨req, -, -, rfl⟩ | ⟨req, -, -, rfl⟩ := hrf'
    all_goals exact restart_change (Raft.persist_saved _) rfl (le_of_lt hlt)
  | _ => exact ⟨.same rfl, .refl _⟩

lemma Node.step_change (hsaved : nd.rf.Saved)
    (hstep : nd.step machine cluster net act = some (nd', out)) :
    LogChange net nd.rf nd'.rf ∧ Raft.RoleStep nd.rf nd'.rf :=
  (step_log hsaved hstep).imp_left LogStep.change

end stratum.raft
