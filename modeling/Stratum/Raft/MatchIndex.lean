import Stratum.Raft.SettledLog

open stratum.lib stratum.kvraft Function List

namespace stratum.kvraft

variable {req : AppendEntriesRequest} {resp : AppendEntriesResponse}

namespace Raft

variable {σ : Type}

/-- The log starts at or beyond the snapshot's index, or holds its last entry. -/
def SnapshotHeld (rf : Raft σ) (i term : Nat) : Prop :=
  i ≤ rf.log.base.index ∨ (rf.log.logEntry i).map Entry.term = some term
  deriving Decidable

/-- What a success says of the follower's log, if the call was safe: it starts at or beyond the
end of the call, or has the term of the call's end there. -/
lemma appendEntries_acked {rf rf' : Raft σ} (happend : rf.appendEntries req = some (rf', resp))
    (hsuccess : resp.success = true) (hsafe : rf.AppendSafe req) :
    rf'.term = req.term ∧ (req.prevLogIndex + req.entries.length ≤ rf'.log.base.index ∨
      ∃ e, rf'.log.logEntry (req.prevLogIndex + req.entries.length) = some e ∧
        e.term = Lineage.termBefore Entry.term req.prevLogTerm req.entries req.entries.length) := by
  have hfollow := rf.follow_log req.term req.leaderId
  obtain ⟨-, hfailed⟩ | ⟨hterm, rf₁, rfl, houtcome⟩ := appendEntries_spec happend
  · rw [hsuccess] at hfailed
    cases hfailed
  have hnow := follow_term req.leaderId hterm
  obtain ⟨-, hfailed⟩ | ⟨hbelow, rfl⟩ | ⟨prevEntry, -, hprev, hmatch, hentries⟩ := houtcome
  · rw [hsuccess] at hfailed
    cases hfailed
  · refine ⟨hnow, .inl ?_⟩
    have hbase := (hsafe hterm).1 hbelow
    rw [← hfollow] at hbase
    exact hbase
  obtain ⟨hnone, rfl⟩ | ⟨hsome, log, rfl, rfl⟩ := hentries
  · refine ⟨hnow, .inr ⟨prevEntry, ?_, ?_⟩⟩
    · rw [hnone]
      rw [← hfollow] at hprev
      exact hprev
    · rw [hnone]
      exact hmatch
  · exact ⟨hnow, .inr (spliced_last hprev hsome).2⟩

end Raft

end stratum.kvraft

namespace stratum.raft

variable {σ : Type}

/-- A reported snapshot fits the log it meets, and a peer is booked as holding a snapshot only
when it does. -/
def SnapshotSafe (w : World σ) : NodeId × Action σ → Prop
  | (u, .installDone) => ∀ label ∈ (w.nodes u).installing,
    (w.nodes u).rf.log.base.index < label.1 → (w.nodes u).rf.SnapshotFits label.1 label.2
  | (u, .snapshotResponse p req resp) => resp.term ≤ (w.nodes u).rf.term →
    (w.nodes p).rf.SnapshotHeld req.lastIncludedIndex req.lastIncludedTerm
  | _ => True

instance (w : World σ) : (act : NodeId × Action σ) → Decidable (SnapshotSafe w act)
  | (u, act) => by
    induction act using Action.casesOn <;> dsimp only [SnapshotSafe] <;> infer_instance

/-- The condition on one step: calls, responses and snapshots are safe in the state they meet. -/
def MatchStep (w : World σ) (act : NodeId × Action σ) : Prop := SafeStep w act ∧ SnapshotSafe w act
  deriving Decidable

def Action.counts : Action σ → Bool
  | .sendVoteRequest | .voteResponse _ _ _ | .propose _ | .appendResponse _ _ _ => true
  | _ => false

/-- Two nodes' logs agree on every index up to `n`: both reach it, what both hold is the same,
and so are the whole logs they stand for. -/
structure AgreedAt (cluster : Cluster) (w : World σ) (p u : NodeId) (n : Nat) : Prop where
  peer : n ≤ (w.nodes p).rf.log.lastLogIndex
  leader : n ≤ (w.nodes u).rf.log.lastLogIndex
  held : (w.nodes p).rf.log.AgreesBelow (w.nodes u).rf.log n
  whole : ∃ h, Sim cluster h w ∧ Share (h.log p) (h.log u) n

/-- At some moment at which `u` led the term, the peer's log agreed with its log up to `n`. -/
def MatchedIn (cluster : Cluster) (past : List (World σ)) (u p : NodeId) (t n : Nat) : Prop :=
  ∃ w, LedIn past u t w ∧ AgreedAt cluster w p u n

section

variable {cluster : Cluster} {h : RunHistory} {past : List (World σ)} {w : World σ} {u p : NodeId}
  {t n : Nat}

lemma AgreedAt.of_share (hsim : Sim cluster h w) (hp : p ∈ cluster.members)
    (hu : u ∈ cluster.members) (hshare : Share (h.log p) (h.log u) n) : AgreedAt cluster w p u n := by
  have hlogp := (hsim.nodes p hp).log
  have hlogu := (hsim.nodes u hu).log
  refine ⟨?_, ?_, hlogp.agreesBelow hlogu hshare, h, hsim, hshare⟩
  · rw [hlogp.lastLogIndex]
    exact hshare.1
  · rw [hlogu.lastLogIndex]
    exact hshare.length_le_right

lemma AgreedAt.le (hagreed : AgreedAt cluster w p u n) {k : Nat} (hk : k ≤ n) :
    AgreedAt cluster w p u k := by
  obtain ⟨h, hsim, hshare⟩ := hagreed.whole
  exact ⟨le_trans hk hagreed.peer, le_trans hk hagreed.leader,
    fun i hi => hagreed.held i (le_trans hi hk), h, hsim, hshare.mono hk⟩

lemma MatchedIn.le (hmatched : MatchedIn cluster past u p t n) {k : Nat} (hk : k ≤ n) :
    MatchedIn cluster past u p t k := by
  obtain ⟨w₁, hled, hagreed⟩ := hmatched
  exact ⟨w₁, hled, hagreed.le hk⟩

lemma LedIn.cons {w₁ : World σ} (hled : LedIn past u t w₁) (w : World σ) :
    LedIn (w :: past) u t w₁ := ⟨mem_cons_of_mem _ hled.1, hled.2⟩

lemma MatchedIn.cons (hmatched : MatchedIn cluster past u p t n) (w : World σ) :
    MatchedIn cluster (w :: past) u p t n := by
  obtain ⟨w₁, hled, hagreed⟩ := hmatched
  exact ⟨w₁, hled.cons w, hagreed⟩

lemma AppendOk.last_term (hok : AppendOk cluster h req) {m : List Entry}
    (hm : h.leaderLog req.term = some m) : req.prevLogIndex + req.entries.length ≤ m.length ∧
      termAt m (req.prevLogIndex + req.entries.length) =
        Lineage.termBefore Entry.term req.prevLogTerm req.entries req.entries.length := by
  obtain ⟨-, m', hm', hlen, hprev, hentries⟩ := hok
  rw [hm] at hm'
  cases hm'
  refine ⟨hlen, ?_⟩
  cases hcount : req.entries.length with
  | zero => exact hprev.symm
  | succ k =>
  obtain ⟨e, he⟩ : ∃ e, req.entries[k]? = some e := ⟨_, getElem?_eq_getElem (by omega)⟩
  have hmk := hentries k (by omega)
  rw [he] at hmk
  rw [Lineage.termBefore_succ he, ← Nat.add_assoc, termAt_succ hmk.symm]

/-- A follower that answered a safe call with success agrees with the call's leader up to the
end of the call, if that still leads. -/
lemma AgreedAt.acked (hsim : Sim cluster h w) (hp : p ∈ cluster.members)
    (hu : req.leaderId ∈ cluster.members) (hok : AppendOk cluster h req)
    (hleader : (w.nodes req.leaderId).rf.state = .leader)
    (hterm : (w.nodes req.leaderId).rf.term = req.term)
    (hsettled : Settled cluster h p (w.nodes p).rf (w.nodes p).rf.log.base.index)
    (hcurrent : (w.nodes p).rf.term = req.term)
    (hend : req.prevLogIndex + req.entries.length ≤ (w.nodes p).rf.log.base.index ∨ ∃ e, (w.nodes
      p).rf.log.logEntry (req.prevLogIndex + req.entries.length) = some e ∧ e.term =
      Lineage.termBefore Entry.term req.prevLogTerm req.entries req.entries.length) :
    AgreedAt cluster w p req.leaderId (req.prevLogIndex + req.entries.length) := by
  have hlead := ((hsim.nodes _ hu).leader hleader).1
  rw [hterm] at hlead
  refine .of_share hsim hp hu ?_
  obtain hbelow | ⟨e, he, hlast⟩ := hend
  · exact (hsettled.share_leader hsim.inv (le_of_eq hcurrent) hlead).mono hbelow
  obtain ⟨hlen, hm⟩ := hok.last_term hlead
  obtain ⟨-, hreach, hte⟩ := (hsim.nodes p hp).log.logEntry_term he
  refine share_of_termAt (hsim.inv.sound p) (hsim.inv.sound _) hreach hlen ?_
  rw [← hte, hlast, hm]

/-- A peer that holds a committed snapshot agrees with a leader up to its index. -/
lemma AgreedAt.snapshot (hsim : Sim cluster h w) (hp : p ∈ cluster.members)
    (hu : u ∈ cluster.members) (hleader : (w.nodes u).rf.state = .leader) {i : Nat}
    (hok : SnapshotOk cluster h (w.nodes u).rf.term i t)
    (hsettled : Settled cluster h p (w.nodes p).rf (w.nodes p).rf.log.base.index)
    (hheld : (w.nodes p).rf.SnapshotHeld i t) : AgreedAt cluster w p u i := by
  have hlead := ((hsim.nodes u hu).leader hleader).1
  refine .of_share hsim hp hu ?_
  obtain rfl | ⟨s, m, hs, hm, hcommitted, hterm⟩ := hok
  · exact .zero _ _
  have hleaderShare := hcommitted.share_leader hsim.inv hs hlead
  refine Share.trans ?_ hleaderShare
  obtain hbelow | hentry := hheld
  · obtain rfl | hcovered := hsettled.le hbelow
    · exact .zero _ _
    · exact ⟨hcovered.le_length, fun j hj => hcovered.agree hsim.inv hcommitted hj hj⟩
  obtain ⟨e, he, hte⟩ := Option.map_eq_some_iff.mp hentry
  obtain ⟨-, hreach, hat⟩ := (hsim.nodes p hp).log.logEntry_term he
  refine share_of_termAt (hsim.inv.sound p) (hsim.inv.soundLeader s m hm) hreach
    hcommitted.le_length ?_
  rw [← hat, hte, hterm]

end

section

variable [DecidableEq σ] {machine : StateMachine σ} {cluster : Cluster} {net out : List (Msg σ)}
  {nd nd' : Node σ} {act : Action σ}

/-- What a step may write into a leader's books about one peer: nothing, the zero of a new
term, the end of a call that succeeded, or the label of a snapshot that was answered. -/
lemma Node.step_match (hstep : nd.step machine cluster net act = some (nd', out))
    (hleader : nd'.rf.state = .leader) (hp : p ∈ nd.rf.peers) :
    (nd.rf.state = .leader ∧ nd'.rf.matchIndex p = nd.rf.matchIndex p) ∨
      nd'.rf.matchIndex p = some 0 ∨
      (∃ req resp, act = .appendResponse p req resp ∧ .appendResponse p req resp ∈ net ∧
        resp.success = true ∧ resp.term ≤ nd.rf.term ∧
        nd'.rf.matchIndex p = some (req.prevLogIndex + req.entries.length)) ∨
      ∃ req resp, act = .snapshotResponse p req resp ∧ .sent p req ∈ nd.transfers ∧
        resp.term ≤ nd.rf.term ∧ nd'.rf.matchIndex p = some req.lastIncludedIndex := by
  have hzero : nd.rf.becomeLeaderLocked.matchIndex p = some 0 := if_pos hp
  cases stepped hstep with
  | startElection | restart | crashInHandler => cases hleader
  | elected => exact .inr (.inl hzero)
  | requestVote _ hvote =>
    obtain ⟨-, rfl | ⟨-, rfl⟩⟩ | ⟨-, rf₁, ⟨rfl, -⟩ | ⟨-, rfl⟩, -, -, rfl⟩ :=
      Raft.requestVote_spec hvote
    · exact .inl ⟨hleader, rfl⟩
    · cases hleader
    · exact .inl ⟨hleader, rfl⟩
    · cases hleader
  | voteResponse _ _ _ hvote =>
    obtain ⟨-, rfl | ⟨-, rfl⟩⟩ | ⟨-, -, -, -, rfl | ⟨-, rfl⟩⟩ := Raft.voteResponse_spec hvote
    · exact .inl ⟨hleader, rfl⟩
    · cases hleader
    · exact .inl ⟨hleader, rfl⟩
    · exact .inr (.inl hzero)
  | heartbeat hlead hround | choose hlead hround | append hlead hround =>
    obtain ⟨rfl, -⟩ | ⟨rfl, -⟩ | ⟨next, req, -, -, rfl, -⟩ := Raft.replicateToPeer_spec hlead hround
    all_goals exact .inl ⟨hleader, rfl⟩
  | appendEntries _ happend =>
    obtain ⟨rfl, -⟩ | ⟨-, rf₁, rfl, houtcome⟩ := Raft.appendEntries_spec happend
    · exact .inl ⟨hleader, rfl⟩
    · obtain ⟨rfl, -⟩ | ⟨-, rfl⟩ | ⟨prevEntry, -, -, -, ⟨-, rfl⟩ | ⟨-, log, rfl, rfl⟩⟩ := houtcome
      all_goals cases hleader
  | @appendResponse q req resp _ hmsg =>
    unfold Raft.applyAppendResponse at hleader ⊢
    by_cases hlt : nd.rf.term < resp.term
    · rw [if_pos hlt] at hleader
      cases hleader
    rw [if_neg hlt] at hleader ⊢
    by_cases hsuccess : resp.success = true
    · rw [if_pos hsuccess] at hleader ⊢
      obtain ⟨rf₁, hsucceeded, rfl | ⟨nextIndex, rfl⟩⟩ := Raft.appendSucceeded_spec nd.rf q req
      · rw [hsucceeded] at hleader ⊢
        exact .inl ⟨hleader, rfl⟩
      rw [hsucceeded] at hleader ⊢
      by_cases hq : p = q
      · subst hq
        exact .inr (.inr (.inl ⟨req, resp, rfl, hmsg, hsuccess, le_of_not_gt hlt,
          update_self _ _ _⟩))
      · exact .inl ⟨hleader, update_of_ne hq _ _⟩
    · rw [if_neg hsuccess] at hleader ⊢
      exact .inl ⟨hleader, rfl⟩
  | @snapshotResponse q req resp hsent =>
    unfold Raft.snapshotResponse at hleader ⊢
    by_cases hlt : nd.rf.term < resp.term
    · rw [if_pos hlt] at hleader
      cases hleader
    rw [if_neg hlt] at hleader ⊢
    by_cases hq : p = q
    · subst hq
      exact .inr (.inr (.inr ⟨req, resp, rfl, hsent, le_of_not_gt hlt, update_self _ _ _⟩))
    · exact .inl ⟨hleader, update_of_ne hq _ _⟩
  | answerInstall hinstall | install _ hinstall =>
    obtain ⟨rfl, -⟩ | ⟨-, rfl⟩ := Raft.installSnapshot_spec hinstall
    · exact .inl ⟨hleader, rfl⟩
    · cases hleader
  | applyLoop hloop =>
    obtain ⟨applied, flag, rfl⟩ := Raft.applyLoop_spec (hloop.imp And.right And.right)
    exact .inl ⟨hleader, rfl⟩
  | @consume msg =>
    cases msg with
    | entry | snapshotRequest | snapshot => exact .inl ⟨hleader, rfl⟩
  | installDone _ hdone =>
    obtain ⟨rf₁, rfl, ⟨-, rfl⟩ | ⟨-, rfl⟩ | ⟨rf₂, -, htrim, rfl⟩⟩ := Raft.installDone_spec hdone
    · exact .inl ⟨hleader, rfl⟩
    · exact .inl ⟨hleader, rfl⟩
    · obtain ⟨entry, -, rfl⟩ := Raft.trimTo_spec htrim
      exact .inl ⟨hleader, rfl⟩
  | trimJob _ _ htrim =>
    obtain ⟨entry, -, rfl⟩ := Raft.trimTo_spec htrim
    exact .inl ⟨hleader, rfl⟩
  | _ => exact .inl ⟨hleader, rfl⟩

end

/-- Over a run: the logs are settled where they are cut, a success on the network was true when
it was given or comes from a tenure that is over, and the books of a leader were true at
some moment of its term. -/
structure MatchInv (cluster : Cluster) (past : List (World σ)) (w : World σ) : Prop where
  sim : ∃ h, Sim cluster h w ∧ ∀ u ∈ cluster.members,
    SettledInv (Settled cluster h u (w.nodes u).rf) (w.nodes u)
  acks : ∀ p ∈ cluster.members, ∀ req resp, .appendResponse p req resp ∈ w.net →
    resp.success = true → req.leaderId ∈ cluster.members ∧
      (∃ w₁, LedIn past req.leaderId req.term w₁) ∧
      (MatchedIn cluster past req.leaderId p req.term (req.prevLogIndex + req.entries.length) ∨
        ¬ ((w.nodes req.leaderId).rf.state = .leader ∧ (w.nodes req.leaderId).rf.term = req.term))
  books : ∀ u ∈ cluster.members, (w.nodes u).rf.state = .leader → ∀ p ∈ cluster.peers u, ∀ m,
    (w.nodes u).rf.matchIndex p = some m → MatchedIn cluster past u p (w.nodes u).rf.term m

section

variable {cluster : Cluster} {h h' : RunHistory} {past : List (World σ)} {w w' : World σ}
  {u : NodeId} {nd' : Node σ} {out : List (Msg σ)} {act : Action σ}

lemma TenureInv.over_step (htenure : TenureInv past w) (hrole : Raft.RoleStep (w.nodes u).rf nd'.rf)
    {v : NodeId} {t : Nat} {w₁ : World σ} (hled : LedIn past v t w₁)
    (hover : ¬ ((w.nodes v).rf.state = .leader ∧ (w.nodes v).rf.term = t)) :
    ¬ ((update w.nodes u nd' v).rf.state = .leader ∧
      (update w.nodes u nd' v).rf.term = t) := by
  by_cases hv : v = u
  · subst hv
    rw [update_self]
    rintro ⟨hleader, hterm⟩
    obtain ⟨hsame, hwas | hstood⟩ := hrole.leader hleader
    · exact hover ⟨hwas, hsame.symm.trans hterm⟩
    · exact (htenure.stood v t w₁ hled).2 ⟨hstood, hsame.symm.trans hterm⟩
  · rw [update_of_ne hv]
    exact hover

variable [DecidableEq σ] {machine : StateMachine σ}

section

variable (hinv : MatchInv cluster past w)
  (hpath : Path (World.step machine cluster) MatchStep (.init machine cluster) past w)
  (hu : u ∈ cluster.members) (hok : MatchStep w (u, act))
  (hstep : (w.nodes u).step machine cluster w.net act = some (nd', out))

include hinv hpath hu hok hstep

/-- The successes on the network after a step: one that is new was true when the call was
handled, if its leader still leads then. -/
lemma MatchInv.acks_step
    (hw' : w' = { nodes := update w.nodes u nd', net := w.net ++ out })
    (hsim' : Sim cluster h' w') (hsettled : SettledInv (Settled cluster h' u nd'.rf) nd')
    (hp : p ∈ cluster.members) (hmsg : .appendResponse p req resp ∈ w'.net)
    (hsuccess : resp.success = true) :
    req.leaderId ∈ cluster.members ∧ (∃ w₁, LedIn (w' :: past) req.leaderId req.term w₁) ∧
      (MatchedIn cluster (w' :: past) req.leaderId p req.term
          (req.prevLogIndex + req.entries.length) ∨
        ¬ ((w'.nodes req.leaderId).rf.state = .leader ∧
          (w'.nodes req.leaderId).rf.term = req.term)) := by
  obtain ⟨votes, lineage, helection, hlineage⟩ := LineageInv.reachable hpath
  have hold := helection.nodes u hu
  have hrole := (Node.step_change hold.saved hstep).2
  have hnet : .appendResponse p req resp ∈ w.net ++ out := by
    rw [hw'] at hmsg
    exact hmsg
  obtain hmsg | hmsg := mem_append.mp hnet
  · obtain ⟨hleader, ⟨w₁, hled⟩, hcase⟩ := hinv.acks p hp req resp hmsg hsuccess
    refine ⟨hleader, ⟨w₁, hled.cons w'⟩, hcase.imp (fun hmatched => hmatched.cons w') fun hover => ?_⟩
    rw [hw']
    exact (TenureInv.reachable hpath).over_step hrole hled hover
  obtain ⟨rfl, rfl, hcall, happend⟩ := Node.step_sent hstep hmsg
  obtain ⟨hleader, w₁, hled, -, -⟩ := hlineage.calls _ req hcall
  refine ⟨hleader, ⟨w₁, hled.cons w'⟩, ?_⟩
  by_cases hleads : (w'.nodes req.leaderId).rf.state = .leader ∧
      (w'.nodes req.leaderId).rf.term = req.term
  · refine .inl ⟨w', ⟨mem_cons_self, hleads⟩, ?_⟩
    obtain ⟨hcurrent, hend⟩ := Raft.appendEntries_acked happend hsuccess hok.1
    have hself : w'.nodes u = nd' := by
      rw [hw']
      exact update_self _ _ _
    have hmem : .appendEntries (w.nodes u).rf.me req ∈ w'.net := by
      rw [hw']
      exact mem_append_left _ hcall
    rw [hold.me]
    refine .acked hsim' hu hleader (hsim'.net _ hmem) hleads.1 hleads.2 ?_ ?_ ?_
    · rw [hself]
      exact hsettled.base
    · rw [hself]
      exact hcurrent
    · rw [hself]
      exact hend
  · exact .inr hleads

lemma MatchInv.books_step
    (hw' : w' = { nodes := update w.nodes u nd', net := w.net ++ out })
    (hsim : Sim cluster h w) (hcont : Continues h h') (hsim' : Sim cluster h' w')
    (hsettled : ∀ v ∈ cluster.members, SettledInv (Settled cluster h' v (w'.nodes v).rf) (w'.nodes
      v)) (hleader : nd'.rf.state = .leader) (hp : p ∈ cluster.peers u) {m : Nat}
    (hm : nd'.rf.matchIndex p = some m) : MatchedIn cluster (w' :: past) u p nd'.rf.term m := by
  obtain ⟨votes, helection⟩ := ElectionInv.reachable (hpath.reach.mono fun _ _ _ => trivial)
  have hold := helection.nodes u hu
  obtain ⟨hmember, hne⟩ : p ∈ cluster.members ∧ p ≠ u := by
    simpa [Cluster.peers] using hp
  have hrole := (Node.step_change hold.saved hstep).2
  have hterm := (hrole.leader hleader).1
  have hself : w'.nodes u = nd' := by
    rw [hw']
    exact update_self _ _ _
  have hother : w'.nodes p = w.nodes p := by
    rw [hw']
    exact update_of_ne hne _ _
  have hnow : LedIn (w' :: past) u nd'.rf.term w' := by
    refine ⟨mem_cons_self, ?_, ?_⟩
    · rw [hself]
      exact hleader
    · rw [hself]
  rw [← hold.peers] at hp
  obtain ⟨hled, hsame⟩ | hzero | ⟨req, resp, rfl, hmsg, hsuccess, hle, hend⟩ |
    ⟨req, resp, rfl, hsent, hle, hend⟩ := Node.step_match hstep hleader hp
  · rw [hsame] at hm
    rw [hold.peers] at hp
    rw [hterm]
    exact (hinv.books u hu hled p hp m hm).cons w'
  · rw [hzero] at hm
    cases hm
    exact ⟨w', hnow, .of_share hsim' hmember hu (.zero _ _)⟩
  · rw [hend] at hm
    cases hm
    -- the response is folded in by the leader that made the call
    obtain ⟨hlead, hcurrent⟩ := hok.1 hle hsuccess
    obtain ⟨hsender, ⟨w₁, hled⟩, hcase⟩ := hinv.acks p hmember req resp hmsg hsuccess
    obtain rfl := led_unique hpath hsender hu hled ⟨hpath.mem, hlead, hcurrent⟩
    rw [hterm, hcurrent]
    exact (hcase.resolve_right fun hover => hover ⟨hlead, hcurrent⟩).cons w'
  rw [hend] at hm
  cases hm
  have hok' : SnapshotOk cluster h (w.nodes u).rf.term req.lastIncludedIndex
    req.lastIncludedTerm := (hsim.items u hu).transfers _ hsent
  have hheld := hok.2 hle
  rw [← hother] at hheld
  refine ⟨w', hnow, .snapshot hsim' hmember hu ?_ ?_ (hsettled p hmember).base hheld⟩
  · rw [hself]
    exact hleader
  · rw [hself, hterm]
    exact hok'.mono hcont.ext le_rfl

end

omit [DecidableEq σ] in
lemma MatchInv.init (machine : StateMachine σ) (cluster : Cluster) :
    MatchInv cluster [World.init machine cluster] (World.init machine cluster) where
  sim := by
    refine ⟨_, .init machine cluster, fun u _ => ?_⟩
    exact .booted (.inl rfl)
  acks := by
    intro p _ req resp hmsg
    cases hmsg
  books := by
    intro u _ hleader
    cases hleader

lemma MatchInv.reachable
    (hpath : Path (World.step machine cluster) MatchStep (.init machine cluster) past w) :
    MatchInv cluster past w := by
  refine hpath.invariant (MatchInv cluster) (.init machine cluster) ?_
  rintro past w w' ⟨u, act⟩ hpath hinv hok hstep
  obtain ⟨nd', out, hu, hnode, hw'⟩ := World.step_inv hstep
  have hreach := hpath.reach.mono fun _ _ _ => trivial
  obtain ⟨h, hsim, hsettled⟩ := hinv.sim
  obtain ⟨h', hmatch⟩ := step_sim hsim hu hok.1 hnode
  have hsim' : Sim cluster h' w' := by
    rw [hw']
    exact hsim.step hu hnode hmatch
  have hself : SettledInv (Settled cluster h' u nd'.rf) nd' := by
    refine SettledInv.step hsim hu (IndexInv.reachable hreach).calls
      (CompactInv.reachable hreach hu) hok.1 ?_ hnode hmatch (hsettled u hu)
    rintro rfl i t hpending
    exact hok.2 (i, t) hpending
  have hall : ∀ v ∈ cluster.members,
      SettledInv (Settled cluster h' v (w'.nodes v).rf) (w'.nodes v) := by
    intro v hv
    rw [hw']
    by_cases hvu : v = u
    · subst hvu
      simpa only [update_self] using hself
    · simp only [update_of_ne hvu]
      exact (hsettled v hv).mono fun k hk => hk.other hmatch hvu
  refine ⟨⟨h', hsim', hall⟩, fun p hp req resp hmsg hsuccess =>
    hinv.acks_step hpath hu hok hnode hw' hsim' hself hp hmsg hsuccess,
    fun v hv hleader p hp m hm => ?_⟩
  by_cases hvu : v = u
  · subst hvu
    have hnode' : w'.nodes v = nd' := by
      rw [hw']
      exact update_self _ _ _
    rw [hnode'] at hleader hm ⊢
    exact hinv.books_step hpath hv hok hnode hw' hsim hmatch.cont hsim' hall hleader hp hm
  · have hsame : w'.nodes v = w.nodes v := by
      rw [hw']
      exact update_of_ne hvu _ _
    rw [hsame] at hleader hm ⊢
    exact (hinv.books v hv hleader p hp m hm).cons w'

/-- Only a leader gets past the commit loop with a higher commit index, if its responses are
its own. -/
lemma counts_leader {nd : Node σ} {net : List (Msg σ)}
    (hsafe : ∀ p req resp, act = .appendResponse p req resp → nd.rf.ResponseSafe req resp)
    (hstep : nd.step machine cluster net act = some (nd', out)) (hcounts : act.counts = true)
    (hraised : nd.rf.lastCommitIndex < nd'.rf.lastCommitIndex) : nd'.rf.state = .leader := by
  cases Node.stepped hstep with
  | elected => rfl
  | sendVoteRequest => exact absurd hraised (lt_irrefl _)
  | voteResponse _ _ _ hvote =>
    obtain ⟨-, rfl | ⟨-, rfl⟩⟩ | ⟨-, -, -, -, rfl | ⟨-, rfl⟩⟩ := Raft.voteResponse_spec hvote
    · exact absurd hraised (lt_irrefl _)
    · exact absurd hraised (lt_irrefl _)
    · exact absurd hraised (lt_irrefl _)
    · rfl
  | propose hleader => exact hleader
  | @appendResponse p req resp =>
    unfold Raft.applyAppendResponse at hraised ⊢
    by_cases hlt : nd.rf.term < resp.term
    · rw [if_pos hlt] at hraised
      exact absurd hraised (lt_irrefl _)
    rw [if_neg hlt] at hraised ⊢
    by_cases hsuccess : resp.success = true
    · have hleader := (hsafe p req resp rfl (le_of_not_gt hlt) hsuccess).1
      rw [if_pos hsuccess]
      obtain ⟨rf₁, hsucceeded, rfl | ⟨nextIndex, rfl⟩⟩ := Raft.appendSucceeded_spec nd.rf p req
      · rw [hsucceeded]
        exact hleader
      · rw [hsucceeded]
        exact hleader
    · rw [if_neg hsuccess] at hraised
      exact absurd hraised (lt_irrefl _)
  | _ => cases hcounts

/-- The books are sound: in every run whose steps meet the condition, what a leader's match
index says of a peer was true at some moment of the leader's term, and whoever raises its
commit index by counting leads. -/
theorem match_index_sound
    (hpath : Path (World.step machine cluster) MatchStep (.init machine cluster) past w) :
    (∀ u ∈ cluster.members, (w.nodes u).rf.state = .leader → ∀ p ∈ cluster.peers u, ∀ m n,
        (w.nodes u).rf.matchIndex p = some m → n ≤ m →
        MatchedIn cluster past u p (w.nodes u).rf.term n) ∧
      ∀ u act w', MatchStep w (u, act) → w.step machine cluster (u, act) = some w' →
        act.counts = true → (w.nodes u).rf.lastCommitIndex < (w'.nodes u).rf.lastCommitIndex →
        (w'.nodes u).rf.state = .leader := by
  constructor
  · intro u hu hleader p hp m n hm hn
    exact ((MatchInv.reachable hpath).books u hu hleader p hp m hm).le hn
  · intro u act w' hok hstep hcounts hraised
    obtain ⟨nd', out, -, hnode, rfl⟩ := World.step_inv hstep
    simp only [update_self] at hraised ⊢
    refine counts_leader (fun p req resp hact => ?_) hnode hcounts hraised
    subst hact
    exact hok.1

end

/-- The books of a leader that has heard of one success. -/
theorem match_index_sound_trio :
    ∃ (past : List (World Nat)) (w : World Nat),
      Path (World.step counter trio) MatchStep (.init counter trio) past w ∧
      (w.nodes 1).rf.state = .leader ∧ (w.nodes 1).rf.matchIndex 2 = some 2 ∧
      MatchedIn trio past 1 2 (w.nodes 1).rf.term 2 := by
  obtain ⟨w, hreach, hleader, hmatch⟩ : ∃ w,
      Reach (World.step counter trio) MatchStep (.init counter trio) w ∧
        (w.nodes 1).rf.state = .leader ∧ (w.nodes 1).rf.matchIndex 2 = some 2 :=
    Reach.exists_decide commitRun (by decide +kernel)
  obtain ⟨past, hpath⟩ := hreach.exists_path
  exact ⟨past, w, hpath, hleader, hmatch,
    (match_index_sound hpath).1 1 (by decide) hleader 2 (by decide) 2 2 hmatch le_rfl⟩

lemma quintet_nodup : [1, 2, 3, 4, 5].Nodup := by decide

lemma quintet_pos : 0 < 1000 := by decide

def quintet : Cluster where
  members := [1, 2, 3, 4, 5]
  nodup := quintet_nodup
  maxLogLength := 1000
  maxLogLength_pos := quintet_pos

/-- Node 2 acknowledges two entries of node 1's term 1. Node 3 wins term 2 with nodes 4 and 5
and replaces node 2's log by its own no-op, node 1 wins term 3 with the same two, and only
then the acknowledgement of term 1 arrives. -/
def staleAckRun : List (NodeId × Action Nat) :=
  let vote : RequestVoteRequest := ⟨1, 1, 0, 0⟩
  let vote₂ : RequestVoteRequest := ⟨2, 3, 0, 0⟩
  let vote₃ : RequestVoteRequest := ⟨3, 1, 2, 1⟩
  let call : AppendEntriesRequest :=
    { term := 1, leaderId := 1, prevLogIndex := 0, prevLogTerm := 0,
      entries := [⟨1, 1, []⟩, ⟨2, 1, [7]⟩], leaderCommit := 0 }
  let call₂ : AppendEntriesRequest :=
    { term := 2, leaderId := 3, prevLogIndex := 0, prevLogTerm := 0,
      entries := [⟨1, 2, []⟩], leaderCommit := 0 }
  [(1, .startElection), (1, .sendVoteRequest), (2, .requestVote vote), (3, .requestVote vote),
    (1, .voteResponse { req := vote, votes := 1, waiting := [2, 3, 4, 5] } 2 ⟨1, true⟩),
    (1, .voteResponse { req := vote, votes := 2, waiting := [3, 4, 5] } 3 ⟨1, true⟩),
    (1, .propose [7]), (1, .replicate 2), (2, .appendEntries call),
    (3, .startElection), (3, .sendVoteRequest), (4, .requestVote vote₂), (5, .requestVote vote₂),
    (3, .voteResponse { req := vote₂, votes := 1, waiting := [1, 2, 4, 5] } 4 ⟨2, true⟩),
    (3, .voteResponse { req := vote₂, votes := 2, waiting := [1, 2, 5] } 5 ⟨2, true⟩),
    (3, .replicate 2), (2, .appendEntries call₂), (1, .requestVote vote₂),
    (1, .startElection), (1, .sendVoteRequest), (4, .requestVote vote₃), (5, .requestVote vote₃),
    (1, .voteResponse { req := vote₃, votes := 1, waiting := [2, 3, 4, 5] } 4 ⟨3, true⟩),
    (1, .voteResponse { req := vote₃, votes := 2, waiting := [2, 3, 5] } 5 ⟨3, true⟩),
    (1, .appendResponse 2 call ⟨1, true, 0, 0⟩)]

/-- Node 2 acknowledges a command of node 1's term 1 and loses it to an earlier call that
arrives late. Node 3 wins term 2 with node 2 and puts its no-op at the command's index into
node 1's log, and then the acknowledgement reaches node 1, which follows. -/
def deposedAckRun : List (NodeId × Action Nat) :=
  let vote : RequestVoteRequest := ⟨1, 1, 0, 0⟩
  let vote₂ : RequestVoteRequest := ⟨2, 3, 1, 1⟩
  let early : AppendEntriesRequest :=
    { term := 1, leaderId := 1, prevLogIndex := 0, prevLogTerm := 0,
      entries := [⟨1, 1, []⟩], leaderCommit := 0 }
  let call : AppendEntriesRequest :=
    { term := 1, leaderId := 1, prevLogIndex := 0, prevLogTerm := 0,
      entries := [⟨1, 1, []⟩, ⟨2, 1, [7]⟩], leaderCommit := 0 }
  let call₂ : AppendEntriesRequest :=
    { term := 2, leaderId := 3, prevLogIndex := 1, prevLogTerm := 1,
      entries := [⟨2, 2, []⟩], leaderCommit := 0 }
  [(1, .startElection), (1, .sendVoteRequest), (2, .requestVote vote),
    (1, .voteResponse { req := vote, votes := 1, waiting := [2, 3] } 2 ⟨1, true⟩),
    (1, .replicate 2), (1, .replicate 3), (1, .propose [7]), (1, .replicate 2),
    (2, .appendEntries call), (2, .appendEntries early), (3, .appendEntries early),
    (3, .startElection), (3, .sendVoteRequest), (2, .requestVote vote₂),
    (3, .voteResponse { req := vote₂, votes := 1, waiting := [1, 2] } 2 ⟨2, true⟩),
    (3, .replicate 1), (1, .appendEntries call₂)]

def lateAck : Action Nat :=
  .appendResponse 2
    { term := 1, leaderId := 1, prevLogIndex := 0, prevLogTerm := 0,
      entries := [⟨1, 1, []⟩, ⟨2, 1, [7]⟩], leaderCommit := 0 } ⟨1, true, 0, 0⟩

/-- Without the condition a leader books an index that the peer did not reach at any moment of
its term, and a follower raises its commit index by counting. -/
theorem match_index_unsound :
    (∃ (past : List (World Nat)) (w : World Nat),
      Path (World.step counter quintet) (fun _ _ => True) (.init counter quintet) past w ∧
        (w.nodes 1).rf.state = .leader ∧ (w.nodes 1).rf.term = 3 ∧
        (w.nodes 1).rf.matchIndex 2 = some 2 ∧
        ∀ w₁, LedIn past 1 3 w₁ → (w₁.nodes 2).rf.log.lastLogIndex < 2) ∧
      ∃ w w' : World Nat, Reachable (World.step counter trio) (.init counter trio) w ∧
        w.step counter trio (1, lateAck) = some w' ∧
        (w.nodes 1).rf.lastCommitIndex < (w'.nodes 1).rf.lastCommitIndex ∧
        (w.nodes 1).rf.state = .follower ∧ (w'.nodes 1).rf.state = .follower := by
  constructor
  · have hrun : (run (World.step counter quintet)
        (fun w _ => (w.nodes 1).rf.state = .leader ∧ (w.nodes 1).rf.term = 3 →
          (w.nodes 2).rf.log.lastLogIndex < 2) (.init counter quintet) staleAckRun).any
        (fun w => decide ((w.nodes 1).rf.state = .leader ∧ (w.nodes 1).rf.term = 3 ∧
          (w.nodes 1).rf.matchIndex 2 = some 2 ∧ (w.nodes 2).rf.log.lastLogIndex < 2)) = true := by
      decide +kernel
    obtain ⟨w, hreach, hend⟩ := Reach.exists_of_run hrun
    obtain ⟨hleader, hterm, hmatch, hlast⟩ := of_decide_eq_true hend
    obtain ⟨past, hpath⟩ := hreach.exists_path
    have hall := hpath.all_of_ok fun _ => hlast
    exact ⟨past, w, hpath.mono fun _ _ _ => trivial, hleader, hterm, hmatch,
      fun w₁ hled => hall w₁ hled.1 hled.2⟩
  · exact Reach.exists_decide_step deposedAckRun (by decide +kernel)

end stratum.raft
