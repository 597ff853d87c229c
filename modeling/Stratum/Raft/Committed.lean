import Stratum.Raft.SnapshotFlow
import Stratum.Raft.CrashSafe

open stratum.lib stratum.kvstorage stratum.kvraft List

namespace stratum.raft

open Node Raft World

variable {σ : Type}

/-- At some moment of the run some node's commit index had reached `n`. -/
def CommittedIn (cluster : Cluster) (past : List (World σ)) (n : Nat) : Prop :=
  n = 0 ∨ ∃ w ∈ past, ∃ v ∈ cluster.members, n ≤ (w.nodes v).rf.lastCommitIndex

section

variable {cluster : Cluster} {past : List (World σ)} {m n : Nat} (hn : CommittedIn cluster past n)

include hn

lemma CommittedIn.le (hle : m ≤ n) : CommittedIn cluster past m := by
  obtain rfl | ⟨w, hw, v, hv, hreached⟩ := hn
  · exact .inl (Nat.le_zero.mp hle)
  · exact .inr ⟨w, hw, v, hv, le_trans hle hreached⟩

lemma CommittedIn.cons (w : World σ) : CommittedIn cluster (w :: past) n := by
  obtain hzero | ⟨w', hw', hreached⟩ := hn
  · exact .inl hzero
  · exact .inr ⟨w', mem_cons_of_mem _ hw', hreached⟩

end

def Transfer.index : Transfer σ → Nat
  | .chosen _ i _ => i
  | .copied _ i _ _ => i
  | .loaded _ i _ _ => i
  | .sent _ req => req.lastIncludedIndex

/-- Everything a process takes to be applied, and every snapshot it holds, sends or has
received, lies at a position that satisfies `C`. -/
structure CoveredInv (C : Nat → Prop) (nd : Node σ) : Prop where
  applied : C nd.rf.lastApplied
  file : C nd.rf.persister.lastIndex
  transfers : ∀ t ∈ nd.transfers, C t.index
  installs : ∀ inst ∈ nd.installs, C inst.req.lastIncludedIndex
  channel : ∀ data i t, ApplyMsg.snapshot data i t ∈ nd.applyCh → C i
  installing : ∀ i t, nd.installing = some (i, t) → C i

def NetCovered (C : Nat → Prop) (net : List (Msg σ)) : Prop :=
  ∀ p req, Msg.installSnapshot p req ∈ net → C req.lastIncludedIndex

variable {C : Nat → Prop} {nd nd' : Node σ} {net out : List (Msg σ)}

lemma CoveredInv.mono {C' : Nat → Prop} (hinv : CoveredInv C nd) (himp : ∀ n, C n → C' n) :
    CoveredInv C' nd where
  applied := himp _ hinv.applied
  file := himp _ hinv.file
  transfers := fun t ht => himp _ (hinv.transfers t ht)
  installs := fun inst hinst => himp _ (hinv.installs inst hinst)
  channel := fun data i t hmsg => himp _ (hinv.channel data i t hmsg)
  installing := fun i t hpending => himp _ (hinv.installing i t hpending)

variable [DecidableEq σ] {machine : StateMachine σ} {cluster : Cluster} {act : Action σ}

lemma CoveredInv.step_snapshots (hinv : CoveredInv C nd) (hnet : NetCovered C net)
    (hbase : C nd.rf.log.base.index) (hstep : nd.step machine cluster net act = some (nd', out)) :
    (∀ t ∈ nd'.transfers, C t.index) ∧ (∀ inst ∈ nd'.installs, C inst.req.lastIncludedIndex) ∧
      NetCovered C out := by
  have hflow := Node.step_snapshots hstep
  refine ⟨fun t ht => ?_, fun inst hinst => ?_, fun p req hmsg => ?_⟩
  · obtain ht | ⟨p, rfl⟩ | ⟨p, i, s, -, hchosen, rfl⟩ | ⟨p, i, s, data, hcopied, rfl⟩ |
      ⟨msg, rest, -, -, ht⟩ | ⟨p, req, hloaded, -, -, rfl⟩ := hflow.transfers t ht
    · exact hinv.transfers t ht
    · exact hbase
    · have hindex := hinv.transfers _ hchosen
      obtain ⟨data, heq⟩ | heq := Node.snapshotHandler_cases nd p i s
      all_goals
        rw [heq]
        exact hindex
    · have hindex := hinv.transfers _ hcopied
      exact hindex
    · have hindex : ∀ t ∈ (Node.handleMsg machine nd msg).transfers, C t.index :=
        Node.forall_transfers_handleMsg hinv.transfers (fun _ _ _ _ _ hcopied => hcopied)
          (fun _ _ _ _ hcopied => hcopied) msg
      exact hindex t ht
    · have hindex := hinv.transfers _ hloaded
      exact hindex
  · obtain hinst | hmsg := hflow.installs inst hinst
    · exact hinv.installs inst hinst
    · exact hnet _ inst.req hmsg
  · exact hinv.transfers _ (hflow.sent p req hmsg).1

/-- What a step applies and saves: the apply loop moves only below the commit index, and a
snapshot file is written only for a snapshot that was received or a label that was applied. -/
lemma CoveredInv.step_applied (hinv : CoveredInv C nd) (hcompact : CompactInv nd)
    (hdown : ∀ m n, m ≤ n → C n → C m) (hcommit : C nd.rf.lastCommitIndex)
    (hnet : CallsIndexed net) (hstep : nd.step machine cluster net act = some (nd', out)) :
    C nd'.rf.lastApplied ∧ C nd'.rf.persister.lastIndex ∧
      (∀ data i t, ApplyMsg.snapshot data i t ∈ nd'.applyCh → C i) ∧
      ∀ i t, nd'.installing = some (i, t) → C i := by
  have hsaved : ∀ data i, C i → C (nd.rf.persister.saveSnapshot data i).lastIndex := by
    intro data i hi
    obtain ⟨-, -, -, hsame | hnew⟩ := Persister.saveSnapshot_spec data i hcompact.guard
    · rw [hsame]
      exact hinv.file
    · rw [hnew]
      exact hi
  cases hside : act.applySide with
  | false =>
    have hframe := step_frame hnet hside hstep
    rw [hframe.rf.lastApplied, hframe.rf.lastIndex, hframe.applyCh, hframe.installing]
    exact ⟨hinv.applied, hinv.file, hinv.channel, hinv.installing⟩
  | true =>
  cases stepped hstep with
  | handOff hinst hmsg =>
    subst hmsg
    refine ⟨hinv.applied, hinv.file, fun data i t hmsg => ?_, hinv.installing⟩
    obtain hmsg | hmsg := mem_append.mp hmsg
    · exact hinv.channel data i t hmsg
    · cases mem_singleton.mp hmsg
      exact hinv.installs _ hinst
  | applyLoop hloop =>
    obtain ⟨rfl, -⟩ | hinner :=
      applyLoop_cases hcompact.baseApplied (hloop.imp And.right And.right)
    · exact ⟨hinv.applied, hinv.file, hinv.channel, hinv.installing⟩
    obtain ⟨entry, hroom, -, rfl, -⟩ | ⟨-, rfl, -, -⟩ | ⟨rfl, -⟩ :=
      applyLoopInner_spec hinner
    · exact ⟨hdown _ _ hroom hcommit, hinv.file, hinv.channel, hinv.installing⟩
    all_goals exact ⟨hinv.applied, hinv.file, hinv.channel, hinv.installing⟩
  | sendEntry | requestSnapshot =>
    refine ⟨hinv.applied, hinv.file, fun data i t hmsg => ?_, hinv.installing⟩
    obtain hmsg | hmsg := mem_append.mp hmsg
    · exact hinv.channel data i t hmsg
    · cases mem_singleton.mp hmsg
  | @consume msg rest _ hch =>
    have hchannel : ∀ data i t, ApplyMsg.snapshot data i t ∈ rest → C i := by
      intro data i t hmsg
      exact hinv.channel data i t (hch ▸ mem_cons_of_mem _ hmsg)
    cases msg with
    | entry | snapshotRequest => exact ⟨hinv.applied, hinv.file, hchannel, hinv.installing⟩
    | snapshot data i t =>
    have hi : C i := hinv.channel data i t (hch ▸ mem_cons_self)
    refine ⟨hinv.applied, hsaved data i hi, hchannel, fun i' t' hpending => ?_⟩
    cases hpending
    exact hi
  | @installDone i t rf' hpending hdone =>
    have hi := hinv.installing i t hpending
    have happlied : C (max nd.rf.lastApplied i) := by
      obtain hle | hle := le_total nd.rf.lastApplied i
      · rwa [max_eq_right hle]
      · rw [max_eq_left hle]
        exact hinv.applied
    have hrf' : C rf'.lastApplied ∧ C rf'.persister.lastIndex := by
      obtain ⟨rf₁, rfl, ⟨-, rfl⟩ | ⟨-, rfl⟩ | ⟨rf₂, -, htrim, rfl⟩⟩ := installDone_spec hdone
      · exact ⟨happlied, hinv.file⟩
      · exact ⟨happlied, hinv.file⟩
      · obtain ⟨entry, -, rfl⟩ := trimTo_spec htrim
        exact ⟨happlied, hinv.file⟩
    refine ⟨hrf'.1, hrf'.2, hinv.channel, fun i' t' hnone => ?_⟩
    cases hnone
  | saveJob hjob =>
    have hlabel : Labelled nd.consumed nd.bootIndex nd.rf.lastApplied _ := hcompact.jobs _ hjob
    have hi := hdown _ _ hlabel.applied hinv.applied
    exact ⟨hinv.applied, hsaved _ _ hi, hinv.channel, hinv.installing⟩
  | trimJob _ _ htrim =>
    obtain ⟨entry, -, rfl⟩ := trimTo_spec htrim
    exact ⟨hinv.applied, hinv.file, hinv.channel, hinv.installing⟩
  | encodeJob | checkJob | keepJob | finishJob =>
    exact ⟨hinv.applied, hinv.file, hinv.channel, hinv.installing⟩
  | restart | crashInHandler =>
    obtain ⟨rf', -, -, hsnapshot, heq⟩ := crash_inv rfl hstep
    rw [heq]
    have hfile : C rf'.persister.lastIndex := by
      rw [Persister.lastIndex, hsnapshot]
      exact hinv.file
    refine ⟨hfile, hfile, fun data i t hmsg => ?_, fun i t hnone => ?_⟩
    · cases hmsg
    · cases hnone
  | _ => cases hside

variable {Ok : World σ → NodeId × Action σ → Prop} {past : List (World σ)} {w : World σ} {u : NodeId}

lemma committed_covered
    (hpath : Path (step machine cluster) Ok (.init machine cluster) past w) :
    (∀ u ∈ cluster.members, CoveredInv (CommittedIn cluster past) (w.nodes u)) ∧
      NetCovered (CommittedIn cluster past) w.net := by
  refine hpath.invariant (fun past w => (∀ u ∈ cluster.members,
    CoveredInv (CommittedIn cluster past) (w.nodes u)) ∧ NetCovered (CommittedIn cluster past) w.net)
    ?_ ?_
  · refine ⟨fun u _ => ⟨.inl rfl, .inl rfl, ?_, ?_, ?_, ?_⟩, fun _ _ hmsg => (nomatch hmsg)⟩
    · exact fun _ ht => (nomatch ht)
    · exact fun _ hinst => (nomatch hinst)
    · exact fun _ _ _ hmsg => (nomatch hmsg)
    · exact fun _ _ hnone => (nomatch hnone)
  rintro past w w' ⟨u, act⟩ hpath ⟨hnodes, hnet⟩ - hstep
  obtain ⟨nd', out, hu, hnode, rfl⟩ := step_inv hstep
  have hreach : Reachable (step machine cluster) (.init machine cluster) w :=
    hpath.reach.mono fun _ _ _ => trivial
  have hcompact := CompactInv.reachable hreach hu
  have hbase : CommittedIn cluster past (w.nodes u).rf.log.base.index :=
    (hnodes u hu).file.le hcompact.baseSaved
  have hcommit : CommittedIn cluster past (w.nodes u).rf.lastCommitIndex :=
    .inr ⟨w, hpath.mem, u, hu, le_rfl⟩
  obtain ⟨htransfers, hinstalls, hout⟩ := (hnodes u hu).step_snapshots hnet hbase hnode
  obtain ⟨happlied, hfile, hchannel, hinstalling⟩ := (hnodes u hu).step_applied hcompact
    (fun _ _ hle hn => hn.le hle) hcommit (IndexInv.reachable hreach).calls hnode
  refine ⟨fun v hv => ?_, fun p req hmsg => ?_⟩
  · refine CoveredInv.mono ?_ fun n (hn : CommittedIn cluster past n) => hn.cons _
    by_cases hvu : v = u
    · subst hvu
      simp only [Function.update_self]
      exact ⟨happlied, hfile, htransfers, hinstalls, hchannel, hinstalling⟩
    · simp only [Function.update_of_ne hvu]
      exact hnodes v hv
  · refine CommittedIn.cons ?_ _
    obtain hmsg | hmsg := mem_append.mp hmsg
    · exact hnet p req hmsg
    · exact hout p req hmsg

end stratum.raft
