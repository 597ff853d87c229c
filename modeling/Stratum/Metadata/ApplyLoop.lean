import Stratum.Metadata.Idempotent
import Stratum.Metadata.Revised

namespace stratum.metadata

open stratum.lib StateMachine List

/-- Every version that still needs its data synchronised. All ids of the map are below the next
one. -/
def StateMachine.listAllVersions (sm : StateMachine) : List VersionMeta :=
  ((range sm.nextVersionID).filterMap sm.versions).filter fun v =>
    ¬ (v.indexStatus = .pending ∨ v.deleting = true)

/-- The version an applied command is about, zero for none. -/
def versionIDOf (cmd : Command) (result : ApplyResult) : Nat :=
  match cmd with
  | .createVersion .. => result.versionID
  | .updateVersionStatus v .. | .updateVersionSummary v _ | .markVersionDeleting _ v _
  | .removeVersionMeta _ v | .markVersionFailedPermanent _ v .. | .retryVersion _ v _
  | .markDataDurable v | .discardVersion _ v => v
  | .createKB _ | .markKBDeleting _ | .markKBDeleteFailed _ | .removeKBMeta _ | .rollback ..
  | .unknown _ => 0

/-- The apply side of a node: its state machine, the channels that watch a version, those the
last message has signalled, and the calls of the version-created callback. -/
structure RaftNodeImpl where
  sm : StateMachine
  versionWatchers : List (Nat × Nat) := []
  signalled : List Nat := []
  announced : List (String × Nat) := []

namespace RaftNodeImpl

def notifyVersionChanged (impl : RaftNodeImpl) (versionID : Nat) : List Nat :=
  if versionID = 0 then [] else (impl.versionWatchers.filter (·.1 = versionID)).map Prod.snd

def handleEntryMsg (impl : RaftNodeImpl) (now : Int) (cmd : Command) : RaftNodeImpl :=
  let result := (impl.sm.apply now cmd).2
  { impl with
    sm := (impl.sm.apply now cmd).1
    signalled := impl.notifyVersionChanged (versionIDOf cmd result)
    announced := impl.announced ++
      match cmd, result.err with
      | .createVersion kbID _ _, none => [(kbID, result.versionID)]
      | _, _ => [] }

/-- An installed snapshot; the callback is called for what the node will not apply one by one. -/
def handleSnapshotMsg (impl : RaftNodeImpl) (data : SnapshotState) (minted : String) :
    RaftNodeImpl :=
  let sm := impl.sm.restore data minted
  { impl with
    sm := sm
    signalled := []
    announced := impl.announced ++ sm.listAllVersions.map fun v => (v.kbID, v.versionID) }

/-- A node that has applied the entries one by one. -/
def replayed (limit : Nat) (epoch : String) (entries : List (Int × Command)) : RaftNodeImpl :=
  entries.foldl (fun impl a => impl.handleEntryMsg a.1 a.2) { sm := newStateMachine limit epoch }

def Announced (impl : RaftNodeImpl) (v : Nat) : Prop := ∃ kbID, (kbID, v) ∈ impl.announced

/-- The metadata is well formed, and every version in it has been announced. -/
structure AllAnnounced (impl : RaftNodeImpl) : Prop where
  wf : WellFormed impl.sm
  announced : ∀ v m, impl.sm.versions v = some m → impl.Announced v

lemma AllAnnounced.handleEntryMsg {impl : RaftNodeImpl} (h : AllAnnounced impl) (now : Int)
    (cmd : Command) : AllAnnounced (impl.handleEntryMsg now cmd) := by
  refine ⟨h.wf.apply now cmd, fun v m' hm' => ?_⟩
  cases Source.of_apply hm' with
  | revised m hm =>
    obtain ⟨kbID, hmem⟩ := h.announced v m hm
    exact ⟨kbID, mem_append_left _ hmem⟩
  | allocated kbID parent clientRequestID hcmd hkb hnew hparent hv =>
  subst hcmd hv
  obtain ⟨kb, hkb⟩ := Option.isSome_iff_exists.mp hkb
  refine ⟨kbID, mem_append_right _ ?_⟩
  simp [apply, applyCreateVersion, hkb, hnew, hparent]

lemma AllAnnounced.replayed (limit : Nat) (epoch : String) (entries : List (Int × Command)) :
    AllAnnounced (replayed limit epoch entries) :=
  foldlRecOn entries _ ⟨wellFormed_newStateMachine limit epoch, nofun⟩
    fun _ h a _ => h.handleEntryMsg a.1 a.2

lemma mem_listAllVersions {sm : StateMachine} (hwf : WellFormed sm) {m : VersionMeta} :
    m ∈ sm.listAllVersions ↔
      sm.versions m.versionID = some m ∧ m.indexStatus ≠ .pending ∧ m.deleting = false := by
  rw [listAllVersions, mem_filter, mem_filterMap]
  constructor
  · rintro ⟨⟨v, -, hm⟩, hkept⟩
    rw [hwf.id_eq hm]
    exact ⟨hm, by simpa using hkept⟩
  · rintro ⟨hm, hkept⟩
    exact ⟨⟨m.versionID, mem_range.mpr (hwf.lt_next hm), hm⟩, by simpa using hkept⟩

end RaftNodeImpl

open RaftNodeImpl

/-- The callback of a node that installs a snapshot has been called for every live durable version
for which it is called on the node that applied the entries, exactly when it had been called
before for those of them whose index is pending. -/
theorem snapshot_announces_iff (limit : Nat) (epoch : String) (entries : List (Int × Command))
    (impl : RaftNodeImpl) (arrays : Nat → List Int) (minted : String) :
    (∀ v m, (replayed limit epoch entries).sm.versions v = some m → m.deleting = false →
      m.dataStatus = .durable → (replayed limit epoch entries).Announced v →
      (impl.handleSnapshotMsg ((replayed limit epoch entries).sm.deepCopy arrays)
        minted).Announced v) ↔
    ∀ v m, (replayed limit epoch entries).sm.versions v = some m → m.deleting = false →
      m.dataStatus = .durable → m.indexStatus = .pending → impl.Announced v := by
  have hall := AllAnnounced.replayed limit epoch entries
  generalize replayed limit epoch entries = source at hall ⊢
  have hwf : WellFormed (impl.sm.restore (source.sm.deepCopy arrays) minted) :=
    hall.wf.kept (keptAll_restore source.sm arrays impl.sm minted)
  constructor
  · intro hannounces v m hm hdel hdata hindex
    obtain ⟨kbID, hmem⟩ := hannounces v m hm hdel hdata (hall.announced v m hm)
    obtain hold | hnew := mem_append.mp hmem
    · exact ⟨kbID, hold⟩
    obtain ⟨m', hm', ⟨⟩⟩ := mem_map.mp hnew
    obtain ⟨hm', hready, -⟩ := (mem_listAllVersions hwf).mp hm'
    have heq := Option.some.inj ((restore_versions hm arrays impl.sm minted).symm.trans hm')
    exact absurd (congrArg VersionMeta.indexStatus heq ▸ hindex) hready
  · rintro hpending v m hm hdel hdata -
    by_cases hindex : m.indexStatus = .pending
    · obtain ⟨kbID, hmem⟩ := hpending v m hm hdel hdata hindex
      exact ⟨kbID, mem_append_left _ hmem⟩
    have hid := hall.wf.id_eq hm
    have hrestored := restore_versions hm arrays impl.sm minted
    rw [← hid] at hrestored
    have hlisted := (mem_listAllVersions hwf (m := { m with
      indexReadyNodes := (arrays m.versionID).take m.indexReadyNodes.length })).mpr
      ⟨hrestored, hindex, hdel⟩
    exact ⟨m.kbID, mem_append_right _ (mem_map.mpr ⟨_, hlisted, by rw [← hid]⟩)⟩

/-- A version whose data is durable while its index is still being built. -/
def durableRun : List (Int × Command) :=
  [(0, .createKB { kbID := "kb" }), (0, .createVersion "kb" 0 ""), (0, .markDataDurable 1)]

/-- A new node that installs a snapshot of the version is not told of it. -/
theorem durable_version_unannounced :
    (∃ m, (replayed 8 "epoch" durableRun).sm.versions 1 = some m ∧ m.deleting = false ∧
      m.dataStatus = .durable) ∧ (replayed 8 "epoch" durableRun).Announced 1 ∧
      ¬ (({ sm := newStateMachine 8 "epoch" } : RaftNodeImpl).handleSnapshotMsg
        ((replayed 8 "epoch" durableRun).sm.deepCopy fun _ => []) "").Announced 1 := by
  refine ⟨⟨_, rfl, rfl, rfl⟩, ⟨"kb", by decide +kernel⟩, ?_⟩
  rintro ⟨kbID, hmem⟩
  cases hmem

/-! ### Watching a version -/

namespace RaftNodeImpl

inductive Event
  | entry (now : Int) (cmd : Command)
  /-- A snapshot of a node that has applied the entries. -/
  | snapshot (limit : Nat) (epoch : String) (entries : List (Int × Command))
      (arrays : Nat → List Int) (minted : String)
  | watchVersion (versionID ch : Nat)
  | stop (versionID ch : Nat)

def step (impl : RaftNodeImpl) : Event → Option RaftNodeImpl
  | .entry now cmd => some (impl.handleEntryMsg now cmd)
  | .snapshot limit epoch entries arrays minted =>
    some (impl.handleSnapshotMsg ((replayed limit epoch entries).sm.deepCopy arrays) minted)
  | .watchVersion v ch => some { impl with
      versionWatchers := (v, ch) :: impl.versionWatchers, signalled := [] }
  | .stop v ch => some { impl with
      versionWatchers := impl.versionWatchers.erase (v, ch), signalled := [] }

/-- No watched version but the one a deletion names is deleted or moved by it, none goes with its
knowledge base, and a snapshot says of each what the node knows already. -/
def Named (impl : RaftNodeImpl) : Event → Prop
  | .entry _ (.markVersionDeleting kbID versionID mode) =>
    ∀ w ∈ impl.versionWatchers, w.1 ≠ versionID →
      (∀ targets, impl.sm.versionDeleteTargets kbID versionID mode = .ok targets → w.1 ∉ targets) ∧
        (mode = .single → w.1 ∉ impl.sm.childrenOf kbID versionID)
  | .entry _ (.removeKBMeta kbID) => ∀ w ∈ impl.versionWatchers, w.1 ∉ impl.sm.versionsByKB kbID
  | .snapshot limit epoch entries arrays _ => ∀ w ∈ impl.versionWatchers,
      ((replayed limit epoch entries).sm.deepCopy arrays).versions w.1 = impl.sm.versions w.1
  | _ => True

lemma wellFormed {limit : Nat} {epoch : String} {impl : RaftNodeImpl}
    (hreach : Reachable step { sm := newStateMachine limit epoch } impl) : WellFormed impl.sm := by
  refine hreach.invariant (fun impl => WellFormed impl.sm) (wellFormed_newStateMachine _ _) ?_
  intro impl impl' e _ hwf _ hstep
  cases e with
  | entry now cmd =>
    cases hstep
    exact hwf.apply now cmd
  | snapshot limit epoch entries arrays minted =>
    cases hstep
    exact (AllAnnounced.replayed limit epoch entries).wf.kept
      (keptAll_restore (replayed limit epoch entries).sm arrays impl.sm minted)
  | watchVersion | stop =>
    cases hstep
    exact hwf

lemma changed_named {impl : RaftNodeImpl} (hwf : WellFormed impl.sm) {now : Int} {cmd : Command}
    (hnamed : impl.Named (.entry now cmd)) {w : Nat × Nat} (hw : w ∈ impl.versionWatchers)
    (hchanged : (impl.sm.apply now cmd).1.versions w.1 ≠ impl.sm.versions w.1) :
    w.1 ≠ 0 ∧ versionIDOf cmd (impl.sm.apply now cmd).2 = w.1 := by
  have happlied := Applied.apply impl.sm now cmd
  generalize impl.sm.apply now cmd = result at happlied hchanged ⊢
  cases happlied with
  | refused | unchanged | createKB | setKBStatus | rollback => exact absurd rfl hchanged
  | removeKBMeta kbID => exact absurd (if_neg (hnamed w hw)) hchanged
  | createVersion kbID parent clientRequestID =>
    by_cases hv : w.1 = impl.sm.nextVersionID
    · exact ⟨hv ▸ Nat.ne_of_gt hwf.next_pos, hv.symm⟩
    · refine absurd ?_ hchanged
      rw [allocateVersion_versions, if_neg hv]
  | revised cmd u m m' hm hrevision =>
    by_cases hv : w.1 = u
    · refine ⟨hv ▸ Nat.ne_of_gt (hwf.pos hm), ?_⟩
      cases hrevision <;> exact hv.symm
    · exact absurd (Function.update_of_ne hv _ _) hchanged
  | marked u root mode kb targets hkb hroot htargets =>
    by_cases hv : w.1 = u
    · exact ⟨hv ▸ Nat.ne_of_gt (hwf.pos hroot), hv.symm⟩
    · obtain ⟨hout, hchild⟩ := hnamed w hw hv
      -- a deletion leaves a version alone that it neither deletes nor moves
      refine absurd ?_ hchanged
      rw [marked_versions hroot htargets]
      cases impl.sm.versions w.1 with
      | none => rfl
      | some m =>
      have hparent : impl.sm.newParent root.kbID u root mode w.1 m = m.parentVersionID := by
        cases mode with
        | single => exact if_neg (hchild rfl)
        | ancestors => exact if_neg hv
        | subtree | other => rfl
      simp [hparent, hout targets htargets]
  | removeVersionMeta u m hm | discardVersion u m kb hkb hm =>
    by_cases hv : w.1 = u
    · exact ⟨hv ▸ Nat.ne_of_gt (hwf.pos hm), hv.symm⟩
    · exact absurd (Function.update_of_ne hv _ _) hchanged

end RaftNodeImpl

/-- In every state a node reaches, an entry or snapshot that meets the condition signals every
watcher of a version whose metadata it changes or removes. -/
theorem watchers_signalled (limit : Nat) (epoch : String) {impl impl' : RaftNodeImpl}
    (hreach : Reachable RaftNodeImpl.step { sm := newStateMachine limit epoch } impl)
    {e : RaftNodeImpl.Event} (hnamed : impl.Named e) (hstep : impl.step e = some impl')
    {v ch : Nat} (hwatched : (v, ch) ∈ impl.versionWatchers)
    (hchanged : impl'.sm.versions v ≠ impl.sm.versions v) : ch ∈ impl'.signalled := by
  cases e with
  | entry now cmd =>
    cases hstep
    obtain ⟨hpos, hid⟩ := changed_named (RaftNodeImpl.wellFormed hreach) hnamed hwatched hchanged
    have hsignalled : ch ∈ impl.notifyVersionChanged v := by
      rw [notifyVersionChanged, if_neg hpos]
      exact mem_map.mpr ⟨(v, ch), mem_filter.mpr ⟨hwatched, by simp⟩, rfl⟩
    rw [← show versionIDOf cmd (impl.sm.apply now cmd).2 = v from hid] at hsignalled
    exact hsignalled
  | snapshot limit epoch entries arrays minted =>
    cases hstep
    exact absurd (hnamed (v, ch) hwatched) hchanged
  | watchVersion | stop =>
    cases hstep
    exact absurd rfl hchanged

/-- Two versions, one on the other, with their indexes built. -/
def watchedRun : List RaftNodeImpl.Event :=
  [.entry 0 (.createKB { kbID := "kb" }), .entry 0 (.createVersion "kb" 0 ""),
    .entry 0 (.updateVersionSummary 1 "one"), .entry 0 (.updateVersionStatus 1 .ready 0),
    .entry 0 (.createVersion "kb" 1 ""), .entry 0 (.updateVersionSummary 2 "two"),
    .entry 0 (.updateVersionStatus 2 .ready 0)]

/-- The watcher of the version that a deletion names. -/
theorem watchers_signalled_named : ∃ impl,
    Reachable RaftNodeImpl.step { sm := newStateMachine 8 "epoch" } impl ∧
      (2, 7) ∈ impl.versionWatchers ∧
      7 ∈ (impl.handleEntryMsg 0 (.markVersionDeleting "kb" 2 .subtree)).signalled := by
  obtain ⟨impl, hreach, hwatchers, hchanged⟩ : ∃ impl,
      Reachable RaftNodeImpl.step { sm := newStateMachine 8 "epoch" } impl ∧
        impl.versionWatchers = [(2, 7)] ∧
        (impl.handleEntryMsg 0 (.markVersionDeleting "kb" 2 .subtree)).sm.versions 2 ≠
          impl.sm.versions 2 :=
    Reach.exists_decide (watchedRun ++ [Event.watchVersion 2 7]) (by decide +kernel)
  have hwatched : (2, 7) ∈ impl.versionWatchers := hwatchers ▸ mem_singleton_self _
  refine ⟨impl, hreach, hwatched, watchers_signalled 8 "epoch" hreach
    (e := .entry 0 (.markVersionDeleting "kb" 2 .subtree)) ?_ rfl hwatched hchanged⟩
  intro w hw hne
  rw [hwatchers] at hw
  exact absurd (congrArg Prod.fst (mem_singleton.mp hw)) hne

/-- The deletion of the lower version takes the upper one along, and no one who watches it is
told. -/
theorem watcher_missed : ∃ impl,
    Reachable RaftNodeImpl.step { sm := newStateMachine 8 "epoch" } impl ∧
      (2, 7) ∈ impl.versionWatchers ∧
      (impl.handleEntryMsg 0 (.markVersionDeleting "kb" 1 .subtree)).sm.versions 2 ≠
        impl.sm.versions 2 ∧
      7 ∉ (impl.handleEntryMsg 0 (.markVersionDeleting "kb" 1 .subtree)).signalled :=
  Reach.exists_decide (watchedRun ++ [Event.watchVersion 2 7]) (by decide +kernel)

end stratum.metadata
