import Stratum.Metadata.Apply

namespace stratum.metadata

open StateMachine

/-- What a report on one version makes of its metadata, with what the command checked first. -/
inductive Revision (v : Nat) (m : VersionMeta) : Command → VersionMeta → Prop
  | status (status : IndexStatus) (nodeID : Int) (nodes : List Int)
      (hnodes : nodes = withIndexReadyNode m.indexReadyNodes nodeID ∨ nodes = m.indexReadyNodes) :
      Revision v m (.updateVersionStatus v status nodeID)
        { m with indexStatus := status, indexReadyNodes := nodes }
  | summary (docIDSetHash : String) (hdata : m.dataStatus ≠ .failedPermanent)
      (hindex : m.indexStatus ≠ .failedPermanent) :
      Revision v m (.updateVersionSummary v docIDSetHash)
        { m with docIDSetHash, dataStatus := .durable }
  | durable (hdata : m.dataStatus = .pending) :
      Revision v m (.markDataDurable v) { m with dataStatus := .durable }
  | indexFailed (failureReason : String) (failureCount : Int) :
      Revision v m (.markVersionFailedPermanent m.kbID v .index failureReason failureCount)
        { m with indexStatus := .failedPermanent, failureReason, failureCount,
                 failureSide := .index }
  | dataFailed (failureReason : String) (failureCount : Int) (hdata : m.dataStatus ≠ .durable) :
      Revision v m (.markVersionFailedPermanent m.kbID v .data failureReason failureCount)
        { m with dataStatus := .failedPermanent, failureReason, failureCount, failureSide := .data }
  | retried (failureReason : String) (failureCount : Int) (failureSide : FailureSide)
      (hdel : m.deleting = false) (hindex : m.indexStatus = .failedPermanent) :
      Revision v m (.retryVersion m.kbID v .index)
        { m with indexStatus := .pending, failureReason, failureCount, failureSide }

/-- What a command comes to: it is answered with the state as it was, or it has passed its checks
and leads to the state given here. -/
inductive Applied (sm : StateMachine) (now : Int) : Command → StateMachine × ApplyResult → Prop
  | refused (cmd : Command) (e : Error) : Applied sm now cmd (sm.reject e)
  | unchanged (cmd : Command) (versionID : Nat) : Applied sm now cmd (sm, { versionID })
  | createKB (kb : KnowledgeBaseMeta) :
      Applied sm now (.createKB kb) (sm.setKB kb.kbID
        { kb with status := if kb.status = .active then .active else kb.status }).accept
  | setKBStatus (cmd : Command) (kbID : String) (kb : KnowledgeBaseMeta) (status : KBStatus)
      (hcmd : cmd = .markKBDeleting kbID ∨ cmd = .markKBDeleteFailed kbID)
      (hkb : sm.kbs kbID = some kb) : Applied sm now cmd (sm.setKB kbID { kb with status }).accept
  | removeKBMeta (kbID : String) : Applied sm now (.removeKBMeta kbID) (sm.applyRemoveKBMeta kbID)
  | createVersion (kbID : String) (parent : Nat) (clientRequestID : String)
      (hkb : (sm.kbs kbID).isSome) (hnew : sm.requestedVersion kbID clientRequestID = none)
      (hparent : sm.parentRefused kbID parent = none) :
      Applied sm now (.createVersion kbID parent clientRequestID)
        (sm.allocateVersion now kbID parent clientRequestID, { versionID := sm.nextVersionID })
  | revised (cmd : Command) (v : Nat) (m m' : VersionMeta) (hm : sm.versions v = some m)
      (hrevision : Revision v m cmd m') : Applied sm now cmd (sm.setVersion v m').accept
  | rollback (v : Nat) (m : VersionMeta) (kb : KnowledgeBaseMeta) (hkb : sm.kbs m.kbID = some kb)
      (hm : sm.versions v = some m) (hdel : m.deleting = false) :
      Applied sm now (.rollback m.kbID v) (sm.setKB m.kbID { kb with activeVersionID := v }).accept
  | marked (v : Nat) (root : VersionMeta) (mode : VersionDeleteMode) (kb : KnowledgeBaseMeta)
      (targets : List Nat) (hkb : sm.kbs root.kbID = some kb) (hroot : sm.versions v = some root)
      (htargets : sm.versionDeleteTargets root.kbID v mode = .ok targets)
      (hrefused : targets.findSome? (sm.targetRefused kb root.kbID) = none)
      (hsurvivors : sm.validateSurvivorsNotPending root.kbID targets = none) :
      Applied sm now (.markVersionDeleting root.kbID v mode)
        ((sm.rewire root.kbID v root mode).markDeleting targets, { deletedVersionIDs := targets })
  | removeVersionMeta (v : Nat) (m : VersionMeta) (hm : sm.versions v = some m) :
      Applied sm now (.removeVersionMeta m.kbID v)
        (((sm.removeVersion m.kbID v).dropRequestMappings m.kbID v).recordDeletion m.kbID v).accept
  | discardVersion (v : Nat) (m : VersionMeta) (kb : KnowledgeBaseMeta)
      (hkb : sm.kbs m.kbID = some kb) (hm : sm.versions v = some m)
      (hactive : kb.activeVersionID ≠ v) (hdata : m.dataStatus = .pending)
      (hdel : m.deleting = false)
      (hchildless : ∀ id ∈ sm.versionsByKB m.kbID, ∀ c, sm.versions id = some c →
        c.parentVersionID ≠ v) :
      Applied sm now (.discardVersion m.kbID v)
        ((sm.removeVersion m.kbID v).dropRequestMappings m.kbID v).accept

/-- A deletion is rejected, or has checked the removed set and leaves it marked. -/
lemma StateMachine.applyMarkVersionDeleting_cases (sm : StateMachine) (kbID : String) (v : Nat)
    (mode : VersionDeleteMode) : (∃ e, sm.applyMarkVersionDeleting kbID v mode = sm.reject e) ∨
      ∃ kb root targets, sm.kbs kbID = some kb ∧ sm.versions v = some root ∧
        root.kbID = kbID ∧ sm.versionDeleteTargets kbID v mode = .ok targets ∧
        targets.findSome? (sm.targetRefused kb kbID) = none ∧
        sm.validateSurvivorsNotPending kbID targets = none ∧
        sm.applyMarkVersionDeleting kbID v mode =
          ((sm.rewire kbID v root mode).markDeleting targets, { deletedVersionIDs := targets }) := by
  unfold applyMarkVersionDeleting
  split
  · exact .inl ⟨_, rfl⟩
  next kb hkb =>
  split
  · exact .inl ⟨_, rfl⟩
  next root hroot =>
  split
  · exact .inl ⟨_, rfl⟩
  next hown =>
  split
  · exact .inl ⟨_, rfl⟩
  next targets htargets =>
  split
  · exact .inl ⟨_, rfl⟩
  next hrefused =>
  split
  · exact .inl ⟨_, rfl⟩
  next hsurvivors =>
  exact .inr ⟨kb, root, targets, hkb, hroot, not_not.mp hown, htargets, hrefused,
    hsurvivors, rfl⟩

namespace Applied

variable {sm : StateMachine} {now : Int}

lemma setStatus {cmd : Command} {kbID : String}
    (hcmd : cmd = .markKBDeleting kbID ∨ cmd = .markKBDeleteFailed kbID) (status : KBStatus) :
    Applied sm now cmd (sm.applySetKBStatus kbID status) := by
  unfold applySetKBStatus
  split
  · exact refused _ _
  · next kb hkb => exact setKBStatus cmd kbID kb status hcmd hkb

lemma create (kbID : String) (parent : Nat) (clientRequestID : String) :
    Applied sm now (.createVersion kbID parent clientRequestID)
      (sm.applyCreateVersion now kbID parent clientRequestID) := by
  unfold applyCreateVersion
  split
  · exact refused _ _
  next kb hkb =>
  split
  · next id hid => exact unchanged _ id
  next hnew =>
  split
  · exact refused _ _
  · next hparent => exact createVersion kbID parent clientRequestID (by rw [hkb]; rfl) hnew hparent

variable (v : Nat)

lemma updateStatus (status : IndexStatus) (nodeID : Int) :
    Applied sm now (.updateVersionStatus v status nodeID)
      (sm.applyUpdateVersionStatus v status nodeID) := by
  unfold applyUpdateVersionStatus
  split
  · exact refused _ _
  · next m hm => exact revised _ v m _ hm (.status status nodeID _ (ite_eq_or_eq _ _ _))

lemma updateSummary (docIDSetHash : String) : Applied sm now (.updateVersionSummary v docIDSetHash)
      (sm.applyUpdateVersionSummary v docIDSetHash) := by
  unfold applyUpdateVersionSummary
  split
  · exact refused _ _
  next m hm =>
  split
  · exact unchanged _ 0
  next hretired =>
  obtain ⟨hdata, hindex⟩ := not_or.mp hretired
  exact revised _ v m _ hm (.summary docIDSetHash hdata hindex)

lemma markDurable : Applied sm now (.markDataDurable v) (sm.applyMarkDataDurable v) := by
  unfold applyMarkDataDurable
  split
  · exact refused _ _
  next m hm =>
  split
  · exact unchanged _ 0
  · next hdata => exact revised _ v m _ hm (.durable (not_not.mp hdata))

lemma markFailed (kbID : String) (v : Nat) (side : FailureSide) (reason : String)
    (count : Int) : Applied sm now (.markVersionFailedPermanent kbID v side reason count)
      (sm.applyMarkVersionFailedPermanent kbID v side reason count) := by
  unfold applyMarkVersionFailedPermanent
  split
  · exact refused _ _
  next m hm =>
  split
  · exact refused _ _
  next hkb =>
  obtain rfl := not_not.mp hkb
  cases side with
  | index => exact revised _ v m _ hm (.indexFailed reason count)
  | data =>
  dsimp only
  split
  · exact refused _ _
  · next hdata => exact revised _ v m _ hm (.dataFailed reason count hdata)

lemma retry (kbID : String) (v : Nat) (side : FailureSide) :
    Applied sm now (.retryVersion kbID v side) (sm.applyRetryVersion kbID v side) := by
  unfold applyRetryVersion
  split
  · exact refused _ _
  next m hm =>
  split
  · exact refused _ _
  next hkb =>
  obtain rfl := not_not.mp hkb
  split
  · exact refused _ _
  next hdel =>
  have hdel := Bool.eq_false_iff.mpr hdel
  cases side with
  | index =>
    dsimp only
    split
    · exact refused _ _
    next hindex =>
    refine revised _ v m _ hm ?_
    split
    · exact .retried "" 0 .data hdel (not_not.mp hindex)
    · exact .retried m.failureReason m.failureCount m.failureSide hdel (not_not.mp hindex)
  | data =>
    dsimp only
    split
    all_goals exact refused _ _

lemma activate (kbID : String) (v : Nat) :
    Applied sm now (.rollback kbID v) (sm.applyRollback kbID v) := by
  unfold applyRollback
  split
  · exact refused _ _
  next kb hkb =>
  split
  · exact refused _ _
  next m hm =>
  split
  · exact refused _ _
  next hown =>
  obtain rfl := not_not.mp hown
  split
  · exact refused _ _
  · next hdel => exact rollback v m kb hkb hm (Bool.eq_false_iff.mpr hdel)

lemma markDeleting (kbID : String) (v : Nat) (mode : VersionDeleteMode) :
    Applied sm now (.markVersionDeleting kbID v mode) (sm.applyMarkVersionDeleting kbID v mode) := by
  obtain ⟨e, hreject⟩ | ⟨kb, root, targets, hkb, hroot, rfl, htargets, hrefused, hsurvivors, heq⟩ :=
    sm.applyMarkVersionDeleting_cases kbID v mode
  · rw [hreject]
    exact refused _ e
  · rw [heq]
    exact marked v root mode kb targets hkb hroot htargets hrefused hsurvivors

variable (kbID : String)

lemma removeVersion (v : Nat) :
    Applied sm now (.removeVersionMeta kbID v) (sm.applyRemoveVersionMeta kbID v) := by
  unfold applyRemoveVersionMeta
  split
  · exact unchanged _ 0
  next m hm =>
  split
  · exact refused _ _
  next hown =>
  obtain rfl := not_not.mp hown
  exact removeVersionMeta v m hm

lemma discard (v : Nat) :
    Applied sm now (.discardVersion kbID v) (sm.applyDiscardVersion kbID v) := by
  unfold applyDiscardVersion
  split
  · exact refused _ _
  next kb hkb =>
  split
  · exact refused _ _
  next m hm =>
  split
  · exact refused _ _
  next hown =>
  obtain rfl := not_not.mp hown
  split
  · exact refused _ _
  next hactive =>
  split
  · exact refused _ _
  next hsettled =>
  obtain ⟨hdata, hdel⟩ := not_or.mp hsettled
  split
  · exact refused _ _
  next hchildless =>
  refine discardVersion v m kb hkb hm hactive (not_not.mp hdata)
    (Bool.eq_false_iff.mpr hdel) ?_
  intro id hid c hc hchild
  exact List.find?_eq_none.mp hchildless id hid (by simp [hc, hchild])

lemma apply (sm : StateMachine) (now : Int) (cmd : Command) :
    Applied sm now cmd (sm.apply now cmd) := by
  cases cmd with
  | createKB kb => exact createKB kb
  | markKBDeleting kbID => exact setStatus (.inl rfl) .deleting
  | markKBDeleteFailed kbID => exact setStatus (.inr rfl) .deleteFailed
  | removeKBMeta kbID => exact removeKBMeta kbID
  | createVersion kbID parent clientRequestID => exact create kbID parent clientRequestID
  | updateVersionStatus v status nodeID => exact updateStatus v status nodeID
  | updateVersionSummary v docIDSetHash => exact updateSummary v docIDSetHash
  | rollback kbID v => exact activate kbID v
  | markVersionDeleting kbID v mode => exact markDeleting kbID v mode
  | removeVersionMeta kbID v => exact removeVersion kbID v
  | markVersionFailedPermanent kbID v side reason count => exact markFailed kbID v side reason count
  | retryVersion kbID v side => exact retry kbID v side
  | markDataDurable v => exact markDurable v
  | discardVersion kbID v => exact discard kbID v
  | unknown type => exact refused _ _

end Applied

/-- A command that answers with an error leaves the whole state as it was: knowledge bases with
their active versions, versions, lists, counters, request map and deletion log. -/
theorem failed_unchanged (sm : StateMachine) (now : Int) (cmd : Command) (e : Error)
    (herr : (sm.apply now cmd).2.err = some e) : (sm.apply now cmd).1 = sm := by
  have happlied := Applied.apply sm now cmd
  generalize sm.apply now cmd = result at happlied herr ⊢
  cases happlied with
  | refused cmd e => rfl
  | unchanged | createKB | setKBStatus | removeKBMeta | createVersion | revised | rollback | marked
  | removeVersionMeta | discardVersion => cases herr

/-- The child of a version that is still being written refuses the deletion of its parent, and
the two versions are as before. -/
theorem failed_unchanged_pending : ∃ sm e,
    sm = ([.createKB { kbID := "kb" }, .createVersion "kb" 0 "", .markDataDurable 1,
        .updateVersionStatus 1 .ready 0, .createVersion "kb" 1 ""] : List Command).foldl
      (fun sm cmd => (sm.apply 0 cmd).1) (newStateMachine 8 "epoch") ∧
      (sm.apply 0 (.markVersionDeleting "kb" 1 .single)).2.err = some e ∧
      (sm.apply 0 (.markVersionDeleting "kb" 1 .single)).1 = sm := by
  have hsome : ((([.createKB { kbID := "kb" }, .createVersion "kb" 0 "", .markDataDurable 1,
      .updateVersionStatus 1 .ready 0, .createVersion "kb" 1 ""] : List Command).foldl
      (fun sm cmd => (sm.apply 0 cmd).1) (newStateMachine 8 "epoch")).apply 0
      (.markVersionDeleting "kb" 1 .single)).2.err.isSome = true := by
    decide +kernel
  obtain ⟨e, he⟩ := Option.isSome_iff_exists.mp hsome
  exact ⟨_, e, rfl, he, failed_unchanged _ 0 _ e he⟩

end stratum.metadata
