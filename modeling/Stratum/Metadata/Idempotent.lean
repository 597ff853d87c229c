import Mathlib.Data.String.Basic
import Stratum.Lib.Reach
import Stratum.Metadata.Effect

namespace stratum.metadata

open stratum.lib StateMachine List Option

structure SnapshotState where
  kbs : String → Option KnowledgeBaseMeta
  versions : Nat → Option VersionMeta
  versionsByKB : String → List Nat
  nextVersionID : Nat
  versionsByRequest : String → Option Nat
  deletedEpoch : String
  deletedSeq : Nat
  deletedLog : List DeletedVersion

namespace StateMachine

/-- The copy as the goroutine that encodes it reads it: `arrays` is what the array of each
version's ready nodes, which the copy shares with the live state, holds by then. -/
def deepCopy (sm : StateMachine) (arrays : Nat → List Int) : SnapshotState where
  kbs := sm.kbs
  versions v := (sm.versions v).map fun m =>
    { m with indexReadyNodes := (arrays v).take m.indexReadyNodes.length }
  versionsByKB := sm.versionsByKB
  nextVersionID := sm.nextVersionID
  versionsByRequest := sm.versionsByRequest
  deletedEpoch := sm.deletedEpoch
  deletedSeq := sm.deletedSeq
  deletedLog := sm.deletedLog

/-- Replaces the contents of a state machine by a snapshot; `minted` is what the node's random
source gives where the snapshot has no epoch. -/
def restore (sm : StateMachine) (snap : SnapshotState) (minted : String) : StateMachine :=
  { sm with
    kbs := snap.kbs
    versions := snap.versions
    versionsByKB := snap.versionsByKB
    nextVersionID := snap.nextVersionID
    versionsByRequest := snap.versionsByRequest
    deletedEpoch := if snap.deletedEpoch = "" then minted else snap.deletedEpoch
    deletedSeq := snap.deletedSeq
    deletedLog := snap.deletedLog
    chainSeq := sm.chainSeq + 1 }

/-- What happens to a replica: it applies a command, or what it holds is restored from a
snapshot into another state machine, which continues in its place. -/
inductive Event
  | apply (now : Int) (cmd : Command)
  | restore (arrays : Nat → List Int) (into : StateMachine) (minted : String)

def next (sm : StateMachine) : Event → Option StateMachine
  | .apply now cmd => some (sm.apply now cmd).1
  | .restore arrays into minted => some (into.restore (sm.deepCopy arrays) minted)

end StateMachine

/-- The character between the two parts of a request key. -/
def separator : Char := Char.ofNat 0

/-- A knowledge base id without the character that separates it from a request id. -/
def PlainID (kbID : String) : Prop := separator ∉ kbID.toList
  deriving Decidable

/-- Versions are created in, and metadata removed for, knowledge bases with a plain id only. -/
def PlainEvent (_ : StateMachine) : StateMachine.Event → Prop
  | .apply _ (.createVersion kbID _ _) => PlainID kbID
  | .apply _ (.removeKBMeta kbID) => PlainID kbID
  | _ => True

lemma append_separator_inj {l l' t t' : List Char} (hl : separator ∉ l) (hl' : separator ∉ l')
    (heq : l ++ separator :: t = l' ++ separator :: t') : l = l' := by
  induction l generalizing l' with
  | nil =>
    cases l' with
    | nil => rfl
    | cons c l' =>
      rw [nil_append, cons_append, cons.injEq] at heq
      exact absurd (heq.1 ▸ mem_cons_self) hl'
  | cons c l ih =>
    cases l' with
    | nil =>
      rw [nil_append, cons_append, cons.injEq] at heq
      exact absurd (heq.1 ▸ mem_cons_self) hl
    | cons c' l' =>
      rw [cons_append, cons_append, cons.injEq] at heq
      rw [heq.1, ih (fun h => hl (mem_cons_of_mem _ h)) (fun h => hl' (mem_cons_of_mem _ h)) heq.2]

lemma requestKey_toList (kbID r : String) :
    (requestKey kbID r).toList = kbID.toList ++ separator :: r.toList := by
  simp [requestKey, separator]

variable {r key : String} {id : Nat} {now : Int}

lemma kbID_of_requestKey {kbID kbID' r' : String} (hkb : PlainID kbID) (hkb' : PlainID kbID')
    (heq : requestKey kbID r = requestKey kbID' r') : kbID = kbID' := by
  have hlist := congrArg String.toList heq
  rw [requestKey_toList, requestKey_toList] at hlist
  exact String.toList_inj.mp (append_separator_inj hkb hkb' hlist)

/-- The request map and the versions in step: an entry points at a version of the knowledge
base in its key, and the knowledge base of a version is there. -/
structure Requests (sm : StateMachine) : Prop where
  wf : WellFormed sm
  mapped : ∀ {key id}, sm.versionsByRequest key = some id →
    ∃ m r, sm.versions id = some m ∧ key = requestKey m.kbID r ∧ PlainID m.kbID
  kb : ∀ {v m}, sm.versions v = some m → (sm.kbs m.kbID).isSome

namespace StateMachine

variable {sm : StateMachine} {kbID : String} {v : Nat}

lemma restore_versions {m : VersionMeta} (hm : sm.versions v = some m) (arrays : Nat → List Int)
    (into : StateMachine) (minted : String) :
    (into.restore (sm.deepCopy arrays) minted).versions v =
      some { m with indexReadyNodes := (arrays v).take m.indexReadyNodes.length } :=
  congrArg (Option.map _) hm

lemma restore_gone (hgone : sm.versions v = none) (arrays : Nat → List Int) (into : StateMachine)
    (minted : String) : (into.restore (sm.deepCopy arrays) minted).versions v = none :=
  map_eq_none_iff.mpr hgone

lemma keptAll_restore (sm : StateMachine) (arrays : Nat → List Int) (into : StateMachine)
    (minted : String) : KeptAll sm (into.restore (sm.deepCopy arrays) minted) := by
  refine ⟨fun v => ?_, rfl, rfl⟩
  cases hm : sm.versions v with
  | none =>
    rw [restore_gone hm]
    exact .none
  | some m =>
    rw [restore_versions hm]
    exact .some ⟨rfl, rfl, Nat.le_refl _, id⟩

lemma dropRequestMappings_eq_some (hpos : 0 < v) :
    (sm.dropRequestMappings kbID v).versionsByRequest key = some id ↔
      sm.versionsByRequest key = some id ∧ id ≠ v := by
  simp [dropRequestMappings, hpos]

lemma dropRequestMappings_zero_eq_some :
    (sm.dropRequestMappings kbID 0).versionsByRequest key = some id ↔
      sm.versionsByRequest key = some id ∧
        ¬ (kbID ++ "\x00").toList.isPrefixOf key.toList = true := by
  simp [dropRequestMappings]

lemma allocateVersion_requests {parent : Nat} :
    (sm.allocateVersion now kbID parent r).versionsByRequest key = some id ↔
      if r ≠ "" ∧ key = requestKey kbID r then id = sm.nextVersionID
      else sm.versionsByRequest key = some id := by
  unfold allocateVersion
  by_cases hr : r = ""
  · simp [hr]
  by_cases hkey : key = requestKey kbID r
  · simp [hr, hkey, eq_comm]
  · simp [hr, hkey]

end StateMachine

namespace Requests

variable {sm : StateMachine}

lemma new (limit : Nat) (epoch : String) : Requests (newStateMachine limit epoch) where
  wf := wellFormed_newStateMachine limit epoch
  mapped h := nomatch h
  kb h := nomatch h

lemma restore (hreq : Requests sm) (arrays : Nat → List Int) (into : StateMachine)
    (minted : String) : Requests (into.restore (sm.deepCopy arrays) minted) where
  wf := hreq.wf.kept (keptAll_restore sm arrays into minted)
  mapped hkey := by
    obtain ⟨m, r, hm, hrest⟩ := hreq.mapped hkey
    exact ⟨_, r, restore_versions hm arrays into minted, hrest⟩
  kb hm' := by
    obtain ⟨m, hm, rfl⟩ := map_eq_some_iff.mp hm'
    have hkb := hreq.kb hm
    exact hkb

lemma owner_apply (hwf : WellFormed sm)
    (hkb : ∀ {v m}, sm.versions v = some m → (sm.kbs m.kbID).isSome) {cmd : Command} {v : Nat}
    {m' : VersionMeta} (hm' : (sm.apply now cmd).1.versions v = some m') :
    ((sm.apply now cmd).1.kbs m'.kbID).isSome := by
  cases Change.apply sm now cmd with
  | steady hsteady =>
    obtain ⟨m, hm, hone⟩ := hsteady.before hm'
    rw [hone.kbID]
    exact hsteady.kbs (hkb hm)
  | allocated now' kbID parent r hcmd hsome _ _ heq =>
    rw [heq] at hm' ⊢
    obtain ⟨-, rfl⟩ | hm := eq_some_of_allocateVersion hm'
    · exact hsome
    · exact hkb hm
  | marked kbID versionID mode kb root targets hcmd _ hroot _ htargets _ _ heq =>
    obtain ⟨m, hm, hone⟩ := (KeptAll.marked hwf hroot htargets).exists_before (heq ▸ hm')
    rw [apply_kbs sm now (by rw [hcmd]; rfl), hone.kbID]
    exact hkb hm
  | removed v m hm _ hversions _ _ _ hkbs =>
    rw [hkbs]
    exact hkb (eq_some_of_removed hversions hm').2
  | removedKB kbID hcmd hversions _ _ _ hkbs =>
    obtain ⟨hout, hm⟩ := eq_some_of_removedKB hversions hm'
    rw [hkbs, Function.update_of_ne]
    · exact hkb hm
    · rintro rfl
      exact hout (hwf.listed hm)

lemma apply (hreq : Requests sm) {cmd : Command} (hok : PlainEvent sm (.apply now cmd)) :
    Requests (sm.apply now cmd).1 := by
  have hwf := hreq.wf
  refine ⟨hwf.apply now cmd, ?_, ?_⟩
  · intro key id hid
    cases Change.apply sm now cmd with
    | steady hsteady =>
      rw [hsteady.requests] at hid
      obtain ⟨m, r, hm, hkey, hplain⟩ := hreq.mapped hid
      obtain ⟨m', hm', hone⟩ := hsteady.after hm
      exact ⟨m', r, hm', hone.kbID ▸ hkey, hone.kbID ▸ hplain⟩
    | allocated now' kbID parent r hcmd _ _ _ heq =>
      subst hcmd
      rw [heq] at hid ⊢
      rw [allocateVersion_requests] at hid
      rw [allocateVersion_versions]
      split at hid
      · next hnew =>
        rw [if_pos hid, hnew.2]
        exact ⟨_, r, rfl, rfl, hok⟩
      · obtain ⟨m, r', hm, hkey⟩ := hreq.mapped hid
        rw [if_neg (ne_of_lt (hwf.lt_next hm))]
        exact ⟨m, r', hm, hkey⟩
    | marked kbID versionID mode kb root targets _ _ hroot _ htargets _ _ heq =>
      obtain ⟨versions, hmarked⟩ := marked_eq sm kbID versionID root mode targets
      have hrequests := congrArg versionsByRequest (heq.trans hmarked)
      rw [hrequests] at hid
      obtain ⟨m, r, hm, hkey, hplain⟩ := hreq.mapped hid
      obtain ⟨m', hm', hone⟩ := (KeptAll.marked hwf hroot htargets).exists_of_some hm
      exact ⟨m', r, heq ▸ hm', hone.kbID ▸ hkey, hone.kbID ▸ hplain⟩
    | removed v m hm _ hversions _ _ hrequests =>
      rw [hrequests, dropRequestMappings_eq_some (hwf.pos hm)] at hid
      rw [hversions, Function.update_of_ne hid.2]
      exact hreq.mapped hid.1
    | removedKB kbID hcmd hversions _ _ hrequests =>
      rw [hrequests, dropRequestMappings_zero_eq_some] at hid
      obtain ⟨m, r, hm, rfl, hplain⟩ := hreq.mapped hid.1
      refine ⟨m, r, ?_, rfl, hplain⟩
      rw [hversions]
      dsimp only
      rw [if_neg, hm]
      intro hin
      -- A removed version's entry has the knowledge base's own prefix, so it is gone too.
      obtain ⟨m', hm', hkb⟩ := hwf.present hin
      rw [hm, some.injEq] at hm'
      refine hid.2 ( isPrefixOf_iff_prefix.mpr ⟨r.toList, ?_⟩)
      rw [requestKey_toList, hm', hkb, String.toList_append, append_assoc]
      rfl
  · exact owner_apply hwf hreq.kb

end Requests

/-- The request was answered with `v`: as long as `v` is there, its entry is. -/
def Answered (kbID r : String) (v : Nat) (sm : StateMachine) : Prop :=
  v < sm.nextVersionID ∧ (sm.versions v = none ∨ sm.versionsByRequest (requestKey kbID r) = some v)

namespace Answered

variable {sm : StateMachine} {kbID r : String} {v : Nat}

lemma gone (hwf : WellFormed sm) (now : Int) (cmd : Command) (hlt : v < sm.nextVersionID)
    (hgone : sm.versions v = none) : (sm.apply now cmd).1.versions v = none := by
  by_contra hsome
  obtain ⟨m', hm'⟩ := ne_none_iff_exists'.mp hsome
  obtain hv | ⟨m, hm, -⟩ := present_before hwf hm'
  · exact ne_of_lt hlt hv
  · rw [hgone] at hm
    cases hm

lemma apply (hanswered : Answered kbID r v sm) (hreq : Requests sm) (hkb : PlainID kbID)
    {cmd : Command} (hok : PlainEvent sm (.apply now cmd)) :
    Answered kbID r v (sm.apply now cmd).1 := by
  have hwf := hreq.wf
  obtain ⟨hlt, hgone | hentry⟩ := hanswered
  · exact ⟨lt_of_lt_of_le hlt (next_le_apply hwf now cmd), .inl (gone hwf now cmd hlt hgone)⟩
  refine ⟨lt_of_lt_of_le hlt (next_le_apply hwf now cmd), ?_⟩
  cases Change.apply sm now cmd with
  | steady hsteady => exact .inr (hsteady.requests ▸ hentry)
  | allocated now' kbID' parent r' hcmd _ hnew _ heq =>
    refine .inr ?_
    rw [heq, allocateVersion_requests, if_neg, hentry]
    -- The entry's own request is answered from the map, so it allocates nothing.
    rintro ⟨hr, hkey⟩
    rw [requestedVersion, if_neg hr, ← hkey, hentry] at hnew
    cases hnew
  | marked kbID' versionID mode kb root targets _ _ _ _ _ _ _ heq =>
    obtain ⟨versions, hmarked⟩ := marked_eq sm kbID' versionID root mode targets
    rw [heq, hmarked]
    exact .inr hentry
  | removed u m hm _ hversions _ _ hrequests =>
    by_cases hu : v = u
    · rw [hversions, hu]
      exact .inl (Function.update_self _ _ _)
    · rw [hrequests, dropRequestMappings_eq_some (hwf.pos hm)]
      exact .inr ⟨hentry, hu⟩
  | removedKB kbID' hcmd hversions _ _ hrequests =>
    subst hcmd
    rw [hrequests, dropRequestMappings_zero_eq_some]
    by_cases hown : kbID' = kbID
    · obtain ⟨m, r', hm, hkey, hplain⟩ := hreq.mapped hentry
      have hmkb := kbID_of_requestKey hkb hplain hkey
      exact .inl (if_pos (hown ▸ hmkb ▸ hwf.listed hm))
    · refine .inr ⟨hentry, fun hstarts => hown ?_⟩
      obtain ⟨t, ht⟩ := isPrefixOf_iff_prefix.mp hstarts
      rw [requestKey_toList, String.toList_append, append_assoc] at ht
      exact String.toList_inj.mp (append_separator_inj hok hkb ht)

lemma of_createVersion (hreq : Requests sm) {parent : Nat} (hr : r ≠ "")
    (hok : (sm.apply now (.createVersion kbID parent r)).2 = { versionID := v }) :
    Answered kbID r v (sm.apply now (.createVersion kbID parent r)).1 := by
  simp only [StateMachine.apply, StateMachine.applyCreateVersion] at hok ⊢
  split at hok
  · cases hok
  split at hok
  · next hknown =>
    cases hok
    rw [requestedVersion, if_neg hr] at hknown
    obtain ⟨m, -, hm, -⟩ := hreq.mapped hknown
    exact ⟨hreq.wf.lt_next hm, .inr hknown⟩
  split at hok
  · cases hok
  cases hok
  refine ⟨Nat.lt_succ_self _, .inr ?_⟩
  rw [allocateVersion_requests, if_pos ⟨hr, rfl⟩]

end Answered

/-- Along every run of commands and snapshot restores over plain knowledge base ids: once a
creation under a request id has succeeded with `v`, repeating it while `v` exists answers `v`
and changes nothing, and when `v` is gone no entry points at it. -/
theorem createVersion_idempotent (limit : Nat) (epoch : String) {sm : StateMachine}
    (hreach : Reach next PlainEvent (newStateMachine limit epoch) sm) (now : Int)
    (kbID : String) (hkb : PlainID kbID) (parent : Nat) (r : String) (hr : r ≠ "") (v : Nat)
    (hok : (sm.apply now (.createVersion kbID parent r)).2 = { versionID := v })
    {later : StateMachine}
    (hlater : Reach next PlainEvent (sm.apply now (.createVersion kbID parent r)).1 later) :
    ((∃ m, later.versions v = some m) → ∀ now' parent',
      later.apply now' (.createVersion kbID parent' r) = (later, { versionID := v })) ∧
    (later.versions v = none → ∀ key, later.versionsByRequest key ≠ some v) := by
  have hstep : ∀ {sm sm' : StateMachine} {e : StateMachine.Event}, Requests sm →
      PlainEvent sm e → sm.next e = some sm' → Requests sm' := by
    intro sm sm' e hreq hplain hnext
    cases e with
    | apply now cmd =>
      cases hnext
      exact hreq.apply hplain
    | restore arrays into minted =>
      cases hnext
      exact hreq.restore arrays into minted
  have hreq : Requests sm :=
    hreach.invariant Requests (.new limit epoch) fun _ _ _ _ hreq hplain hnext =>
      hstep hreq hplain hnext
  have hboth : Requests later ∧ Answered kbID r v later := by
    refine hlater.invariant (fun sm => Requests sm ∧ Answered kbID r v sm)
      ⟨hreq.apply hkb, .of_createVersion hreq hr hok⟩ ?_
    rintro sm sm' e - ⟨hreq, hanswered⟩ hplain hnext
    refine ⟨hstep hreq hplain hnext, ?_⟩
    cases e with
    | apply now cmd =>
      cases hnext
      exact hanswered.apply hreq hkb hplain
    | restore arrays into minted =>
      cases hnext
      exact hanswered.imp_right (Or.imp_left fun hgone => restore_gone hgone arrays into minted)
  obtain ⟨hreq', -, hgone | hentry⟩ := hboth
  · refine ⟨?_, ?_⟩
    · rintro ⟨m, hm⟩
      rw [hgone] at hm
      cases hm
    intro hnone key hkey
    obtain ⟨m, -, hm, -⟩ := hreq'.mapped hkey
    rw [hnone] at hm
    cases hm
  refine ⟨?_, ?_⟩
  · rintro - now' parent'
    obtain ⟨m, r', hm, hkey, hplain⟩ := hreq'.mapped hentry
    have hsome := hreq'.kb hm
    rw [← kbID_of_requestKey hkb hplain hkey, isSome_iff_exists] at hsome
    obtain ⟨kb, hkbs⟩ := hsome
    simp [apply, applyCreateVersion, hkbs, requestedVersion, hr, hentry]
  · intro hnone
    obtain ⟨m, -, hm, -⟩ := hreq'.mapped hentry
    rw [hnone] at hm
    cases hm

instance (sm : StateMachine) (e : StateMachine.Event) : Decidable (PlainEvent sm e) := by
  induction e using StateMachine.Event.casesOn with
  | apply now cmd =>
    induction cmd using Command.casesOn <;> dsimp only [PlainEvent] <;> infer_instance
  | restore => dsimp only [PlainEvent]; infer_instance

def oneKB : StateMachine := (newStateMachine 8 "epoch").setKB "kb" { kbID := "kb" }

/-- A creation, the restart of the replica from a snapshot, and the creation again. -/
theorem createVersion_idempotent_restored : ∃ later m,
    later = (newStateMachine 8 "other").restore
      ((oneKB.apply 0 (.createVersion "kb" 0 "request")).1.deepCopy fun _ => []) "minted" ∧
      later.versions 1 = some m ∧
      later.apply 7 (.createVersion "kb" 0 "request") = (later, { versionID := 1 }) := by
  have hreach : Reach next PlainEvent (newStateMachine 8 "epoch") oneKB :=
    .tail (a := .apply 0 (.createKB { kbID := "kb" })) .refl trivial rfl
  have hlater : Reach next PlainEvent
      (oneKB.apply 0 (.createVersion "kb" 0 "request")).1
      ((newStateMachine 8 "other").restore
        ((oneKB.apply 0 (.createVersion "kb" 0 "request")).1.deepCopy fun _ => []) "minted") :=
    .tail (a := .restore (fun _ => []) (newStateMachine 8 "other") "minted") .refl trivial rfl
  have hok : (oneKB.apply 0 (.createVersion "kb" 0 "request")).2 = { versionID := 1 } := by
    decide +kernel
  have hsome : (((newStateMachine 8 "other").restore
      ((oneKB.apply 0 (.createVersion "kb" 0 "request")).1.deepCopy fun _ => [])
        "minted").versions 1).isSome = true := by
    decide +kernel
  obtain ⟨m, hm⟩ := isSome_iff_exists.mp hsome
  exact ⟨_, m, rfl, hm, (createVersion_idempotent 8 "epoch" hreach 0 "kb" (by decide) 0 "request"
    (by decide) 1 hok hlater).1 ⟨m, hm⟩ 7 0⟩

/-- Two knowledge bases, the separator in the id of the second. -/
def nestedIDs : StateMachine :=
  ([.createKB { kbID := "a" }, .createKB { kbID := "a\x00b" }] : List Command).foldl
    (fun sm cmd => (sm.apply 0 cmd).1) (newStateMachine 8 "epoch")

/-- Removing the first drops an entry of the second: the repeated request allocates a second
version while the first exists. -/
theorem createVersion_repeated_allocates : ∃ first later,
    first = nestedIDs.apply 0 (.createVersion "a\x00b" 0 "c") ∧
      later = (first.1.apply 0 (.removeKBMeta "a")).1 ∧
      first.2 = { versionID := 1 } ∧ (later.versions 1).isSome = true ∧
      (later.apply 0 (.createVersion "a\x00b" 0 "c")).2 = { versionID := 2 } := by
  refine ⟨_, _, rfl, rfl, ?_⟩
  decide +kernel

end stratum.metadata
