import Stratum.Metadata.DeletionLog
import Stratum.Plane.Deletions

namespace stratum.plane.deletions

open stratum.lib stratum.metadata Function List World StateMachine
open Option (mem_toList ite_none_right_eq_some)

/-- The deletions of an epoch numbered up to a position take the version away: one of them is its
own, or that of its knowledge base at a time after it had the version. -/
def Deleted (past : List StateMachine) (pos : SyncState) (kbID : String) (v : Nat) : Prop :=
  ∃ sm ∈ past, sm.deletedEpoch = pos.epoch ∧ ∃ e ∈ sm.deletedLog, e.seq ≤ pos.seq ∧
    e.kbID = kbID ∧ (v ≠ 0 ∧ e.versionID = v ∨ e.versionID = 0 ∧ ∃ sm' ∈ past,
      sm'.deletedEpoch = pos.epoch ∧ sm'.deletedSeq < e.seq ∧ v ∈ sm'.versionsByKB kbID)
  deriving Decidable

namespace World

def Holds (w : World) (kbID : String) (v : Nat) : Prop :=
  (kbID, v) ∈ w.records ∨ (kbID, v) ∈ w.listed

/-- The reclaim of the version, or of its knowledge base, is recorded as pending. -/
def Owes (w : World) (kbID : String) (v : Nat) : Prop :=
  w.tombstones (kbID, v) = some .pending ∨ w.tombstones (kbID, 0) = some .pending
  deriving Decidable

/-- Whatever the watermark says is deleted is not on the node, or is owed. -/
def WatermarkSound (w : World) : Prop :=
  ∀ pos ∈ w.watermark, ∀ kbID v, w.Holds kbID v → Deleted w.past pos kbID v → w.Owes kbID v

/-- The position a running pass will align the watermark to. -/
def target (w : World) : Option SyncState := w.pass.bind (·.aligned)

/-- A landing is of no version that is tombstoned, being reclaimed, or deleted up to the watermark
or to where a running pass will move it. -/
def Lands (w : World) (kbID : String) (v : Nat) : Prop :=
  (∀ u ∈ [0, v], w.tombstones (kbID, u) = none ∧ (kbID, u) ∉ w.cleaned) ∧
    ∀ pos ∈ w.watermark.toList ++ w.target.toList, ¬Deleted w.past pos kbID v
  deriving Decidable

/-- Where a pass will move the watermark, it looks at every knowledge base the node has data of,
unless its reclaim is owed. -/
def Looks (w : World) (kbs : List String) : Prop :=
  w.target = none ∨ ∀ p ∈ w.records ++ w.listed, p.1 ∈ kbs ∨ w.tombstones (p.1, 0) = some .pending
  deriving Decidable

/-- Where a pass will move the watermark, it judges a knowledge base with data here by a replica
that has counted the deletions up to there and still has the knowledge base, and finds its data
by the document lists. -/
def Judges (w : World) (kbID : String) (view : Option StateMachine) : Prop :=
  ∀ pos ∈ w.target.toList, (∀ p ∈ w.records, p.1 = kbID → p ∈ w.listed) ∧
    ((∀ p ∈ w.listed, p.1 ≠ kbID) ∨ ∃ sm ∈ view.toList,
      sm.deletedEpoch = pos.epoch ∧ pos.seq ≤ sm.deletedSeq ∧ (sm.kbs kbID).isSome)
  deriving Decidable

/-- The knowledge base a pass has to judge next, and the leftover it has to reclaim next. -/
def nextKB (w : World) : Option String :=
  match w.pass with
  | some ⟨_, .judging (kbID :: _) _⟩ => some kbID
  | _ => none

def nextLeftover (w : World) : Option (String × Nat) :=
  match w.pass with
  | some ⟨_, .judging [] (p :: _)⟩ => some p
  | _ => none

end World

/-- A full pass that moves the watermark has judged all there is to judge and reclaimed what it
found, nothing deleted lands behind it, and a rebuilt control layer draws an epoch of its own. -/
def Covered (w : World) : Action → Prop
  | .rebuild _ epoch => ∀ sm ∈ w.past, sm.deletedEpoch ≠ epoch
  | .writeRecords kbID v => w.Lands kbID v
  | .writeList kbID v => w.Lands kbID v
  | .survey ok => ok = true ∨ w.Looks []
  | .listKBs answer => w.Looks ((answer.map (·.2)).getD [])
  | .judge replica => ∀ kbID ∈ w.nextKB, w.Judges kbID (replica.bind fun i => w.states[i]?)
  | .reclaim outcome =>
    w.target = none ∨ outcome = .all ∨ ∀ p ∈ w.nextLeftover, w.Owes p.1 p.2
  | _ => True

instance (w : World) (a : Action) : Decidable (Covered w a) := by
  induction a using Action.casesOn <;> dsimp only [Covered] <;> infer_instance

/-- The states of the control layer are those of one growing metadata, and no former cluster had
their epoch. -/
structure Control (states former : List StateMachine) : Prop where
  newest : ∃ sm rest, states = sm :: rest ∧ ∀ old ∈ states, Grows old sm
  total : ∀ sm ∈ states, ∀ sm' ∈ states, Grows sm sm' ∨ Grows sm' sm
  sound : ∀ sm ∈ states, LogSound sm
  apart : ∀ sm ∈ states, ∀ old ∈ former, old.deletedEpoch ≠ sm.deletedEpoch

/-- A position that was read from some state. -/
def Placed (past : List StateMachine) (pos : SyncState) : Prop :=
  ∃ sm ∈ past, sm.deletedEpoch = pos.epoch ∧ pos.seq ≤ sm.deletedSeq

/-- Done reclaims have left no data; what the watermark covers is owed; what the position of a
running pass covers is owed, to be judged or to be reclaimed. -/
structure Inv (w : World) : Prop where
  control : Control w.states w.former
  clean : ∀ kbID v, w.tombstones (kbID, v) = some .done ∨ (kbID, v) ∈ w.cleaned →
    ∀ p, w.Holds p.1 p.2 → within kbID v p = false
  placed : ∀ pos ∈ w.watermark.toList ++ w.target.toList, Placed w.past pos
  sound : w.WatermarkSound
  judged : ∀ pos ∈ w.target, ∀ kbs leftovers, w.pass.map (·.stage) = some (.judging kbs leftovers) →
    ∀ kbID v, w.Holds kbID v → Deleted w.past pos kbID v →
      w.Owes kbID v ∨ kbID ∈ kbs ∨ (kbID, v) ∈ leftovers

variable {sm view : StateMachine} {rest : List StateMachine} {kbID : String} {v : Nat} {pass : Pass}
  {entries : List DeletedVersion} {next : SyncState} {aligned : Option SyncState}
  {kbs : List String}

section

variable {states former : List StateMachine} {pos : SyncState} {kbID : String} {v : Nat}

section

variable (h : Control states former)

include h

lemma Control.mem_states (hview : view ∈ states) (hsm : sm ∈ states ++ former)
    (hepoch : sm.deletedEpoch = view.deletedEpoch) : sm ∈ states := by
  obtain hin | hin := mem_append.mp hsm
  · exact hin
  · exact absurd hepoch (h.apart view hview sm hin)

variable (hstates : states = sm :: rest) (hnewest : ∀ old ∈ states, Grows old sm)

include hstates hnewest

lemma Control.command (now : Int) (cmd : Command) :
    Control ((sm.apply now cmd).1 :: states) former := by
  have hsm : sm ∈ states := by
    rw [hstates]
    exact mem_cons_self
  have hgrows := Grows.apply (h.sound sm hsm) now cmd
  have hsound := (h.sound sm hsm).apply now cmd
  have hlater (old : StateMachine) (hold : old ∈ states) : Grows old (sm.apply now cmd).1 :=
    (hnewest old hold).trans (h.sound old hold) hgrows
  have hall (old : StateMachine) (hold : old ∈ (sm.apply now cmd).1 :: states) :
      Grows old (sm.apply now cmd).1 := by
    obtain rfl | hold := mem_cons.mp hold
    · exact .refl _ hsound
    · exact hlater old hold
  refine ⟨⟨_, _, rfl, hall⟩, fun a ha b hb => ?_, fun a ha => ?_, fun a ha old hold => ?_⟩
  · obtain rfl | ha := mem_cons.mp ha
    · exact .inr (hall b hb)
    obtain rfl | hb := mem_cons.mp hb
    · exact .inl (hlater a ha)
    · exact h.total a ha b hb
  · obtain rfl | ha := mem_cons.mp ha
    · exact hsound
    · exact h.sound a ha
  obtain rfl | ha := mem_cons.mp ha
  · rw [hgrows.epoch]
    exact h.apart sm hsm old hold
  · exact h.apart a ha old hold

/-- A command deletes nothing behind a position that was read before it. -/
lemma Deleted.of_command {now : Int} {cmd : Command} (hplaced : Placed (states ++ former) pos)
    (hdeleted : Deleted ((sm.apply now cmd).1 :: states ++ former) pos kbID v) :
    Deleted (states ++ former) pos kbID v := by
  have hsm : sm ∈ states := by
    rw [hstates]
    exact mem_cons_self
  have hgrows := Grows.apply (h.sound sm hsm) now cmd
  -- What was read at some time is behind the newest state of its epoch.
  have hle (hepoch : (sm.apply now cmd).1.deletedEpoch = pos.epoch) : pos.seq ≤ sm.deletedSeq := by
    obtain ⟨old, hold, holdEpoch, hle⟩ := hplaced
    have hin := h.mem_states hsm hold (holdEpoch.trans (hepoch.symm.trans hgrows.epoch))
    exact le_trans hle (hnewest old hin).seq
  obtain ⟨at', hat, hepoch, e, he, hseq, hkb, hcase⟩ := hdeleted
  -- The entry was there before, and so was the state in which its knowledge base had the version.
  have hbefore : ∃ old ∈ states ++ former, old.deletedEpoch = pos.epoch ∧ e ∈ old.deletedLog := by
    obtain rfl | hat := mem_cons.mp hat
    · exact ⟨sm, mem_append_left _ hsm, hgrows.epoch.symm.trans hepoch,
        hgrows.old e he (le_trans hseq (hle hepoch))⟩
    · exact ⟨at', hat, hepoch, he⟩
  obtain ⟨old, hold, holdEpoch, he⟩ := hbefore
  refine ⟨old, hold, holdEpoch, e, he, hseq, hkb, hcase.imp_right fun hall => ⟨hall.1, ?_⟩⟩
  obtain ⟨-, had, hhad, hhadEpoch, hlt, hlisted⟩ := hall
  obtain rfl | hhad := mem_cons.mp hhad
  · have hcounted := hle hhadEpoch
    have hmono := hgrows.seq
    omega
  · exact ⟨had, hhad, hhadEpoch, hlt, hlisted⟩

end

lemma Control.rebuild (limit : Nat) {epoch : String}
    (hnew : ∀ sm ∈ states ++ former, sm.deletedEpoch ≠ epoch) :
    Control [newStateMachine limit epoch] (states ++ former) := by
  have hsound := logSound_newStateMachine limit epoch
  refine ⟨⟨_, _, rfl, fun old hold => ?_⟩, fun a ha b hb => ?_, fun a ha => ?_,
    fun a ha old hold => ?_⟩
  · rw [mem_singleton.mp hold]
    exact .refl _ hsound
  · rw [mem_singleton.mp ha, mem_singleton.mp hb]
    exact .inl (.refl _ hsound)
  · rw [mem_singleton.mp ha]
    exact hsound
  · rw [mem_singleton.mp ha]
    exact hnew old hold

lemma Deleted.of_rebuild {past : List StateMachine} {limit : Nat} {epoch : String}
    (hdeleted : Deleted (newStateMachine limit epoch :: past) pos kbID v) :
    Deleted past pos kbID v := by
  obtain ⟨sm, hsm, hepoch, e, he, hseq, hkb, hcase⟩ := hdeleted
  obtain rfl | hsm := mem_cons.mp hsm
  · cases he
  refine ⟨sm, hsm, hepoch, e, he, hseq, hkb, hcase.imp_right fun hall => ⟨hall.1, ?_⟩⟩
  obtain ⟨-, had, hhad, hrest⟩ := hall
  obtain rfl | hhad := mem_cons.mp hhad
  · cases hrest.2.2
  · exact ⟨had, hhad, hrest⟩

/-- What is deleted up to a position is gone from every state that has counted so far. -/
lemma Deleted.gone (hdeleted : Deleted (states ++ former) pos kbID v) (h : Control states former)
    (hview : view ∈ states) (hepoch : view.deletedEpoch = pos.epoch)
    (hle : pos.seq ≤ view.deletedSeq) : v ∉ view.versionsByKB kbID ∧ v < view.nextVersionID := by
  obtain ⟨sm, hsm, hsame, e, he, hseq, rfl, hcase⟩ := hdeleted
  refine gone_of_logged h.total h.sound (h.mem_states hview hsm (hsame.trans hepoch.symm)) hview he
    (le_trans hseq hle) (hcase.imp_right fun hall => ⟨hall.1, ?_⟩)
  obtain ⟨-, had, hhad, hhadEpoch, hlt, hlisted⟩ := hall
  exact ⟨had, h.mem_states hview hhad (hhadEpoch.trans hepoch.symm), hlt, hlisted⟩

end

/-! The tombstone table. -/

section

variable {n : Node} {key : String × Nat} {kbID : String} {v : Nat} {state : TombstoneState}

lemma note_tombstones (n : Node) (kbID : String) (v : Nat) (key : String × Nat) :
    (n.note kbID v).tombstones key = (n.tombstones key).or
      (if key = (kbID, v) then some .pending else none) := by
  unfold Node.note
  cases hbefore : n.tombstones (kbID, v) with
  | some state =>
    by_cases hkey : key = (kbID, v)
    · rw [hkey, hbefore, Option.some_or]
    · rw [if_neg hkey, Option.or_none]
  | none =>
  dsimp only
  by_cases hkey : key = (kbID, v)
  · rw [hkey, update_self, hbefore, Option.none_or, if_pos rfl]
  · rw [update_of_ne hkey, if_neg hkey, Option.or_none]

lemma foldl_note_of_some (entries : List DeletedVersion) (hkey : n.tombstones key = some state) :
    (entries.foldl (fun n e => n.note e.kbID e.versionID) n).tombstones key = some state := by
  induction entries generalizing n with
  | nil => exact hkey
  | cons e entries ih =>
    refine ih ?_
    rw [note_tombstones, hkey, Option.some_or]

variable {entries : List DeletedVersion}

lemma done_of_foldl_note
    (hkey : (entries.foldl (fun n e => n.note e.kbID e.versionID) n).tombstones key = some .done) :
    n.tombstones key = some .done := by
  induction entries generalizing n with
  | nil => exact hkey
  | cons e entries ih =>
  have hnoted := ih hkey
  rw [note_tombstones] at hnoted
  cases hbefore : n.tombstones key with
  | some state =>
    rw [hbefore] at hnoted
    exact hnoted
  | none =>
    rw [hbefore] at hnoted
    split at hnoted <;> cases hnoted

lemma foldl_note_of_mem {e : DeletedVersion} (he : e ∈ entries) :
    ∃ state, (entries.foldl (fun n e => n.note e.kbID e.versionID) n).tombstones
      (e.kbID, e.versionID) = some state := by
  induction entries generalizing n with
  | nil => cases he
  | cons first entries ih =>
  obtain rfl | he := mem_cons.mp he
  · cases hnoted : (n.note e.kbID e.versionID).tombstones (e.kbID, e.versionID) with
    | some state => exact ⟨state, foldl_note_of_some entries hnoted⟩
    | none =>
    rw [note_tombstones, if_pos rfl] at hnoted
    cases hbefore : n.tombstones (e.kbID, e.versionID) with
    | none | some =>
      rw [hbefore] at hnoted
      cases hnoted
  · exact ih he

lemma markDone_of_ne (hkey : key ≠ (kbID, v)) :
    (n.markDone kbID v).tombstones key = n.tombstones key := by
  unfold Node.markDone
  split
  · rfl
  · exact update_of_ne hkey _ _

end

lemma within_self (kbID : String) (v : Nat) : within kbID v (kbID, v) = true := by
  simp [within]

lemma within_zero (kbID : String) (v : Nat) : within kbID 0 (kbID, v) = true := by
  simp [within]

variable {w w' : World}

lemma holds_of_dropped {kbID' : String} {v' : Nat} {outcome : Outcome}
    (h : (w.dropped kbID v outcome).Holds kbID' v') : w.Holds kbID' v' := by
  cases outcome with
  | all => exact h.imp (fun hin => (mem_filter.mp hin).1) fun hin => (mem_filter.mp hin).1
  | records => exact h.imp_left fun hin => (mem_filter.mp hin).1
  | nothing => exact h

lemma not_within_of_dropped {kbID : String} {v : Nat} {p : String × Nat}
    (h : (w.dropped kbID v .all).Holds p.1 p.2) : within kbID v p = false := by
  obtain hin | hin := h
  all_goals simpa using (mem_filter.mp hin).2

lemma target_of_pass (hpass : w.pass = some pass) : w.target = pass.aligned := by
  rw [target, hpass, Option.bind_some]

lemma target_of_idle (hpass : w.pass = none) : w.target = none := by
  rw [target, hpass, Option.bind_none]

/-- A drop is about the data alone. -/
structure SameBut (w w' : World) : Prop where
  states : w'.states = w.states
  former : w'.former = w.former
  watermark : w'.watermark = w.watermark
  pass : w'.pass = w.pass
  tombstones : w'.tombstones = w.tombstones

lemma sameBut_dropped (w : World) (kbID : String) (v : Nat) (outcome : Outcome) :
    SameBut w (w.dropped kbID v outcome) := by
  cases outcome <;> exact ⟨rfl, rfl, rfl, rfl, rfl⟩

/-- The node's data and table change: nothing is lost sight of, what lands is deleted up to no
position, and what is finished has left no data. -/
lemma Inv.frame (h : Inv w) (hstates : w'.states = w.states) (hformer : w'.former = w.former)
    (hwatermark : w'.watermark = w.watermark) (hpass : w'.pass = w.pass ∨ w'.pass = none)
    (hholds : ∀ kbID v, w'.Holds kbID v →
      w.Holds kbID v ∧ (w.Owes kbID v → w'.Owes kbID v) ∨
        ∀ pos ∈ w.watermark.toList ++ w.target.toList, ¬Deleted w.past pos kbID v)
    (hclean : ∀ kbID v, w'.tombstones (kbID, v) = some .done ∨ (kbID, v) ∈ w'.cleaned →
      ∀ p, w'.Holds p.1 p.2 → within kbID v p = false) : Inv w' := by
  have hpast : w'.past = w.past := by rw [past, hstates, hformer, past]
  have htarget {pos : SyncState} (hpos : pos ∈ w'.target) : w'.pass = w.pass ∧ pos ∈ w.target := by
    obtain hsame | hnone := hpass
    · rw [target, hsame] at hpos
      exact ⟨hsame, hpos⟩
    · rw [target, hnone] at hpos
      cases hpos
  refine ⟨hstates ▸ hformer ▸ h.control, hclean, fun pos hpos => ?_,
    fun pos hpos kbID v hv hdel => ?_, fun pos hpos kbs leftovers hstage kbID v hv hdel => ?_⟩
  · rw [hpast]
    refine h.placed pos (mem_append.mpr ?_)
    obtain hin | hin := mem_append.mp hpos
    · rw [hwatermark] at hin
      exact .inl hin
    · exact .inr (mem_toList.mpr (htarget (mem_toList.mp hin)).2)
  · rw [hpast] at hdel
    rw [hwatermark] at hpos
    obtain ⟨hbefore, howes⟩ | hnot := hholds kbID v hv
    · exact howes (h.sound pos hpos kbID v hbefore hdel)
    · exact absurd hdel (hnot pos (mem_append_left _ (mem_toList.mpr hpos)))
  rw [hpast] at hdel
  obtain ⟨hsame, hpos⟩ := htarget hpos
  rw [hsame] at hstage
  obtain ⟨hbefore, howes⟩ | hnot := hholds kbID v hv
  · exact (h.judged pos hpos kbs leftovers hstage kbID v hbefore hdel).imp_left howes
  · exact absurd hdel (hnot pos (mem_append_right _ (mem_toList.mpr hpos)))

lemma Inv.idle (h : Inv w) : Inv { w with pass := none } :=
  h.frame rfl rfl rfl (.inr rfl) (fun _ _ hv => .inl ⟨hv, id⟩) h.clean

section

variable {kbID : String} {v : Nat} (h : Inv w)

include h

lemma Inv.land (hlands : w.Lands kbID v) (hsame : SameBut w w') (hcleaned : w'.cleaned = w.cleaned)
    (hholds : ∀ kbID' v', w'.Holds kbID' v' → w.Holds kbID' v' ∨ kbID' = kbID ∧ v' = v) :
    Inv w' := by
  obtain ⟨hfree, huncovered⟩ := hlands
  refine h.frame hsame.states hsame.former hsame.watermark (.inl hsame.pass)
    (fun kbID' v' hv => ?_) fun kbID' u hkey p hp => ?_
  · obtain hbefore | ⟨rfl, rfl⟩ := hholds kbID' v' hv
    · refine .inl ⟨hbefore, fun howes => ?_⟩
      rw [World.Owes, hsame.tombstones]
      exact howes
    · exact .inr huncovered
  rw [hsame.tombstones, hcleaned] at hkey
  obtain hbefore | ⟨hkb, hver⟩ := hholds p.1 p.2 hp
  · exact h.clean kbID' u hkey p hbefore
  -- A key that is about the landed version would be its own or that of its knowledge base.
  refine Bool.eq_false_iff.mpr fun hwithin => ?_
  obtain ⟨hkb', hu⟩ : p.1 = kbID' ∧ (u = 0 ∨ p.2 = u) := by simpa [within] using hwithin
  have hin : u ∈ [0, v] := by
    rw [hver] at hu
    simpa [eq_comm] using hu
  obtain ⟨hnone, hnot⟩ := hfree u hin
  rw [← hkb', hkb, hnone] at hkey
  exact hkey.elim (nofun) hnot

lemma Inv.note (kbID : String) (v : Nat) :
    Inv { w with tombstones := (w.node.note kbID v).tombstones } := by
  have hkept {key : String × Nat} (hkey : w.tombstones key = some .pending) :
      (w.node.note kbID v).tombstones key = some .pending := by
    rw [note_tombstones, show w.node.tombstones key = some .pending from hkey, Option.some_or]
  refine h.frame rfl rfl rfl (.inl rfl) (fun kbID' v' hv => .inl ⟨hv, ?_⟩)
    fun kbID' u hkey p hp => ?_
  · exact fun howes => howes.imp hkept hkept
  · refine h.clean kbID' u (hkey.imp_left fun hdone => ?_) p hp
    exact @done_of_foldl_note w.node (kbID', u) [⟨0, kbID, v⟩] hdone

lemma Inv.drop (kbID : String) (v : Nat) (outcome : Outcome) {cleaned : List (String × Nat)}
    (hcleaned : ∀ key ∈ cleaned, key ∈ w.cleaned ∨ outcome = .all ∧ key = (kbID, v)) :
    Inv { w.dropped kbID v outcome with cleaned := cleaned } := by
  have hsame := sameBut_dropped w kbID v outcome
  refine h.frame hsame.states hsame.former hsame.watermark (.inl hsame.pass)
    (fun kbID' v' hv => .inl ⟨holds_of_dropped hv, fun howes => ?_⟩) fun kbID' u hkey p hp => ?_
  · dsimp only [World.Owes]
    rw [hsame.tombstones]
    exact howes
  rw [hsame.tombstones] at hkey
  obtain hdone | hin := hkey
  · exact h.clean kbID' u (.inl hdone) p (holds_of_dropped hp)
  obtain hbefore | ⟨rfl, hkey⟩ := hcleaned _ hin
  · exact h.clean kbID' u (.inr hbefore) p (holds_of_dropped hp)
  · cases hkey
    exact not_within_of_dropped hp

lemma Inv.markDone (hin : (kbID, v) ∈ w.cleaned) :
    Inv { w with
      tombstones := (w.node.markDone kbID v).tombstones
      cleaned := w.cleaned.erase (kbID, v) } := by
  refine h.frame rfl rfl rfl (.inl rfl) (fun kbID' v' hv => .inl ⟨hv, fun howes => ?_⟩)
    fun kbID' u hkey p hp => ?_
  · -- Nothing within what was reclaimed is held, so the entry was not the one that is owed.
    have hother {u : Nat} (hu : u = v' ∨ u = 0) : (kbID', u) ≠ (kbID, v) := by
      intro heq
      cases heq
      have hfree := h.clean kbID v (.inr hin) (kbID, v') hv
      obtain rfl | rfl := hu
      · rw [within_self] at hfree
        cases hfree
      · rw [within_zero] at hfree
        cases hfree
    refine howes.imp (fun hpending => ?_) fun hpending => ?_
    · exact (markDone_of_ne (hother (.inl rfl))).trans hpending
    · exact (markDone_of_ne (hother (.inr rfl))).trans hpending
  · by_cases heq : (kbID', u) = (kbID, v)
    · cases heq
      exact h.clean kbID v (.inr hin) p hp
    refine h.clean kbID' u (hkey.imp (fun hdone => ?_) fun hcleaned => ?_) p hp
    · exact (markDone_of_ne heq).symm.trans hdone
    · exact mem_of_mem_erase hcleaned

lemma Inv.prune (hdone : w.tombstones (kbID, v) = some .done) :
    Inv { w with tombstones := update w.tombstones (kbID, v) none } := by
  have hkept {key : String × Nat} (hkey : w.tombstones key = some .pending) :
      update w.tombstones (kbID, v) none key = some .pending := by
    rw [update_of_ne]
    · exact hkey
    rintro rfl
    rw [hdone] at hkey
    cases hkey
  refine h.frame rfl rfl rfl (.inl rfl) (fun kbID' v' hv => .inl ⟨hv, ?_⟩)
    fun kbID' u hkey p hp => ?_
  · exact fun howes => howes.imp hkept hkept
  refine h.clean kbID' u (hkey.imp_left fun hleft => ?_) p hp
  dsimp only at hleft
  by_cases heq : (kbID', u) = (kbID, v)
  · rw [heq, update_self] at hleft
    cases hleft
  · rw [update_of_ne heq] at hleft
    exact hleft

end

lemma Inv.command (h : Inv w) (hhead : w.states.head? = some sm) (now : Int) (cmd : Command) :
    Inv { w with states := (sm.apply now cmd).1 :: w.states } := by
  obtain ⟨newest, rest, hstates, hnewest⟩ := h.control.newest
  obtain rfl : newest = sm := by
    rw [hstates] at hhead
    exact Option.some.inj hhead
  have hbefore {pos : SyncState} (hpos : pos ∈ w.watermark.toList ++ w.target.toList)
      {kbID : String} {v : Nat}
      (hdel : Deleted ((newest.apply now cmd).1 :: w.states ++ w.former) pos kbID v) :
      Deleted w.past pos kbID v :=
    hdel.of_command h.control hstates hnewest (h.placed pos hpos)
  refine ⟨h.control.command hstates hnewest now cmd, h.clean, fun pos hpos => ?_,
    fun pos hpos kbID v hv hdel => ?_, fun pos hpos kbs leftovers hstage kbID v hv hdel => ?_⟩
  · obtain ⟨sm, hsm, hplaced⟩ := h.placed pos hpos
    exact ⟨sm, mem_cons_of_mem _ hsm, hplaced⟩
  · refine h.sound pos hpos kbID v hv (hbefore ?_ hdel)
    exact mem_append_left _ (mem_toList.mpr hpos)
  · refine h.judged pos hpos kbs leftovers hstage kbID v hv (hbefore ?_ hdel)
    exact mem_append_right _ (mem_toList.mpr hpos)

lemma Inv.rebuild (h : Inv w) (limit : Nat) {epoch : String}
    (hnew : ∀ sm ∈ w.past, sm.deletedEpoch ≠ epoch) :
    Inv { w with states := [newStateMachine limit epoch], former := w.past } := by
  refine ⟨.rebuild limit hnew, h.clean, fun pos hpos => ?_, fun pos hpos kbID v hv hdel => ?_,
    fun pos hpos kbs leftovers hstage kbID v hv hdel => ?_⟩
  · obtain ⟨sm, hsm, hplaced⟩ := h.placed pos hpos
    exact ⟨sm, mem_cons_of_mem _ hsm, hplaced⟩
  · exact h.sound pos hpos kbID v hv (Deleted.of_rebuild hdel)
  · exact h.judged pos hpos kbs leftovers hstage kbID v hv (Deleted.of_rebuild hdel)

/-- The watermark moves to a position whose deletions have left no data or are noted. -/
lemma Inv.advance (h : Inv w) (hpass : w.pass = none) (hplaced : Placed w.past next)
    (hsound : ∀ kbID v, w.Holds kbID v → Deleted w.past next kbID v → (w.noteBatch next
      entries).Owes kbID v) : Inv (w.noteBatch next entries) := by
  have hidle : (w.noteBatch next entries).target = none := target_of_idle hpass
  refine ⟨h.control, fun kbID v hkey => ?_, fun pos hpos => ?_, fun pos hpos kbID v hv hdel => ?_,
    fun pos hpos => ?_⟩
  · exact h.clean kbID v (hkey.imp_left done_of_foldl_note)
  · obtain hin | hin := mem_append.mp hpos
    · obtain rfl : next = pos := Option.some.inj (mem_toList.mp hin)
      exact hplaced
    · rw [hidle] at hin
      cases hin
  · obtain rfl : next = pos := Option.some.inj hpos
    exact hsound kbID v hv hdel
  · rw [hidle] at hpos
    cases hpos

lemma owes_of_noteBatch (howes : w.Owes kbID v) : (w.noteBatch next entries).Owes kbID v :=
  howes.imp (foldl_note_of_some entries) (foldl_note_of_some entries)

/-- A page of the log: what it names is noted, unless it was finished before. -/
lemma Inv.page (h : Inv w) {state : SyncState} {view : StateMachine} {replica limit : Nat}
    {last : DeletedVersion} (hpass : w.pass = none) (hwatermark : w.watermark = some state)
    (hview : w.states[replica]? = some view)
    (htruncated : truncated state.seq (view.deletionsSince state.seq limit) = false)
    (hepoch : (view.deletionsSince state.seq limit).epoch = state.epoch)
    (hlast : (view.deletionsSince state.seq limit).entries.getLast? = some last) :
    Inv (w.noteBatch ⟨(view.deletionsSince state.seq limit).epoch, last.seq⟩
      (view.deletionsSince state.seq limit).entries) := by
  have hmem : view ∈ w.states := mem_of_getElem? hview
  obtain ⟨hlogged, hlater⟩ := mem_log_of_mem_entries (mem_of_getLast? hlast)
  have hcounted := (h.control.sound view hmem).le last hlogged
  have hreaches : (view.deletionsSince state.seq limit).oldest ≤ state.seq + 1 := by
    have hlatest : (view.deletionsSince state.seq limit).latest = view.deletedSeq := rfl
    simp only [truncated, Bool.and_eq_false_iff, decide_eq_false_iff_not,
      Bool.or_eq_false_iff] at htruncated
    omega
  refine h.advance hpass ⟨view, mem_append_left _ hmem, rfl, hcounted⟩
    fun kbID v hv hdel => ?_
  obtain ⟨sm, hsm, hsmEpoch, e, he, hseq, rfl, hcase⟩ := hdel
  obtain hnew | hbehind := lt_or_ge state.seq e.seq
  · have hentry := mem_deletionsSince h.control.total h.control.sound
      (h.control.mem_states hmem hsm hsmEpoch) hmem he hreaches hlast hnew hseq
    obtain ⟨noted, hnoted⟩ := @foldl_note_of_mem w.node _ e hentry
    -- A finished reclaim has left nothing the entry is about.
    have hwithin : within e.kbID e.versionID (e.kbID, v) = true := by
      obtain ⟨-, hversion⟩ | ⟨hzero, -⟩ := hcase
      · rw [hversion]
        exact within_self _ _
      · rw [hzero]
        exact within_zero _ _
    cases noted with
    | done =>
      have hfree := h.clean e.kbID e.versionID (.inl (done_of_foldl_note hnoted)) (e.kbID, v) hv
      rw [hwithin] at hfree
      cases hfree
    | pending =>
    obtain ⟨-, hversion⟩ | ⟨hzero, -⟩ := hcase
    · rw [hversion] at hnoted
      exact .inl hnoted
    · rw [hzero] at hnoted
      exact .inr hnoted
  · refine owes_of_noteBatch (h.sound state hwatermark e.kbID v hv
      ⟨sm, hsm, hsmEpoch.trans hepoch, e, he, hbehind, rfl, hcase.imp_right fun hall => ?_⟩)
    obtain ⟨hzero, had, hhad, hhadEpoch, hrest⟩ := hall
    exact ⟨hzero, had, hhad, hhadEpoch.trans hepoch, hrest⟩

lemma Inv.chain (h : Inv w) (hplaced : ∀ pos ∈ aligned, Placed w.past pos) :
    Inv { w with pass := some ⟨aligned, .surveying⟩ } := by
  refine ⟨h.control, h.clean, fun pos hpos => ?_, h.sound, fun pos hpos kbs leftovers hstage => ?_⟩
  · obtain hin | hin := mem_append.mp hpos
    · exact h.placed pos (mem_append_left _ hin)
    · exact hplaced pos (mem_toList.mp hin)
  · cases hstage

lemma Inv.setStage (h : Inv w) (haligned : w.target = pass.aligned) {stage : Stage}
    (hjudged : ∀ pos ∈ w.target, ∀ kbs leftovers, stage = .judging kbs leftovers → ∀ kbID v,
      w.Holds kbID v → Deleted w.past pos kbID v → w.Owes kbID v ∨ kbID ∈ kbs ∨ (kbID, v) ∈
      leftovers) : Inv (w.setStage pass stage) := by
  refine ⟨h.control, h.clean, fun pos hpos => ?_, h.sound, fun pos hpos kbs leftovers hstage => ?_⟩
  · refine h.placed pos ?_
    rw [haligned]
    exact hpos
  · refine hjudged pos ?_ kbs leftovers (Option.some.inj hstage)
    rw [haligned]
    exact hpos

lemma Inv.looks (h : Inv w) (haligned : w.target = pass.aligned) (hlooks : w.Looks kbs) :
    Inv (w.setStage pass (.judging kbs [])) := by
  refine h.setStage haligned fun pos hpos kbs' leftovers hstage kbID v hv hdel => ?_
  cases hstage
  obtain hnone | hall := hlooks
  · rw [hnone] at hpos
    cases hpos
  obtain hin | howed := hall (kbID, v) (mem_append.mpr hv)
  · exact .inr (.inl hin)
  · exact .inl (.inr howed)

lemma mem_localVersions : v ∈ w.localVersions kbID ↔ (kbID, v) ∈ w.listed := by
  unfold localVersions
  rw [mem_insertionSort, mem_map]
  constructor
  · rintro ⟨p, hp, rfl⟩
    obtain ⟨hin, hkb⟩ := mem_filter.mp hp
    obtain rfl := of_decide_eq_true hkb
    exact hin
  · intro hin
    exact ⟨(kbID, v), mem_filter.mpr ⟨hin, decide_eq_true rfl⟩, rfl⟩

lemma mem_leftoversOf {versions : List Nat} (hsound : LogSound view) (hkb : (view.kbs kbID).isSome)
    (hv : v ∈ versions) (hgone : v ∉ view.versionsByKB kbID) (hlt : v < view.nextVersionID) :
    ∃ gone, leftoversOf view kbID versions = some gone ∧ v ∈ gone := by
  obtain ⟨first, rest, hversions⟩ := exists_cons_of_ne_nil (ne_nil_of_mem hv)
  obtain ⟨kb, hkb⟩ := Option.isSome_iff_exists.mp hkb
  have hlast : ∃ last, versions.getLast? = some last :=
    Option.isSome_iff_exists.mp (getLast?_isSome.mpr (ne_nil_of_mem hv))
  obtain ⟨last, hlast⟩ := hlast
  have hliveness : view.versionLiveness kbID (some (first - 1)) (some last) =
      .ok (aliveInRange (some (first - 1)) (some last) (view.versionsByKB kbID),
        view.nextVersionID - 1) := by
    rw [versionLiveness, hkb]
  have hhead : versions.head? = some first := by rw [hversions, head?_cons]
  have halive : v ∉ aliveInRange (some (first - 1)) (some last)
      (view.versionsByKB kbID) :=
    fun hin => hgone ((mem_aliveInRange (hsound.ascending kbID)).mp hin).1
  unfold leftoversOf
  rw [hhead, hlast]
  dsimp only
  rw [hliveness]
  refine ⟨_, rfl, mem_filter.mpr ⟨hv, ?_⟩⟩
  have hallocated : ¬view.nextVersionID - 1 < v := by omega
  simp [halive, hallocated]

/-- A knowledge base is judged: what is deleted up to the position is among its leftovers. -/
lemma Inv.judge (h : Inv w) {leftovers : List (String × Nat)}
    (hpass : w.pass = some ⟨aligned, .judging (kbID :: kbs) leftovers⟩) {replica : Option Nat}
    (hjudges : w.Judges kbID (replica.bind fun i => w.states[i]?)) :
    Inv (w.setStage ⟨aligned, .surveying⟩ (.judging kbs (leftovers ++
      (((replica.bind fun i => w.states[i]?).bind fun sm =>
        leftoversOf sm kbID (w.localVersions kbID)).getD []).map fun v => (kbID, v)))) := by
  refine h.setStage (target_of_pass hpass) fun pos hpos kbs' leftovers' hstage kb v hv hdel => ?_
  cases hstage
  have hstage : w.pass.map (·.stage) = some (.judging (kbID :: kbs) leftovers) := by
    rw [hpass, Option.map_some]
  obtain howes | hkb | hin := h.judged pos hpos (kbID :: kbs) leftovers hstage kb v hv hdel
  · exact .inl howes
  · obtain rfl | hkb := mem_cons.mp hkb
    · obtain ⟨hlists, hview⟩ := hjudges pos (mem_toList.mpr hpos)
      have hlisted : (kb, v) ∈ w.listed := hv.elim (fun hrecord => hlists _ hrecord rfl) id
      obtain hempty | ⟨view, hanswer, hepoch, hcounted, hknown⟩ := hview
      · exact absurd rfl (hempty (kb, v) hlisted)
      have hanswer := mem_toList.mp hanswer
      obtain ⟨i, -, hi⟩ := Option.bind_eq_some_iff.mp hanswer
      have hmem := mem_of_getElem? hi
      obtain ⟨hgone, hlt⟩ := hdel.gone h.control hmem hepoch hcounted
      obtain ⟨gone, hleft, hin⟩ := mem_leftoversOf (h.control.sound view hmem) hknown
        (mem_localVersions.mpr hlisted) hgone hlt
      refine .inr (.inr (mem_append_right _ (mem_map.mpr ⟨v, ?_, rfl⟩)))
      rw [hanswer, Option.bind_some, hleft]
      exact hin
    · exact .inr (.inl hkb)
  · exact .inr (.inr (mem_append_left _ hin))

lemma Inv.reclaim (h : Inv w) {aligned : Option SyncState} {p : String × Nat}
    {leftovers : List (String × Nat)}
    (hpass : w.pass = some ⟨aligned, .judging [] (p :: leftovers)⟩)
    {outcome : Outcome} (hok : w.target = none ∨ outcome = .all ∨ w.Owes p.1 p.2) :
    Inv ((w.dropped p.1 p.2 outcome).setStage ⟨aligned, .surveying⟩ (.judging [] leftovers)) := by
  have hdropped : Inv (w.dropped p.1 p.2 outcome) := by
    have hinv := @Inv.drop w h p.1 p.2 outcome w.cleaned fun key hin => .inl hin
    cases outcome <;> exact hinv
  have hsame := sameBut_dropped w p.1 p.2 outcome
  have hpass' : (w.dropped p.1 p.2 outcome).pass = some ⟨aligned, .judging [] (p :: leftovers)⟩ :=
    hsame.pass.trans hpass
  refine hdropped.setStage (target_of_pass hpass') fun pos hpos kbs' leftovers' hstage kbID v hv hdel => ?_
  cases hstage
  have hstage : (w.dropped p.1 p.2 outcome).pass.map (·.stage) =
      some (.judging [] (p :: leftovers)) := by
    rw [hpass', Option.map_some]
  obtain howes | hkb | hin := hdropped.judged pos hpos [] (p :: leftovers) hstage kbID v hv hdel
  · exact .inl howes
  · cases hkb
  obtain rfl | hin := mem_cons.mp hin
  · obtain hnone | rfl | howes := hok
    · rw [target, hsame.pass, ← target, hnone] at hpos
      cases hpos
    · have hfree := @not_within_of_dropped w kbID v (kbID, v) hv
      rw [within_self] at hfree
      cases hfree
    · refine .inl ?_
      rw [World.Owes, hsame.tombstones]
      exact howes
  · exact .inr (.inr hin)

lemma Inv.align (h : Inv w) (hpass : w.pass = some ⟨some next, .judging [] []⟩) :
    Inv ({ w with pass := none }.noteBatch next []) := by
  have htarget : w.target = some next := target_of_pass hpass
  refine h.idle.advance rfl ?_ fun kbID v hv hdel => ?_
  · refine h.placed next (mem_append_right _ ?_)
    rw [htarget]
    exact mem_singleton_self next
  obtain howes | hkb | hin := h.judged next htarget [] [] (by rw [hpass]; rfl) kbID v hv hdel
  · exact howes
  · cases hkb
  · cases hin

lemma inv_init (limit : Nat) (epoch : String) : Inv (init limit epoch) where
  control := @Control.rebuild [] [] limit epoch nofun
  clean kbID v hkey := by
    obtain hdone | hin := hkey
    · cases hdone
    · cases hin
  placed pos hpos := absurd hpos not_mem_nil
  sound pos hpos := by cases hpos
  judged pos hpos := by cases hpos

section Step

variable (h : Inv w)

include h

lemma Inv.step_writeRecords (hok : w.Lands kbID v)
    (hstep : w.step (.writeRecords kbID v) = some w') : Inv w' := by
  obtain ⟨-, ⟨⟩⟩ := ite_none_right_eq_some.mp hstep
  refine h.land hok ⟨rfl, rfl, rfl, rfl, rfl⟩ rfl fun kbID' v' hv => ?_
  obtain hrecord | hlisted := hv
  · obtain heq | hold := mem_cons.mp hrecord
    · exact .inr (Prod.mk.inj heq)
    · exact .inl (.inl hold)
  · exact .inl (.inr hlisted)

lemma Inv.step_writeList (hok : w.Lands kbID v) (hstep : w.step (.writeList kbID v) = some w') :
    Inv w' := by
  obtain ⟨-, ⟨⟩⟩ := ite_none_right_eq_some.mp hstep
  refine h.land hok ⟨rfl, rfl, rfl, rfl, rfl⟩ rfl fun kbID' v' hv => ?_
  obtain hrecord | hlisted := hv
  · exact .inl (.inl hrecord)
  obtain heq | hold := mem_cons.mp hlisted
  · exact .inr (Prod.mk.inj heq)
  · exact .inl (.inr hold)

lemma Inv.step_drop {outcome : Outcome} (hstep : w.step (.drop kbID v outcome) = some w') :
    Inv w' := by
  obtain ⟨⟩ := hstep
  split
  · next hall =>
    refine h.drop kbID v outcome fun key hkey => ?_
    exact (mem_cons.mp hkey).symm.imp_right fun heq => ⟨hall, heq⟩
  · have hinv := @Inv.drop w h kbID v outcome w.cleaned fun key hin => .inl hin
    cases outcome <;> exact hinv

lemma Inv.step_page {replica limit : Nat} (hstep : w.step (.page replica limit) = some w') :
    Inv w' := by
  dsimp only [World.step] at hstep
  split at hstep
  · next state view hpass hwatermark hview =>
    obtain ⟨⟨htruncated, hepoch, -⟩, hstep⟩ := ite_none_right_eq_some.mp hstep
    obtain ⟨last, hlast, rfl⟩ := Option.map_eq_some_iff.mp hstep
    exact h.page hpass hwatermark hview htruncated hepoch hlast
  · cases hstep

lemma Inv.step_chain {replica : Option Nat} (hstep : w.step (.chain replica) = some w') :
    Inv w' := by
  dsimp only [World.step] at hstep
  split at hstep
  · obtain ⟨⟩ := hstep
    refine h.chain fun pos hpos => ?_
    obtain ⟨d, hd, rfl⟩ := Option.map_eq_some_iff.mp hpos
    obtain ⟨view, hview, rfl⟩ := Option.map_eq_some_iff.mp (Option.filter_eq_some_iff.mp hd).1
    obtain ⟨i, -, hi⟩ := Option.bind_eq_some_iff.mp hview
    exact ⟨view, mem_append_left _ (mem_of_getElem? hi), rfl, le_rfl⟩
  · cases hstep

lemma Inv.step_survey {ok : Bool} (hok : Covered w (.survey ok))
    (hstep : w.step (.survey ok) = some w') : Inv w' := by
  dsimp only [World.step] at hstep
  split at hstep
  · next pass hpass =>
    obtain ⟨-, ⟨⟩⟩ := ite_none_right_eq_some.mp hstep
    have htarget := target_of_pass hpass
    cases ok with
    | true => exact h.setStage htarget nofun
    | false => exact h.looks htarget (hok.resolve_left Bool.false_ne_true)
  · cases hstep

lemma Inv.step_listKBs {answer : Option (Nat × List String)} (hok : Covered w (.listKBs answer))
    (hstep : w.step (.listKBs answer) = some w') : Inv w' := by
  dsimp only [World.step] at hstep
  split at hstep
  · next pass hpass =>
    obtain ⟨-, hstep⟩ := ite_none_right_eq_some.mp hstep
    have htarget := target_of_pass hpass
    cases answer with
    | none =>
      obtain ⟨⟩ := hstep
      exact h.looks htarget hok
    | some answer =>
      obtain ⟨view, -, hstep⟩ := Option.bind_eq_some_iff.mp hstep
      obtain ⟨-, ⟨⟩⟩ := ite_none_right_eq_some.mp hstep
      exact h.looks htarget hok
  · cases hstep

lemma Inv.step_judge {replica : Option Nat} (hok : Covered w (.judge replica))
    (hstep : w.step (.judge replica) = some w') : Inv w' := by
  dsimp only [World.step] at hstep
  split at hstep
  · next aligned kbID kbs leftovers hpass =>
    obtain ⟨⟩ := hstep
    refine h.judge hpass (hok kbID ?_)
    rw [nextKB, hpass]
    rfl
  · cases hstep

lemma Inv.step_reclaim {outcome : Outcome} (hok : Covered w (.reclaim outcome))
    (hstep : w.step (.reclaim outcome) = some w') : Inv w' := by
  dsimp only [World.step] at hstep
  split at hstep
  · next aligned kbID v leftovers hpass =>
    obtain ⟨⟩ := hstep
    refine h.reclaim hpass (hok.imp_right fun hrest => hrest.imp_right fun howed => ?_)
    refine howed (kbID, v) ?_
    rw [nextLeftover, hpass]
    rfl
  · cases hstep

lemma Inv.step_align {stored : Bool} (hstep : w.step (.align stored) = some w') : Inv w' := by
  dsimp only [World.step] at hstep
  split at hstep
  · next aligned hpass =>
    cases aligned with
    | none =>
      obtain ⟨⟩ := hstep
      exact h.idle
    | some next =>
    dsimp only at hstep
    split at hstep
    · obtain ⟨⟩ := hstep
      exact h.align hpass
    · obtain ⟨⟩ := hstep
      exact h.idle
  · cases hstep

lemma Inv.step {a : Action} (hok : Covered w a) (hstep : w.step a = some w') : Inv w' := by
  cases a with
  | command now cmd =>
    obtain ⟨sm, hhead, rfl⟩ := Option.map_eq_some_iff.mp hstep
    exact h.command hhead now cmd
  | rebuild limit epoch =>
    obtain ⟨⟩ := hstep
    exact h.rebuild limit hok
  | letIn kbID v readable =>
    obtain ⟨-, ⟨⟩⟩ := Option.ite_none_left_eq_some.mp hstep
    exact h.frame rfl rfl rfl (.inl rfl) (fun _ _ hv => .inl ⟨hv, id⟩) h.clean
  | writeRecords kbID v => exact h.step_writeRecords hok hstep
  | writeList kbID v => exact h.step_writeList hok hstep
  | note kbID v =>
    obtain ⟨⟩ := hstep
    exact h.note kbID v
  | drop kbID v outcome => exact h.step_drop hstep
  | markDone kbID v =>
    obtain ⟨hin, ⟨⟩⟩ := ite_none_right_eq_some.mp hstep
    exact h.markDone hin
  | prune kbID v =>
    obtain ⟨hdone, ⟨⟩⟩ := ite_none_right_eq_some.mp hstep
    exact h.prune hdone
  | page replica limit => exact h.step_page hstep
  | chain replica => exact h.step_chain hstep
  | survey ok => exact h.step_survey hok hstep
  | listKBs answer => exact h.step_listKBs hok hstep
  | judge replica => exact h.step_judge hok hstep
  | reclaim outcome => exact h.step_reclaim hok hstep
  | align stored => exact h.step_align hstep
  | restart =>
    obtain ⟨⟩ := hstep
    refine h.frame rfl rfl rfl (.inr rfl) (fun _ _ hv => .inl ⟨hv, id⟩) fun kbID v hkey => ?_
    exact h.clean kbID v (.inl (hkey.resolve_right not_mem_nil))

end Step

/-- In every run in which the full passes judge and reclaim all they have to, a deletion behind
the stored watermark has left no data on the node or is owed by it. -/
theorem watermarkSound_of_covered {limit : Nat} {epoch : String}
    (hreach : Reach World.step Covered (init limit epoch) w) : w.WatermarkSound := by
  have hinv : Inv w := hreach.invariant Inv (inv_init limit epoch)
    fun _ _ _ _ h hok hstep => h.step hok hstep
  exact hinv.sound

def landed (v : Nat) : List Action :=
  [.command 0 (.createVersion "kb" 0 ""), .letIn "kb" v true, .writeRecords "kb" v,
    .writeList "kb" v]

/-- The first pass finds nothing and sets the watermark; the first deletion comes by the log, and
its reclaim is owed; the second is a leftover of the next pass. -/
theorem watermarkSound_both_ways : ∃ w,
    Reach World.step Covered (init 8 "epoch") w ∧ w.watermark = some ⟨"epoch", 2⟩ ∧
      w.Holds "kb" 1 ∧ Deleted w.past ⟨"epoch", 2⟩ "kb" 1 ∧ ¬w.Holds "kb" 2 ∧
      w.WatermarkSound := by
  obtain ⟨w, hreach, hwatermark, hholds, hdeleted, hgone⟩ : ∃ w : World,
      Reach World.step Covered (init 8 "epoch") w ∧
        w.watermark = some ⟨"epoch", 2⟩ ∧
        (("kb", 1) ∈ w.records ∨ ("kb", 1) ∈ w.listed) ∧ Deleted w.past ⟨"epoch", 2⟩ "kb" 1 ∧
        ¬(("kb", 2) ∈ w.records ∨ ("kb", 2) ∈ w.listed) :=
    Reach.exists_decide ([Action.command 0 (.createKB { kbID := "kb" })] ++ landed 1 ++ landed 2 ++
      [Action.chain (some 0), .survey true, .listKBs (some (0, ["kb"])), .judge (some 0), .align true,
      .command 0 (.removeVersionMeta "kb" 1), .page 0 512, .command 0 (.removeVersionMeta "kb" 2),
      .chain (some 0), .survey true, .listKBs (some (0, ["kb"])), .judge (some 0),
      .reclaim .nothing, .reclaim .all, .align true]) (by decide +kernel)
  exact ⟨w, hreach, hwatermark, hholds, hdeleted, hgone, watermarkSound_of_covered hreach⟩

/-- A version is on the node when a run begins that sets the watermark behind its deletion, leaves
its data and names it in no entry of the table. -/
def SkipsDeletion (acts : List Action) : Prop :=
  ∃ w, run World.step (fun _ _ => True) (init 8 "epoch")
      ([Action.command 0 (.createKB { kbID := "kb" })] ++ landed 1 ++ acts) = some w ∧
    w.watermark = some ⟨"epoch", 1⟩ ∧ w.Holds "kb" 1 ∧ Deleted w.past ⟨"epoch", 1⟩ "kb" 1 ∧
    ¬w.Owes "kb" 1 ∧ ¬w.WatermarkSound

lemma skipsDeletion_of_run {acts : List Action}
    (hrun : (run World.step (fun _ _ => True) (init 8 "epoch")
      ([Action.command 0 (.createKB { kbID := "kb" })] ++ landed 1 ++ acts)).any (fun w : World =>
        decide (w.watermark = some ⟨"epoch", 1⟩ ∧ ("kb", 1) ∈ w.records ∧
          Deleted w.past ⟨"epoch", 1⟩ "kb" 1 ∧ ¬w.Owes "kb" 1)) = true) : SkipsDeletion acts := by
  obtain ⟨w, hw, hstate⟩ := (Option.any_eq_true _ _).mp hrun
  obtain ⟨hwatermark, hrecord, hdeleted, howes⟩ := of_decide_eq_true hstate
  refine ⟨w, hw, hwatermark, .inl hrecord, hdeleted, howes, fun hsound => howes ?_⟩
  exact hsound _ hwatermark "kb" 1 (.inl hrecord) hdeleted

/-- The reclaim of the leftover fails; the liveness of its knowledge base cannot be read; the
knowledge base itself is deleted, and not in the list any more. -/
theorem not_watermarkSound_unjudged :
    SkipsDeletion [.command 0 (.removeVersionMeta "kb" 1), .chain (some 0), .survey true,
        .listKBs (some (0, ["kb"])), .judge (some 0), .reclaim .nothing, .align true] ∧
      SkipsDeletion [.command 0 (.removeVersionMeta "kb" 1), .chain (some 0), .survey true,
        .listKBs (some (0, ["kb"])), .judge none, .align true] ∧
      SkipsDeletion [.command 0 (.removeKBMeta "kb"), .chain (some 0), .survey true,
        .listKBs (some (0, [])), .align true] := by
  refine ⟨skipsDeletion_of_run ?_, skipsDeletion_of_run ?_, skipsDeletion_of_run ?_⟩
  all_goals decide +kernel

end stratum.plane.deletions
