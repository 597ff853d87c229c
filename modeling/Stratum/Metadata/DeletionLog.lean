import Stratum.Metadata.Replay

namespace stratum.metadata

open StateMachine List

structure SameLog (sm sm' : StateMachine) : Prop where
  epoch : sm'.deletedEpoch = sm.deletedEpoch
  seq : sm'.deletedSeq = sm.deletedSeq
  log : sm'.deletedLog = sm.deletedLog

/-- What one command does to the deletion log: nothing, or it appends one entry, for a version it
removes or, with version `0`, for a knowledge base it empties. -/
inductive LogChange (sm sm' : StateMachine) : Prop
  | same (hsame : SameLog sm sm')
  | appended (kbID : String) (v : Nat) (hepoch : sm'.deletedEpoch = sm.deletedEpoch)
      (hseq : sm'.deletedSeq = sm.deletedSeq + 1)
      (hlog : sm'.deletedLog <:+ sm.deletedLog ++ [⟨sm.deletedSeq + 1, kbID, v⟩])
      (hgone : ∀ u, v = 0 ∨ v = u → u ∉ sm'.versionsByKB kbID) (hlt : v < sm'.nextVersionID)

variable {v : Nat} {e last : DeletedVersion} {log : List DeletedVersion} {view : StateMachine}

section

variable (sm : StateMachine)

lemma deletedLogLimitOrDefault_pos : 0 < sm.deletedLogLimitOrDefault := by
  unfold deletedLogLimitOrDefault
  split
  · assumption
  · exact Nat.succ_pos _

/-- However short the log is kept, a deletion is the last entry of the log it leads to. -/
lemma recordDeletion_eq (kbID : String) (v : Nat) : (sm.recordDeletion kbID v).deletedLog =
      sm.deletedLog.drop (sm.deletedLog.length + 1 - sm.deletedLogLimitOrDefault) ++
        [⟨sm.deletedSeq + 1, kbID, v⟩] := by
  have hlimit := deletedLogLimitOrDefault_pos sm
  simp only [recordDeletion, length_append, length_singleton]
  rw [drop_append_of_le_length (by omega)]

lemma recordDeletion_suffix (kbID : String) (v : Nat) : (sm.recordDeletion kbID v).deletedLog <:+
      sm.deletedLog ++ [⟨sm.deletedSeq + 1, kbID, v⟩] :=
  drop_suffix _ _

variable {sm} (hwf : WellFormed sm)

include hwf

lemma logChange_removeVersionMeta {m : VersionMeta} (hm : sm.versions v = some m) : LogChange sm
      (((sm.removeVersion m.kbID v).dropRequestMappings m.kbID v).recordDeletion m.kbID v) := by
  refine .appended m.kbID v rfl rfl
    (recordDeletion_suffix ((sm.removeVersion m.kbID v).dropRequestMappings m.kbID v) m.kbID v)
    (fun u hu => ?_) (hwf.lt_next hm)
  obtain rfl := hu.resolve_left (Nat.ne_of_gt (hwf.pos hm))
  have hlist : (sm.removeVersion m.kbID v).versionsByKB m.kbID = (sm.versionsByKB m.kbID).erase v :=
    Function.update_self ..
  change v ∉ (sm.removeVersion m.kbID v).versionsByKB m.kbID
  rw [hlist]
  exact (hwf.nodup m.kbID).not_mem_erase

lemma logChange_removeKBMeta (kbID : String) : LogChange sm (sm.applyRemoveKBMeta kbID).1 := by
  refine .appended kbID 0 rfl rfl (drop_suffix _ _) (fun u _ => ?_) hwf.next_pos
  change u ∉ Function.update sm.versionsByKB kbID [] kbID
  rw [Function.update_self]
  exact not_mem_nil

lemma LogChange.apply (now : Int) (cmd : Command) : LogChange sm (sm.apply now cmd).1 := by
  have happlied := Applied.apply sm now cmd
  generalize sm.apply now cmd = result at happlied ⊢
  cases happlied with
  | removeKBMeta kbID => exact logChange_removeKBMeta hwf kbID
  | removeVersionMeta v m hm => exact logChange_removeVersionMeta hwf hm
  | marked v root mode kb targets =>
    obtain ⟨versions, heq⟩ := marked_eq sm root.kbID v root mode targets
    rw [heq]
    exact .same ⟨rfl, rfl, rfl⟩
  -- Abandoning a version is no deletion.
  | refused | unchanged | createKB | setKBStatus | createVersion | revised | rollback
  | discardVersion => exact .same ⟨rfl, rfl, rfl⟩

end

/-- The log of a state: numbered upwards to its counter, and a version it names is out of the
metadata for good. -/
structure LogSound (sm : StateMachine) : Prop where
  wellFormed : WellFormed sm
  ascending : Ascending sm
  numbered : sm.deletedLog.Pairwise (·.seq < ·.seq)
  le : ∀ e ∈ sm.deletedLog, e.seq ≤ sm.deletedSeq
  gone : ∀ e ∈ sm.deletedLog, e.versionID ≠ 0 →
    e.versionID ∉ sm.versionsByKB e.kbID ∧ e.versionID < sm.nextVersionID

/-- The second state is a later one of the same metadata: no version comes back, the logs agree
where both reach, and a knowledge base deleted in between has lost the versions it had. -/
structure Grows (sm sm' : StateMachine) : Prop where
  epoch : sm'.deletedEpoch = sm.deletedEpoch
  seq : sm.deletedSeq ≤ sm'.deletedSeq
  next : sm.nextVersionID ≤ sm'.nextVersionID
  listed : ∀ {kbID v}, v ∈ sm'.versionsByKB kbID → v ∈ sm.versionsByKB kbID ∨ sm.nextVersionID ≤ v
  old : ∀ e ∈ sm'.deletedLog, e.seq ≤ sm.deletedSeq → e ∈ sm.deletedLog
  kept : ∀ e ∈ sm.deletedLog, ∀ e' ∈ sm'.deletedLog, e'.seq ≤ e.seq → e ∈ sm'.deletedLog
  emptied : ∀ e ∈ sm'.deletedLog, sm.deletedSeq < e.seq → e.versionID = 0 →
    ∀ v ∈ sm.versionsByKB e.kbID, v ∉ sm'.versionsByKB e.kbID

variable {sm sm' sm'' : StateMachine}

lemma logSound_newStateMachine (limit : Nat) (epoch : String) :
    LogSound (newStateMachine limit epoch) where
  wellFormed := wellFormed_newStateMachine limit epoch
  ascending := ascending_newStateMachine limit epoch
  numbered := .nil
  le _ he := absurd he not_mem_nil
  gone _ he := absurd he not_mem_nil

lemma LogSound.lt_next (h : LogSound sm) {kbID : String} (hv : v ∈ sm.versionsByKB kbID) :
    v < sm.nextVersionID := by
  obtain ⟨m, hm, -⟩ := h.wellFormed.present hv
  exact h.wellFormed.lt_next hm

lemma LogSound.numbered_append (h : LogSound sm) {new : DeletedVersion}
    (hnew : new.seq = sm.deletedSeq + 1) : (sm.deletedLog ++ [new]).Pairwise (·.seq < ·.seq) := by
  refine pairwise_append.mpr ⟨h.numbered, pairwise_singleton _ _, ?_⟩
  intro e he e' he'
  rw [mem_singleton.mp he', hnew]
  exact Nat.lt_succ_of_le (h.le e he)

lemma mem_of_suffix_append {log' : List DeletedVersion} {new : DeletedVersion}
    (hlog : log' <:+ log ++ [new]) (he : e ∈ log') : e ∈ log ∨ e = new := by
  obtain hold | hnew := mem_append.mp (hlog.mem he)
  · exact .inl hold
  · exact .inr (mem_singleton.mp hnew)

namespace Grows

lemma refl (sm : StateMachine) (h : LogSound sm) : Grows sm sm where
  epoch := rfl
  seq := Nat.le_refl _
  next := Nat.le_refl _
  listed := .inl
  old _ he _ := he
  kept _ he _ _ _ := he
  emptied e he hlt := absurd (h.le e he) (Nat.not_le.mpr hlt)

lemma not_mem (h : Grows sm sm') {kbID : String} (hlt : v < sm.nextVersionID)
    (hv : v ∉ sm.versionsByKB kbID) : v ∉ sm'.versionsByKB kbID := by
  intro hmem
  obtain hbefore | hnew := h.listed hmem
  · exact hv hbefore
  · omega

lemma trans (hsound : LogSound sm) (h : Grows sm sm') (h' : Grows sm' sm'') : Grows sm sm'' where
  epoch := h'.epoch.trans h.epoch
  seq := Nat.le_trans h.seq h'.seq
  next := Nat.le_trans h.next h'.next
  listed hv := by
    obtain hmid | hnew := h'.listed hv
    · exact h.listed hmid
    · exact .inr (Nat.le_trans h.next hnew)
  old e he hle := h.old e (h'.old e he (Nat.le_trans hle h.seq)) hle
  kept e he e' he' hle := by
    have hseq := hsound.le e he
    have hmid := h'.old e' he' (Nat.le_trans hle (Nat.le_trans hseq h.seq))
    exact h'.kept e (h.kept e he e' hmid hle) e' he' hle
  emptied e he hlt hzero v hv := by
    have hnext := Nat.lt_of_lt_of_le (hsound.lt_next hv) h.next
    obtain hmid | hlater := Nat.lt_or_ge sm'.deletedSeq e.seq
    · -- The knowledge base went in the second part; the version may have gone before.
      by_cases hv' : v ∈ sm'.versionsByKB e.kbID
      · exact h'.emptied e he hmid hzero v hv'
      · exact h'.not_mem hnext hv'
    · exact h'.not_mem hnext (h.emptied e (h'.old e he hlater) hlt hzero v hv)

end Grows

lemma Grows.apply (h : LogSound sm) (now : Int) (cmd : Command) :
    Grows sm (sm.apply now cmd).1 := by
  have hlisted {kbID : String} {v : Nat} (hv : v ∈ (sm.apply now cmd).1.versionsByKB kbID) :
      v ∈ sm.versionsByKB kbID ∨ sm.nextVersionID ≤ v :=
    (listed_before hv).imp_right fun hnew => Nat.le_of_eq hnew.1.symm
  have hnext := next_le_apply h.wellFormed now cmd
  cases LogChange.apply h.wellFormed now cmd with
  | same hsame =>
    refine ⟨hsame.epoch, Nat.le_of_eq hsame.seq.symm, hnext, hlisted, fun e he _ => ?_,
      fun e he _ _ _ => ?_, fun e he hlt => ?_⟩
    · exact hsame.log ▸ he
    · exact hsame.log.symm ▸ he
    · exact absurd (h.le e (hsame.log ▸ he)) (Nat.not_le.mpr hlt)
  | appended kbID v hepoch hseq hlog hgone hlt =>
    refine ⟨hepoch, by omega, hnext, hlisted, fun e he hle => ?_, fun e he e' he' hle => ?_,
      fun e he hnew hzero u hu => ?_⟩
    · obtain hold | rfl := mem_of_suffix_append hlog he
      · exact hold
      · exact absurd hle (Nat.not_le.mpr (Nat.lt_succ_self _))
    · -- What the bound cut off is older than all that is left.
      obtain ⟨cut, hcut⟩ := hlog
      have hsplit : e ∈ cut ++ (sm.apply now cmd).1.deletedLog := by
        rw [hcut]
        exact mem_append_left _ he
      obtain hin | hin := mem_append.mp hsplit
      · have hpair := @LogSound.numbered_append sm h ⟨_, kbID, v⟩ rfl
        rw [← hcut] at hpair
        have hbelow := (pairwise_append.mp hpair).2.2 e hin e' he'
        omega
      · exact hin
    · obtain hold | rfl := mem_of_suffix_append hlog he
      · exact absurd (h.le e hold) (Nat.not_le.mpr hnew)
      · exact hgone u (.inl hzero)

lemma LogSound.apply (h : LogSound sm) (now : Int) (cmd : Command) :
    LogSound (sm.apply now cmd).1 := by
  have hgrows := Grows.apply h now cmd
  have hgone (e : DeletedVersion) (he : e ∈ sm.deletedLog) (hne : e.versionID ≠ 0) :
      e.versionID ∉ (sm.apply now cmd).1.versionsByKB e.kbID ∧
        e.versionID < (sm.apply now cmd).1.nextVersionID := by
    obtain ⟨hout, hlt⟩ := h.gone e he hne
    exact ⟨hgrows.not_mem hlt hout, Nat.lt_of_lt_of_le hlt hgrows.next⟩
  have hwf := h.wellFormed.apply now cmd
  have hasc := h.ascending.apply h.wellFormed now cmd
  cases LogChange.apply h.wellFormed now cmd with
  | same hsame =>
    refine ⟨hwf, hasc, hsame.log.symm ▸ h.numbered, fun e he => ?_, fun e he => ?_⟩
    · rw [hsame.seq]
      exact h.le e (hsame.log ▸ he)
    · exact hgone e (hsame.log ▸ he)
  | appended kbID v hepoch hseq hlog hout hlt =>
    refine ⟨hwf, hasc, (h.numbered_append rfl).sublist hlog.sublist, fun e he => ?_,
      fun e he hne => ?_⟩
    · rw [hseq]
      obtain hold | rfl := mem_of_suffix_append hlog he
      · exact Nat.le_succ_of_le (h.le e hold)
      · exact Nat.le_refl _
    · obtain hold | rfl := mem_of_suffix_append hlog he
      · exact hgone e hold hne
      · exact ⟨hout v (.inr rfl), hlt⟩

variable {states : List StateMachine}

/-- A version that one state knows to be deleted is gone from every state that has counted the
deletion, whether its log still names it or not. -/
lemma gone_of_logged (htotal : ∀ sm ∈ states, ∀ sm' ∈ states, Grows sm sm' ∨ Grows sm' sm)
    (hsound : ∀ sm ∈ states, LogSound sm) (hsm : sm ∈ states) (hview : view ∈ states)
    (he : e ∈ sm.deletedLog) (hle : e.seq ≤ view.deletedSeq)
    (hv : v ≠ 0 ∧ e.versionID = v ∨ e.versionID = 0 ∧ ∃ past ∈ states, past.deletedSeq < e.seq ∧ v
      ∈ past.versionsByKB e.kbID) : v ∉ view.versionsByKB e.kbID ∧ v < view.nextVersionID := by
  have hafter {sm' : StateMachine} (hsm' : sm' ∈ states) (he' : e ∈ sm'.deletedLog) :
      v ∉ sm'.versionsByKB e.kbID ∧ v < sm'.nextVersionID := by
    obtain ⟨hne, rfl⟩ | ⟨hzero, past, hpast, hlt, hlisted⟩ := hv
    · exact (hsound sm' hsm').gone e he' hne
    have hseq := (hsound sm' hsm').le e he'
    obtain hgrows | hback := htotal past hpast sm' hsm'
    · exact ⟨hgrows.emptied e he' hlt hzero v hlisted,
        Nat.lt_of_lt_of_le ((hsound past hpast).lt_next hlisted) hgrows.next⟩
    · have hpastSeq := hback.seq
      omega
  obtain hgrows | hback := htotal sm hsm view hview
  · obtain ⟨hout, hlt⟩ := hafter hsm he
    exact ⟨hgrows.not_mem hlt hout, Nat.lt_of_lt_of_le hlt hgrows.next⟩
  · exact hafter hview (hback.old e he hle)

lemma mem_take_of_le_getLast (hlog : log.Pairwise (·.seq < ·.seq)) {n : Nat} (he : e ∈ log)
    (hlast : (log.take n).getLast? = some last) (hle : e.seq ≤ last.seq) : e ∈ log.take n := by
  rw [← take_append_drop n log] at he hlog
  obtain hin | hout := mem_append.mp he
  · exact hin
  · have hlt := (pairwise_append.mp hlog).2.2 last (mem_of_getLast? hlast) e hout
    omega

/-- A read answers with the beginning of what the log has after its start. -/
lemma deletionsSince_entries (view : StateMachine) (after limit : Nat) :
    (view.deletionsSince after limit).entries <+:
      view.deletedLog.filter fun entry => (after : Int) < entry.seq := by
  unfold deletionsSince
  split
  · exact nil_prefix
  split
  · exact take_prefix _ _
  · exact prefix_rfl

lemma mem_log_of_mem_entries {after limit : Nat}
    (he : e ∈ (view.deletionsSince after limit).entries) : e ∈ view.deletedLog ∧ after < e.seq := by
  obtain ⟨hin, hlt⟩ := mem_filter.mp ((deletionsSince_entries view after limit).mem he)
  have hlt := of_decide_eq_true hlt
  exact ⟨hin, by omega⟩

/-- A read of the log that reaches back far enough has every deletion up to its last entry. -/
lemma mem_deletionsSince (htotal : ∀ sm ∈ states, ∀ sm' ∈ states, Grows sm sm' ∨ Grows sm' sm)
    (hsound : ∀ sm ∈ states, LogSound sm) (hsm : sm ∈ states) (hview : view ∈ states)
    (he : e ∈ sm.deletedLog) {after limit : Nat}
    (hold : (view.deletionsSince after limit).oldest ≤ after + 1)
    (hlast : (view.deletionsSince after limit).entries.getLast? = some last) (hlt : after < e.seq)
    (hle : e.seq ≤ last.seq) : e ∈ (view.deletionsSince after limit).entries := by
  have hin := (mem_log_of_mem_entries (mem_of_getLast? hlast)).1
  have hlog : e ∈ view.deletedLog := by
    obtain hgrows | hback := htotal sm hsm view hview
    · obtain ⟨first, rest, hlist⟩ := exists_cons_of_ne_nil (ne_nil_of_mem hin)
      refine hgrows.kept e he first (by rw [hlist]; exact mem_cons_self) ?_
      have hfirst : (view.deletionsSince after limit).oldest = first.seq := by
        simp [deletionsSince, hlist]
      omega
    · exact hback.old e he (Nat.le_trans hle ((hsound view hview).le last hin))
  have hfilter : e ∈ view.deletedLog.filter fun entry => (after : Int) < entry.seq :=
    mem_filter.mpr ⟨hlog, decide_eq_true (by omega)⟩
  rw [prefix_iff_eq_take.mp (deletionsSince_entries view after limit)] at hlast ⊢
  exact mem_take_of_le_getLast ((hsound view hview).numbered.filter _) hfilter hlast hle

end stratum.metadata
