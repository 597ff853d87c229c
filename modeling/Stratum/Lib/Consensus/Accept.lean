import Stratum.Lib.Consensus.Steps

namespace stratum.lib

open List

namespace History

variable {N E : Type} [DecidableEq N] {termOf : E → Nat} {members : List N} {h : History N E}
  (hinv : Inv termOf members h)

include hinv

variable {u : N}

/-- A node may replace its log by one that keeps every acknowledged entry some later
leader does not miss, and acknowledge what the new log shares with its term's leader. -/
lemma Inv.setLog {l : List E} {a : Nat} (ha : h.acked u (h.term u) ≤ a) (hsound : h.Sound termOf l)
    (hterm : ∀ e ∈ l, termOf e ≤ h.term u)
    (hkeep : ∀ c n, 0 < n → n ≤ h.acked u c → h.Keeps l c n (h.term u + 1))
    (hnew : ∀ n, 0 < n → n ≤ a → ∃ m, h.leaderLog (h.term u) = some m ∧ Share l m n) :
    Inv termOf members (h.setLog u l a) := by
  have hext : Extends termOf h (h.setLog u l a) := setLog_extends ha
  have hlog : ∀ v, v = u ∧ (h.setLog u l a).log v = l ∨
      v ≠ u ∧ (h.setLog u l a).log v = h.log v := by
    intro v
    by_cases hv : v = u
    · subst hv
      exact .inl ⟨rfl, by simp [History.setLog]⟩
    · exact .inr ⟨hv, by simp [History.setLog, hv]⟩
  refine ⟨fun v => ?_, fun s m hm => (hinv.soundLeader s m hm).mono hext,
    fun v s => (hinv.soundStanding v s).mono hext, fun v e he => ?_, hinv.standingTerm,
    hinv.leaderPos, fun s m hm => ?_, fun v c n hn hacked => ?_, fun v s c hvoted => ?_⟩
  · obtain ⟨-, heq⟩ | ⟨-, heq⟩ := hlog v
    · rw [heq]
      exact hsound.mono hext
    · rw [heq]
      exact (hinv.sound v).mono hext
  · obtain ⟨rfl, heq⟩ | ⟨-, heq⟩ := hlog v
    · rw [heq] at he
      exact hterm e he
    · rw [heq] at he
      exact hinv.logTerm v e he
  · simpa using hinv.elected_mono hext hm (x := []) (by simp)
  · obtain ⟨rfl, heq⟩ | ⟨hv, heq⟩ := hlog v
    · rw [heq]
      by_cases hc : c = h.term v
      · subst hc
        have hna : n ≤ a := by simpa [History.setLog] using hacked
        obtain ⟨m, hm, hshare⟩ := hnew n hn hna
        exact ⟨le_rfl, ⟨m, hm, hshare.length_le_right⟩, .inl ⟨m, hm, hshare⟩⟩
      · have hold : n ≤ h.acked v c := by simpa [History.setLog, hc] using hacked
        obtain ⟨hcv, hlen, -⟩ := hinv.acked v c n hn hold
        exact ⟨hcv, hlen, (hkeep c n hn hold).mono hinv hext le_rfl⟩
    · rw [heq]
      have hold : n ≤ h.acked v c := by simpa [History.setLog, hv] using hacked
      obtain ⟨hcv, hlen, hkeeps⟩ := hinv.acked v c n hn hold
      exact ⟨hcv, hlen, hkeeps.mono hinv hext le_rfl⟩
  · obtain ⟨hc, hv, hrecord⟩ := hinv.voted v s c hvoted
    exact ⟨hc, hv, fun hnone => (hrecord hnone).mono hinv hext⟩

omit [DecidableEq N] in
/-- The start of a leader's log is a sound log of entries no later than its term. -/
lemma Inv.sound_take {t : Nat} {m : List E} (j : Nat)
    (hm : h.leaderLog t = some m) : h.Sound termOf (m.take j) ∧ ∀ e ∈ m.take j, termOf e ≤ t := by
  refine ⟨fun k e he => ?_, fun e he => ?_⟩
  · have hlen := (List.getElem?_eq_some_iff.mp he).1
    rw [List.length_take] at hlen
    rw [getElem?_take_of_lt (by omega)] at he
    obtain ⟨ms, hms, hshare⟩ := hinv.soundLeader t m hm k e he
    exact ⟨ms, hms, (Share.take_left (by omega) (by omega)).trans hshare⟩
  · obtain ⟨k, he⟩ := getElem?_of_mem (mem_of_mem_take he)
    exact hinv.leader_le hm he

omit [DecidableEq N] in
lemma Inv.acked_share {u : N} {m : List E} {n : Nat}
    (hm : h.leaderLog (h.term u) = some m) (hn : 0 < n) (hacked : n ≤ h.acked u (h.term u)) :
    Share (h.log u) m n := by
  obtain ⟨-, -, ⟨m', hm', hshare⟩ | ⟨s, hlt, hle, -⟩⟩ := hinv.acked u _ n hn hacked
  · rw [hm] at hm'
    cases hm'
    exact hshare
  · omega

/-- A node that already holds the first `j` entries of its leader acknowledges them. -/
lemma Inv.acknowledge {m : List E} {j : Nat} (hm : h.leaderLog (h.term u) = some m)
    (hshare : Share (h.log u) m j) :
    Inv termOf members (h.setLog u (h.log u) (max (h.acked u (h.term u)) j)) := by
  refine hinv.setLog (le_max_left _ _) (hinv.sound u) (hinv.logTerm u)
    (fun c n hn ha => (hinv.acked u c n hn ha).2.2) fun n hn hna => ⟨m, hm, ?_⟩
  by_cases hj : n ≤ j
  · exact hshare.mono hj
  · exact hinv.acked_share hm hn (by omega)

/-- A node takes over the first `j` entries of its leader, dropping everything after them.
It loses nothing it acknowledged if its log was no longer than that, or if one of the
entries it held among them was not the leader's. -/
lemma Inv.accept {m : List E} {j : Nat} (hm : h.leaderLog (h.term u) = some m) (hj : j ≤ m.length)
    (hcut : (h.log u).length ≤ j ∨ ∃ k, k < j ∧ k < (h.log u).length ∧ (h.log u)[k]? ≠ m[k]?) :
    Inv termOf members (h.setLog u (m.take j) (max (h.acked u (h.term u)) j)) := by
  obtain ⟨hsound, hterm⟩ := hinv.sound_take j hm
  have hown : ∀ n, 0 < n → n ≤ h.acked u (h.term u) → n ≤ j := by
    intro n hn ha
    have hshare := hinv.acked_share hm hn ha
    exact hshare.le_of_cut (.refl hshare.length_le_right) hcut
  refine hinv.setLog (le_max_left _ _) hsound hterm (fun c n hn ha => ?_) fun n hn hna => ?_
  · obtain ⟨hcu, ⟨mc, hmc, hlen⟩, ⟨mc', hmc', hshare⟩ | hlater⟩ := hinv.acked u c n hn ha
    · rw [hmc] at hmc'
      cases hmc'
      by_cases hhas : Share m mc n
      · have hnj := hshare.le_of_cut hhas hcut
        exact .inl ⟨mc, hmc, (Share.take_left hnj hhas.1).trans hhas⟩
      refine .inr ⟨h.term u, ?_, Nat.lt_succ_self _, mc, m, hmc, hm, hlen, hhas⟩
      obtain hlt | rfl := lt_or_eq_of_le hcu
      · exact hlt
      rw [hm] at hmc
      cases hmc
      exact absurd (.refl hlen) hhas
    · exact .inr hlater
  · have hnj : n ≤ j := by
      by_cases ha : n ≤ h.acked u (h.term u)
      · exact hown n hn ha
      · omega
    exact ⟨m, hm, .take_left hnj (by omega)⟩

/-- A node whose log is shorter than a committed stretch of an earlier or the current
leader's log may take that stretch over. -/
lemma Inv.restore {t i : Nat} {m : List E} (ht : t ≤ h.term u) (hm : h.leaderLog t = some m)
    (hshort : (h.log u).length < i) (hcommitted : h.Committed termOf members t m i) :
    Inv termOf members (h.setLog u (m.take i) (h.acked u (h.term u))) := by
  obtain ⟨hsound, hterm⟩ := hinv.sound_take i hm
  have hi := hcommitted.le_length
  have hkeep : ∀ c n, 0 < n → n ≤ h.acked u c → h.Keeps (m.take i) c n (h.term u + 1) := by
    intro c n hn ha
    obtain ⟨hcu, ⟨mc, hmc, hlen⟩, ⟨mc', hmc', hshare⟩ | hlater⟩ := hinv.acked u c n hn ha
    · rw [hmc] at hmc'
      cases hmc'
      have hnlog := hshare.1
      by_cases hhas : Share m mc n
      · exact .inl ⟨mc, hmc, (Share.take_left (by omega) (by omega)).trans hhas⟩
      refine .inr ⟨t, ?_, by omega, mc, m, hmc, hm, hlen, hhas⟩
      by_contra hle
      exact hhas ((hcommitted.share_leader hinv (by omega) hmc).mono (by omega))
    · exact .inr hlater
  refine hinv.setLog le_rfl hsound (fun e he => le_trans (hterm e he) ht) hkeep ?_
  intro n hn ha
  obtain ⟨m', hm', hshare⟩ | ⟨s, hlt, hle, -⟩ := hkeep _ n hn ha
  · exact ⟨m', hm', hshare⟩
  · omega

end History

end stratum.lib
