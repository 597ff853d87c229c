import Stratum.Lib.Consensus.Extension

namespace stratum.lib

open List Function

namespace History

variable {N E : Type} [DecidableEq N] {termOf : E → Nat} {members : List N} {h : History N E}

def setTerm (h : History N E) (u : N) (t : Nat) : History N E :=
  { h with term := update h.term u t }

/-- A node stands for election in a later term and votes for itself. -/
def stand (h : History N E) (u : N) (t : Nat) : History N E :=
  { h with
    term := update h.term u t
    votes := h.votes.record u t (some u)
    standing := update h.standing u (update (h.standing u) t (h.log u)) }

def vote (h : History N E) (v c : N) : History N E :=
  { h with votes := h.votes.record v (h.term v) (some c) }

/-- The leader of a term has a first or a longer log. -/
def setLeaderLog (h : History N E) (t : Nat) (m : List E) : History N E :=
  { h with leaderLog := update h.leaderLog t (some m) }

/-- A node has another log, and has acknowledged `a` entries to the leader of its term. -/
def setLog (h : History N E) (u : N) (l : List E) (a : Nat) : History N E :=
  { h with
    log := update h.log u l
    acked := update h.acked u (update (h.acked u) (h.term u) a) }

lemma setTerm_extends {u : N} {t : Nat} (ht : h.term u ≤ t) : Extends termOf h (h.setTerm u t) := by
  refine .of_same (fun v => ?_) rfl rfl
  by_cases hv : v = u
  · subst hv
    simpa [setTerm] using ht
  · simp [setTerm, hv]

lemma stand_extends {u : N} {t : Nat} (ht : h.term u ≤ t) : Extends termOf h (h.stand u t) := by
  refine .of_same (fun v => ?_) rfl rfl
  by_cases hv : v = u
  · subst hv
    simpa [stand] using ht
  · simp [stand, hv]

lemma vote_extends {v c : N} : Extends termOf h (h.vote v c) :=
  .of_same (fun _ => le_rfl) rfl rfl

lemma setLog_extends {u : N} {l : List E} {a : Nat} (ha : h.acked u (h.term u) ≤ a) :
    Extends termOf h (h.setLog u l a) where
  term := fun _ => le_rfl
  leaderLog := fun t m hm => ⟨[], by rw [append_nil]; exact hm, by simp⟩
  acked_le := fun v c => by
    by_cases hv : v = u
    · subst hv
      by_cases hc : c = h.term v
      · subst hc
        simpa [setLog] using ha
      · simp [setLog, hc]
    · simp [setLog, hv]
  acked_eq := fun v c hc => by
    by_cases hv : v = u
    · subst hv
      simp [setLog, show c ≠ h.term v by omega]
    · simp [setLog, hv]

omit [DecidableEq N] in
lemma setLeaderLog_extends {t : Nat} {m : List E}
    (hm : ∀ m₀, h.leaderLog t = some m₀ → ∃ x, m = m₀ ++ x ∧ ∀ e ∈ x, termOf e = t) :
    Extends termOf h (h.setLeaderLog t m) where
  term := fun _ => le_rfl
  leaderLog := fun s ms hms => by
    by_cases hs : s = t
    · subst hs
      obtain ⟨x, rfl, hx⟩ := hm ms hms
      exact ⟨x, by simp [setLeaderLog], hx⟩
    · exact ⟨[], by simp [setLeaderLog, hs, hms], by simp⟩
  acked_le := fun _ _ => le_rfl
  acked_eq := fun _ _ _ => rfl

section

variable (hinv : Inv termOf members h)

include hinv

lemma Inv.setTerm {u : N} {t : Nat} (ht : h.term u ≤ t) : Inv termOf members (h.setTerm u t) := by
  have hext : Extends termOf h (h.setTerm u t) := setTerm_extends ht
  refine ⟨fun v => (hinv.sound v).mono hext, fun s m hm => (hinv.soundLeader s m hm).mono hext,
    fun v s => (hinv.soundStanding v s).mono hext, fun v e he => ?_, hinv.standingTerm,
    hinv.leaderPos, fun s m hm => ?_, fun v c n hn ha => ?_, fun v s c hvoted => ?_⟩
  · exact le_trans (hinv.logTerm v e he) (hext.term v)
  · simpa using hinv.elected_mono hext hm (x := []) (by simp)
  · obtain ⟨hc, hlog, hkeeps⟩ := hinv.acked v c n hn ha
    have hterm := hext.term v
    exact ⟨by omega, hlog, hkeeps.mono hinv hext (by omega)⟩
  · obtain ⟨hc, hv, hrecord⟩ := hinv.voted v s c hvoted
    exact ⟨le_trans hc (hext.term c), le_trans hv (hext.term v),
      fun hnone => (hrecord hnone).mono hinv hext⟩

/-- The log a node stands with is recorded before anybody can vote for it there. -/
lemma Inv.stand {u : N} {t : Nat} (ht : h.term u < t) : Inv termOf members (h.stand u t) := by
  have hext : Extends termOf h (h.stand u t) := stand_extends (by omega)
  have hstanding : ∀ c s, (c = u ∧ s = t) ∧ (h.stand u t).standing c s = h.log u ∨
      ¬ (c = u ∧ s = t) ∧ (h.stand u t).standing c s = h.standing c s := by
    intro c s
    by_cases hcs : c = u ∧ s = t
    · obtain ⟨rfl, rfl⟩ := hcs
      exact .inl ⟨⟨rfl, rfl⟩, by simp [History.stand]⟩
    refine .inr ⟨hcs, ?_⟩
    by_cases hc : c = u
    · subst hc
      have hs : s ≠ t := fun hs => hcs ⟨rfl, hs⟩
      simp [History.stand, hs]
    · simp [History.stand, hc]
  refine ⟨fun v => (hinv.sound v).mono hext, fun s m hm => (hinv.soundLeader s m hm).mono hext,
    fun c s => ?_, fun v e he => ?_, fun c s e he => ?_, hinv.leaderPos, fun s m hm => ?_,
    fun v c n hn ha => ?_, fun v s c hvoted => ?_⟩
  · obtain ⟨-, heq⟩ | ⟨-, heq⟩ := hstanding c s
    · rw [heq]
      exact (hinv.sound u).mono hext
    · rw [heq]
      exact (hinv.soundStanding c s).mono hext
  · exact le_trans (hinv.logTerm v e he) (hext.term v)
  · obtain ⟨⟨-, rfl⟩, heq⟩ | ⟨-, heq⟩ := hstanding c s
    · rw [heq] at he
      exact lt_of_le_of_lt (hinv.logTerm u e he) ht
    · rw [heq] at he
      exact hinv.standingTerm c s e he
  · simpa using hinv.elected_mono hext hm (x := []) (by simp)
  · obtain ⟨hc, hlog, hkeeps⟩ := hinv.acked v c n hn ha
    have hterm := hext.term v
    exact ⟨by omega, hlog, hkeeps.mono hinv hext (by omega)⟩
  by_cases hself : v = u ∧ s = t
  · obtain ⟨rfl, rfl⟩ := hself
    have hcv : c = v := by simpa [History.stand] using hvoted.symm
    subst hcv
    have hterm : (h.stand c s).term c = s := by simp [History.stand]
    refine ⟨le_of_eq hterm.symm, le_of_eq hterm.symm, fun _ => ?_⟩
    obtain ⟨-, heq⟩ | ⟨hother, -⟩ := hstanding c s
    · rw [heq]
      refine ⟨le_of_eq hterm.symm, h.log c, (hinv.sound c).mono hext,
        .inr ⟨rfl, le_rfl⟩, fun c' n _ hn ha => ?_⟩
      exact (hinv.acked c c' n hn ha).2.2.mono hinv hext (by omega)
    · exact absurd ⟨rfl, rfl⟩ hother
  have hold : h.votes v s = some c := by
    by_cases hv : v = u
    · subst hv
      have hs : s ≠ t := fun hs => hself ⟨rfl, hs⟩
      simpa [History.stand, Votes.record_of_ne_term hs] using hvoted
    · simpa [History.stand, Votes.record_of_ne hv] using hvoted
  obtain ⟨hc, hv, hrecord⟩ := hinv.voted v s c hold
  refine ⟨le_trans hc (hext.term c), le_trans hv (hext.term v), fun hnone => ?_⟩
  obtain ⟨⟨rfl, rfl⟩, -⟩ | ⟨-, heq⟩ := hstanding c s
  · omega
  · rw [heq]
    exact (hrecord hnone).mono hinv hext

lemma Inv.vote {v c : N} (hc : h.term v ≤ h.term c)
    (hnewer : UpToDate termOf (h.standing c (h.term v)) (h.log v)) :
    Inv termOf members (h.vote v c) := by
  have hext : Extends termOf h (h.vote v c) := vote_extends
  refine ⟨fun u => (hinv.sound u).mono hext, fun s m hm => (hinv.soundLeader s m hm).mono hext,
    fun u s => (hinv.soundStanding u s).mono hext, hinv.logTerm, hinv.standingTerm,
    hinv.leaderPos, fun s m hm => ?_, fun u c n hn ha => ?_, fun u s c' hvoted => ?_⟩
  · simpa using hinv.elected_mono hext hm (x := []) (by simp)
  · obtain ⟨hc, hlog, hkeeps⟩ := hinv.acked u c n hn ha
    exact ⟨hc, hlog, hkeeps.mono hinv hext le_rfl⟩
  by_cases hself : u = v ∧ s = h.term v
  · obtain ⟨rfl, rfl⟩ := hself
    have hcc : c' = c := by simpa [History.vote] using hvoted.symm
    subst hcc
    refine ⟨hc, le_rfl, fun hnone => ⟨le_rfl, h.log u, (hinv.sound u).mono hext,
      hnewer, fun c n hct hn ha => ?_⟩⟩
    obtain hshare | ⟨s, hcs, hs, hlacks⟩ := (hinv.acked u c n hn ha).2.2
    · exact Keeps.mono hinv (.inl hshare) hext le_rfl
    obtain ⟨mc, ms, hmc, hms, -⟩ := id hlacks
    have hne : s ≠ h.term u := by
      rintro rfl
      rw [show h.leaderLog (h.term u) = none from hnone] at hms
      cases hms
    exact Keeps.mono hinv (.inr ⟨s, hcs, by omega, hlacks⟩) hext le_rfl
  · have hold : h.votes u s = some c' := by
      by_cases hu : u = v
      · subst hu
        have hs : s ≠ h.term u := fun hs => hself ⟨rfl, hs⟩
        simpa [History.vote, Votes.record_of_ne_term hs] using hvoted
      · simpa [History.vote, Votes.record_of_ne hu] using hvoted
    obtain ⟨hc', hu, hrecord⟩ := hinv.voted u s c' hold
    exact ⟨hc', hu, fun hnone => (hrecord hnone).mono hinv hext⟩

omit [DecidableEq N] in
/-- The parts of the invariant that do not mention the log of term `t`'s leader carry
over to a history in which that leader has the log `m`. -/
lemma Inv.setLeaderLog {t : Nat} {m : List E} (ht : 0 < t)
    (hext : Extends termOf h (h.setLeaderLog t m))
    (hsound : (h.setLeaderLog t m).Sound termOf m)
    (helected : ∃ p, LeaderShape termOf p m t ∧ ∃ quorum, Majority members quorum ∧
      ∀ v ∈ quorum, (h.setLeaderLog t m).VoteRecord termOf v t p) :
    Inv termOf members (h.setLeaderLog t m) := by
  have hother : ∀ s ms, s ≠ t → (h.setLeaderLog t m).leaderLog s = some ms →
      h.leaderLog s = some ms := by
    intro s ms hs hms
    simpa [History.setLeaderLog, hs] using hms
  have hself : ∀ ms, (h.setLeaderLog t m).leaderLog t = some ms → ms = m := by
    intro ms hms
    simpa [History.setLeaderLog] using hms.symm
  refine ⟨fun v => (hinv.sound v).mono hext, fun s ms hms => ?_,
    fun u s => (hinv.soundStanding u s).mono hext, hinv.logTerm, hinv.standingTerm,
    fun s ms hms => ?_, fun s ms hms => ?_, fun u c n hn ha => ?_, fun v s c hvoted => ?_⟩
  · by_cases hs : s = t
    · subst hs
      rw [hself ms hms]
      exact hsound
    · exact (hinv.soundLeader s ms (hother s ms hs hms)).mono hext
  · by_cases hs : s = t
    · exact hs ▸ ht
    · exact hinv.leaderPos s ms (hother s ms hs hms)
  · by_cases hs : s = t
    · subst hs
      rw [hself ms hms]
      exact helected
    · simpa using hinv.elected_mono hext (hother s ms hs hms) (x := []) (by simp)
  · obtain ⟨hc, ⟨mc, hmc, hlen⟩, hkeeps⟩ := hinv.acked u c n hn ha
    obtain ⟨x, hx, -⟩ := hext.leaderLog c mc hmc
    exact ⟨hc, ⟨mc ++ x, hx, by rw [length_append]; omega⟩, hkeeps.mono hinv hext le_rfl⟩
  obtain ⟨hc, hv, hrecord⟩ := hinv.voted v s c hvoted
  refine ⟨hc, hv, fun hnone => (hrecord ?_).mono hinv hext⟩
  cases hs : h.leaderLog s with
  | none => rfl
  | some ms =>
    obtain ⟨x, hx, -⟩ := hext.leaderLog s ms hs
    rw [hx] at hnone
    cases hnone

omit [DecidableEq N] in
/-- A candidate with a majority leads with the log it stood with and one entry more. -/
lemma Inv.newLeader {c : N} {t : Nat} {e : E} (ht : 0 < t)
    (hfirst : h.leaderLog t = none) (hwon : h.votes.Won members c t) (he : termOf e = t) :
    Inv termOf members (h.setLeaderLog t (h.standing c t ++ [e])) ∧
      Extends termOf h (h.setLeaderLog t (h.standing c t ++ [e])) := by
  have hext : Extends termOf h (h.setLeaderLog t (h.standing c t ++ [e])) := by
    refine setLeaderLog_extends fun m₀ hm₀ => ?_
    rw [hfirst] at hm₀
    cases hm₀
  refine ⟨hinv.setLeaderLog ht hext ?_ ?_, hext⟩
  · intro k f hf
    by_cases hk : k < (h.standing c t).length
    · rw [getElem?_append_left hk] at hf
      obtain ⟨m, hm, hshare⟩ := (hinv.soundStanding c t).mono hext k f hf
      exact ⟨m, hm, hshare.append_left [e]⟩
    have hlen := (List.getElem?_eq_some_iff.mp hf).1
    rw [List.getElem?_append_right (by omega)] at hf
    have hfe := mem_of_getElem? hf
    rw [mem_singleton] at hfe
    subst hfe
    exact ⟨_, by simp [History.setLeaderLog, he], .refl (by omega)⟩
  · obtain ⟨quorum, hmajority, hvoted⟩ := hwon
    refine ⟨h.standing c t, ⟨by simp, .append_right (.refl le_rfl) [e],
      hinv.standingTerm c t, ?_⟩, quorum, hmajority, fun v hv => ?_⟩
    · intro i f hi hf
      rw [List.getElem?_append_right hi] at hf
      have hfe := mem_of_getElem? hf
      rw [mem_singleton] at hfe
      rw [hfe, he]
    · exact ((hinv.voted v t c (hvoted v hv)).2.2 hfirst).mono hinv hext

omit [DecidableEq N] in
lemma Inv.growLeader {t : Nat} {m : List E} {e : E}
    (hm : h.leaderLog t = some m) (he : termOf e = t) :
    Inv termOf members (h.setLeaderLog t (m ++ [e])) ∧
      Extends termOf h (h.setLeaderLog t (m ++ [e])) := by
  have hnew : ∀ f ∈ [e], termOf f = t := by
    intro f hf
    rw [mem_singleton] at hf
    rw [hf, he]
  have hext : Extends termOf h (h.setLeaderLog t (m ++ [e])) := by
    refine setLeaderLog_extends fun m₀ hm₀ => ?_
    rw [hm] at hm₀
    cases hm₀
    exact ⟨[e], rfl, hnew⟩
  refine ⟨hinv.setLeaderLog (hinv.leaderPos t m hm) hext ?_ (hinv.elected_mono hext hm hnew), hext⟩
  intro k f hf
  by_cases hk : k < m.length
  · rw [getElem?_append_left hk] at hf
    obtain ⟨ms, hms, hshare⟩ := (hinv.soundLeader t m hm).mono hext k f hf
    exact ⟨ms, hms, hshare.append_left [e]⟩
  have hlen := (List.getElem?_eq_some_iff.mp hf).1
  rw [List.getElem?_append_right (by omega)] at hf
  rw [hnew f (mem_of_getElem? hf)]
  exact ⟨_, by simp [History.setLeaderLog], .refl (by omega)⟩

end

end History

end stratum.lib
