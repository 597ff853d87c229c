import Stratum.Lib.Consensus.Completeness

namespace stratum.lib

open List

namespace History

variable {N E : Type} (termOf : E → Nat)

/-- One history continues another: terms and acknowledgements only grow, a leader's log
only grows by entries of its term, and a node acknowledges nothing to a leader it has
already left behind. -/
structure Extends (h h' : History N E) : Prop where
  term : ∀ u, h.term u ≤ h'.term u
  leaderLog : ∀ t m, h.leaderLog t = some m →
    ∃ x, h'.leaderLog t = some (m ++ x) ∧ ∀ e ∈ x, termOf e = t
  acked_le : ∀ u c, h.acked u c ≤ h'.acked u c
  acked_eq : ∀ u c, c < h.term u → h'.acked u c = h.acked u c

variable {termOf} {members : List N} {h h' : History N E}

lemma Extends.trans {h'' : History N E} (h₁ : Extends termOf h h') (h₂ : Extends termOf h' h'') :
    Extends termOf h h'' where
  term := fun u => le_trans (h₁.term u) (h₂.term u)
  leaderLog := fun t m hm => by
    obtain ⟨x, hx, hxterm⟩ := h₁.leaderLog t m hm
    obtain ⟨y, hy, hyterm⟩ := h₂.leaderLog t _ hx
    refine ⟨x ++ y, by rw [hy, append_assoc], fun e he => ?_⟩
    obtain he | he := mem_append.mp he
    · exact hxterm e he
    · exact hyterm e he
  acked_le := fun u c => le_trans (h₁.acked_le u c) (h₂.acked_le u c)
  acked_eq := fun u c hc => by
    rw [h₂.acked_eq u c (lt_of_lt_of_le hc (h₁.term u)), h₁.acked_eq u c hc]

/-- A continuation that touches neither leaders' logs nor acknowledgements. -/
lemma Extends.of_same (hterm : ∀ u, h.term u ≤ h'.term u) (hleader : h'.leaderLog = h.leaderLog)
    (hacked : h'.acked = h.acked) : Extends termOf h h' where
  term := hterm
  leaderLog := fun t m hm => ⟨[], by rw [hleader, hm, append_nil], by simp⟩
  acked_le := fun u c => by rw [hacked]
  acked_eq := fun u c _ => by rw [hacked]

lemma Sound.mono {l : List E} (hsound : h.Sound termOf l) (hext : Extends termOf h h') :
    h'.Sound termOf l := by
  intro k e he
  obtain ⟨m, hm, hshare⟩ := hsound k e he
  obtain ⟨x, hx, -⟩ := hext.leaderLog _ m hm
  exact ⟨m ++ x, hx, hshare.append_right x⟩

/-- A leader that misses an earlier leader's entry never gets it: what it appends is of
its own, later term. -/
lemma Lacks.mono (hinv : Inv termOf members h) {c n s : Nat} (hcs : c < s)
    (hlacks : h.Lacks c n s) (hext : Extends termOf h h') : h'.Lacks c n s := by
  obtain ⟨mc, ms, hmc, hms, hn, hmiss⟩ := hlacks
  obtain ⟨x, hx, -⟩ := hext.leaderLog c mc hmc
  obtain ⟨y, hy, hyterm⟩ := hext.leaderLog s ms hms
  refine ⟨mc ++ x, ms ++ y, hx, hy, by rw [length_append]; omega, fun hshare => hmiss ?_⟩
  have hmc' := hshare.of_append_right hn
  by_cases hlong : n ≤ ms.length
  · exact (hmc'.symm.of_append_right hlong).symm
  have hentry := hmc'.2 ms.length (by omega)
  have hlen := hmc'.1
  rw [length_append] at hlen
  obtain ⟨e, he⟩ : ∃ e, y[0]? = some e :=
    ⟨_, getElem?_eq_getElem (show 0 < y.length by omega)⟩
  rw [getElem?_append_right (Nat.le_refl _), Nat.sub_self, he] at hentry
  have hle := hinv.leader_le hmc hentry.symm
  have hown := hyterm e (mem_of_getElem? he)
  omega

lemma Keeps.mono (hinv : Inv termOf members h) {l : List E} {c n bound bound' : Nat}
    (hkeeps : h.Keeps l c n bound) (hext : Extends termOf h h') (hbound : bound ≤ bound') :
    h'.Keeps l c n bound' := by
  obtain ⟨m, hm, hshare⟩ | ⟨s, hcs, hs, hlacks⟩ := hkeeps
  · obtain ⟨x, hx, -⟩ := hext.leaderLog c m hm
    exact .inl ⟨m ++ x, hx, hshare.append_right x⟩
  · exact .inr ⟨s, hcs, by omega, hlacks.mono hinv hcs hext⟩

lemma VoteRecord.mono (hinv : Inv termOf members h) {v : N} {t : Nat} {p : List E}
    (hrecord : h.VoteRecord termOf v t p) (hext : Extends termOf h h') :
    h'.VoteRecord termOf v t p := by
  obtain ⟨hterm, l, hsound, hnewer, hkept⟩ := hrecord
  refine ⟨le_trans hterm (hext.term v), l, hsound.mono hext, hnewer, ?_⟩
  intro c n hct hn hacked
  rw [hext.acked_eq v c (by omega)] at hacked
  exact (hkept c n hct hn hacked).mono hinv hext (le_refl t)

lemma Chosen.mono {c n : Nat} {m : List E} (hchosen : h.Chosen termOf members c n m)
    (hext : Extends termOf h h') : ∃ x, h'.Chosen termOf members c n (m ++ x) := by
  obtain ⟨x, hx, -⟩ := hext.leaderLog c m hchosen.leader
  obtain ⟨e, he, hterm⟩ := hchosen.current
  obtain ⟨quorum, hmajority, hacked⟩ := hchosen.quorum
  refine ⟨x, hx, hchosen.pos, ⟨e, ?_, hterm⟩, quorum, hmajority, fun u hu => ?_⟩
  · rw [List.getElem?_append_left (List.getElem?_eq_some_iff.mp he).1, he]
  · exact le_trans (hacked u hu) (hext.acked_le u c)

lemma Committed.extend {t k : Nat} {l : List E} (hl : h.Committed termOf members t l k)
    (hext : Extends termOf h h') : h'.Committed termOf members t l k := by
  obtain ⟨c, n, m, hchosen, hct, hkn, hshare⟩ := hl
  obtain ⟨x, hx⟩ := hchosen.mono hext
  exact ⟨c, n, m ++ x, hx, hct, hkn, hshare.append_right x⟩

/-- The part of the invariant that a continuation carries over by itself. -/
lemma Inv.elected_mono (hinv : Inv termOf members h) (hext : Extends termOf h h') {t : Nat}
    {m : List E} (hm : h.leaderLog t = some m) {x : List E}
    (hx : ∀ e ∈ x, termOf e = t) : ∃ p, LeaderShape termOf p (m ++ x) t ∧
      ∃ quorum, Majority members quorum ∧ ∀ v ∈ quorum, h'.VoteRecord termOf v t p := by
  obtain ⟨p, hshape, quorum, hmajority, hrecord⟩ := hinv.elected t m hm
  refine ⟨p, ⟨?_, hshape.share.append_right x, hshape.before, ?_⟩, quorum, hmajority,
    fun v hv => (hrecord v hv).mono hinv hext⟩
  · have := hshape.longer
    rw [length_append]
    omega
  intro i e hi he
  by_cases hold : i < m.length
  · rw [getElem?_append_left hold] at he
    exact hshape.own i e hi he
  · rw [getElem?_append_right (by omega)] at he
    exact hx e (mem_of_getElem? he)

end History

end stratum.lib
