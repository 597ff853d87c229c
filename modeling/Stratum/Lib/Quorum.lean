import Mathlib.Data.List.Duplicate
import Mathlib.Data.Finset.Card

namespace stratum.lib

open Function

variable {N : Type} [DecidableEq N]

/-- A set of members, listed without repetition, that is more than half of all. -/
structure Majority (members quorum : List N) : Prop where
  nodup : quorum.Nodup
  subset : ∀ v ∈ quorum, v ∈ members
  half_lt : members.length / 2 < quorum.length

variable {members : List N} {t : Nat} {c : Option N} {u : N}

/-- Two majorities of the same members share one. -/
lemma Majority.inter {q₁ q₂ : List N} (h₁ : Majority members q₁) (h₂ : Majority members q₂) :
    ∃ v ∈ q₁, v ∈ q₂ := by
  by_contra hdisjoint
  have hdisj : List.Disjoint q₁ q₂ := fun v hv₁ hv₂ => hdisjoint ⟨v, hv₁, hv₂⟩
  have hnodup : (q₁ ++ q₂).Nodup := h₁.nodup.append h₂.nodup hdisj
  have hsubset : (q₁ ++ q₂) ⊆ members := by
    intro v hv
    rcases List.mem_append.mp hv with hv | hv
    · exact h₁.subset v hv
    · exact h₂.subset v hv
  have hlength := (List.subperm_of_subset hnodup hsubset).length_le
  have hhalf₁ := h₁.half_lt
  have hhalf₂ := h₂.half_lt
  rw [List.length_append] at hlength
  omega

/-- Who voted for whom in which term, once and for all. -/
abbrev Votes (N : Type) := N → Nat → Option N

namespace Votes

variable {votes votes' : Votes N}

/-- No vote that was cast is taken back or changed. -/
def Extends (votes' votes : Votes N) : Prop :=
  ∀ v t c, votes v t = some c → votes' v t = some c

/-- A majority voted for the candidate in the term. -/
def Won (members : List N) (votes : Votes N) (c : N) (t : Nat) : Prop :=
  ∃ quorum, Majority members quorum ∧ ∀ v ∈ quorum, votes v t = some c

omit [DecidableEq N] in
lemma Won.mono {c : N} (hwon : Won members votes c t) (hext : Extends votes' votes) :
    Won members votes' c t := by
  obtain ⟨quorum, hmajority, hvoted⟩ := hwon
  exact ⟨quorum, hmajority, fun v hv => hext v t c (hvoted v hv)⟩

/-- At most one candidate wins a term: the two majorities share a voter. -/
lemma Won.unique {c₁ c₂ : N} (h₁ : Won members votes c₁ t) (h₂ : Won members votes c₂ t) :
    c₁ = c₂ := by
  obtain ⟨q₁, hmajority₁, hvoted₁⟩ := h₁
  obtain ⟨q₂, hmajority₂, hvoted₂⟩ := h₂
  obtain ⟨v, hv₁, hv₂⟩ := hmajority₁.inter hmajority₂
  have hsame := (hvoted₁ v hv₁).symm.trans (hvoted₂ v hv₂)
  exact Option.some.inj hsame

/-- The ledger after a voter's vote of one term was written down. -/
def record (votes : Votes N) (u : N) (t : Nat) (c : Option N) : Votes N :=
  update votes u (update (votes u) t c)

@[simp] lemma record_self (u : N) (t : Nat) (c : Option N) : votes.record u t c u t = c := by
  simp [record]

lemma record_of_ne_term {v : N} {t' : Nat} (hterm : t' ≠ t) :
    votes.record u t c v t' = votes v t' := by
  by_cases hv : v = u
  · subst hv
    simp [record, hterm]
  · simp [record, hv]

lemma record_of_ne {v : N} {t' : Nat} (hv : v ≠ u) : votes.record u t c v t' = votes v t' := by
  simp [record, hv]

lemma record_eq_self (hslot : votes u t = c) : votes.record u t c = votes := by
  rw [record, ← hslot, update_eq_self, update_eq_self]

/-- Writing down a vote extends the ledger when the slot was free or already held it. -/
lemma record_extends (hslot : votes u t = none ∨ votes u t = c) :
    Extends (votes.record u t c) votes := by
  intro v t' c' hvoted
  by_cases hterm : t' = t
  · subst hterm
    by_cases hv : v = u
    · subst hv
      rw [record_self]
      rcases hslot with hfree | hheld
      · rw [hfree] at hvoted
        cases hvoted
      · rw [← hheld, hvoted]
    · rw [record_of_ne hv, hvoted]
  · rw [record_of_ne_term hterm, hvoted]

end Votes

end stratum.lib
