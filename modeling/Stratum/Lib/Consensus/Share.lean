import Mathlib.Data.List.Basic

namespace stratum.lib

open List

variable {E : Type}

/-- Two logs hold the same first `k` entries, both being at least that long. -/
def Share (l m : List E) (k : Nat) : Prop :=
  k ≤ l.length ∧ ∀ i < k, l[i]? = m[i]?

namespace Share

variable {l m r : List E} {j k : Nat}

lemma refl (hk : k ≤ l.length) : Share l l k := ⟨hk, fun _ _ => rfl⟩

lemma zero (l m : List E) : Share l m 0 :=
  ⟨Nat.zero_le _, fun _ hi => absurd hi (Nat.not_lt_zero _)⟩

lemma length_le_right (h : Share l m k) : k ≤ m.length := by
  obtain ⟨hk, hsame⟩ := h
  by_contra hlt
  have hi : m.length < k := by omega
  have hnone : m[m.length]? = none := getElem?_eq_none (Nat.le_refl _)
  rw [← hsame _ hi, getElem?_eq_none_iff] at hnone
  omega

lemma symm (h : Share l m k) : Share m l k :=
  ⟨h.length_le_right, fun i hi => (h.2 i hi).symm⟩

lemma trans (h₁ : Share l m k) (h₂ : Share m r k) : Share l r k :=
  ⟨h₁.1, fun i hi => (h₁.2 i hi).trans (h₂.2 i hi)⟩

lemma mono (h : Share l m k) (hj : j ≤ k) : Share l m j :=
  ⟨Nat.le_trans hj h.1, fun i hi => h.2 i (by omega)⟩

lemma append_right (h : Share l m k) (x : List E) : Share l (m ++ x) k := by
  refine ⟨h.1, fun i hi => ?_⟩
  have hm := h.length_le_right
  rw [h.2 i hi, getElem?_append_left (by omega)]

lemma append_left (h : Share l m k) (x : List E) : Share (l ++ x) m k :=
  (h.symm.append_right x).symm

lemma of_append_right {x : List E} (h : Share l (m ++ x) k) (hk : k ≤ m.length) : Share l m k := by
  refine ⟨h.1, fun i hi => ?_⟩
  rw [h.2 i hi, getElem?_append_left (by omega)]

lemma take_left (hk : k ≤ j) (hm : k ≤ m.length) : Share (m.take j) m k := by
  refine ⟨by simp only [length_take]; omega, fun i hi => ?_⟩
  rw [getElem?_take_of_lt (by omega)]

lemma eq_of_length (h : Share l m k) (hl : l.length = k) (hm : m.length = k) : l = m := by
  apply ext_getElem?
  intro i
  by_cases hi : i < k
  · exact h.2 i hi
  · rw [getElem?_eq_none (by omega), getElem?_eq_none (by omega)]

lemma take_eq (h : Share l m k) : l.take k = m.take k := by
  have hl := h.1
  have hm := h.length_le_right
  refine eq_of_length (k := k) ⟨?_, fun i hi => ?_⟩ ?_ ?_
  · simp only [length_take]
    omega
  · rw [getElem?_take_of_lt hi, getElem?_take_of_lt hi, h.2 i hi]
  · simp only [length_take]
    omega
  · simp only [length_take]
    omega

/-- A log cut to `j` entries of `m` keeps what it shared with a third log that `m` shares
too, if it was no longer than that or disagreed with `m` before the cut. -/
lemma le_of_cut {n : Nat} (hl : Share l r n) (hm : Share m r n)
    (hcut : l.length ≤ j ∨ ∃ i, i < j ∧ i < l.length ∧ l[i]? ≠ m[i]?) : n ≤ j := by
  obtain hshort | ⟨i, hij, -, hconflict⟩ := hcut
  · exact Nat.le_trans hl.1 hshort
  · by_contra hnj
    exact hconflict ((hl.2 i (by omega)).trans (hm.2 i (by omega)).symm)

end Share

end stratum.lib
