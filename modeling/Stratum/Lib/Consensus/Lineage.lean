import Mathlib.Data.List.Basic

namespace stratum.lib

open List

/-- What is on record of the entry made at an index in a term: the term of the entry it was
put behind, and its payload. -/
abbrev Lineage (D : Type) := Nat → Nat → Option (Nat × D)

namespace Lineage

variable {E D : Type} (termOf : E → Nat) (dataOf : E → D)

/-- The term in front of offset `k` of a stretch that stands behind an entry of term `t`. -/
def termBefore (t : Nat) (es : List E) (k : Nat) : Nat := ((es.take k).getLast?.map termOf).getD t

/-- A stretch behind index `start` and term `t` whose entries are all on record, each behind
the term it stands behind here. -/
def Chained (lineage : Lineage D) (start t : Nat) (es : List E) : Prop :=
  ∀ k e, es[k]? = some e →
    lineage (start + k + 1) (termOf e) = some (termBefore termOf t es k, dataOf e)

/-- Nothing on record is taken back. -/
def Extends (lineage' lineage : Lineage D) : Prop :=
  ∀ i t x, lineage i t = some x → lineage' i t = some x

def record (lineage : Lineage D) (i t before : Nat) (data : D) : Lineage D :=
  Function.update lineage i (Function.update (lineage i) t (some (before, data)))

variable {termOf dataOf} {lineage lineage' : Lineage D} {start t : Nat} {es fs : List E}

lemma Extends.refl (lineage : Lineage D) : Extends lineage lineage := fun _ _ _ hx => hx

lemma record_extends {i t before : Nat} {data : D} (hfresh : lineage i t = none) :
    Extends (lineage.record i t before data) lineage := by
  intro j s x hx
  by_cases hj : j = i
  · subst hj
    have hs : s ≠ t := by
      rintro rfl
      rw [hfresh] at hx
      cases hx
    simpa [record, hs] using hx
  · simpa [record, hj] using hx

lemma record_self (lineage : Lineage D) (i t before : Nat) (data : D) :
    lineage.record i t before data i t = some (before, data) := by
  simp [record]

lemma record_cases {i t before j s : Nat} {data : D} {x : Nat × D}
    (hx : lineage.record i t before data j s = some x) : j = i ∧ s = t ∨ lineage j s = some x := by
  by_cases hj : j = i
  · subst hj
    by_cases hs : s = t
    · exact .inl ⟨rfl, hs⟩
    · exact .inr (by simpa [record, hs] using hx)
  · exact .inr (by simpa [record, hj] using hx)

@[simp] lemma termBefore_zero (t : Nat) (es : List E) : termBefore termOf t es 0 = t := rfl

lemma termBefore_succ {k : Nat} {e : E} (he : es[k]? = some e) :
    termBefore termOf t es (k + 1) = termOf e := by
  have hk := (List.getElem?_eq_some_iff.mp he).1
  have hlength : (es.take (k + 1)).length = k + 1 := by
    rw [List.length_take]
    omega
  rw [termBefore, getLast?_eq_getElem?, hlength, Nat.add_sub_cancel,
    getElem?_take_of_lt (Nat.lt_succ_self k), he]
  rfl

lemma termBefore_append {k : Nat} (hk : k ≤ es.length) :
    termBefore termOf t (es ++ fs) k = termBefore termOf t es k := by
  rw [termBefore, termBefore, take_append_of_le_length hk]

lemma termBefore_append_add (k : Nat) : termBefore termOf t (es ++ fs) (es.length + k) =
      termBefore termOf (termBefore termOf t es es.length) fs k := by
  rw [termBefore, termBefore, termBefore, take_length_add_append, getLast?_append, take_length]
  cases (fs.take k).getLast? with
  | none | some => rfl

lemma termBefore_take {k n : Nat} (hk : k ≤ n) :
    termBefore termOf t (es.take n) k = termBefore termOf t es k := by
  rw [termBefore, termBefore, take_take, Nat.min_eq_left hk]

lemma termBefore_drop {n k : Nat} (hn : n ≤ es.length) :
    termBefore termOf (termBefore termOf t es n) (es.drop n) k = termBefore termOf t es (n + k) := by
  have hlength : (es.take n).length = n := by
    rw [length_take]
    omega
  have hadd := @termBefore_append_add _ termOf t (es.take n) (es.drop n) k
  rw [take_append_drop, hlength, termBefore_take (Nat.le_refl n)] at hadd
  exact hadd.symm

namespace Chained

lemma nil (lineage : Lineage D) (start t : Nat) :
    Chained termOf dataOf lineage start t ([] : List E) := by
  intro k e he
  cases he

variable (hes : Chained termOf dataOf lineage start t es)

include hes

lemma mono (hext : Extends lineage' lineage) : Chained termOf dataOf lineage' start t es :=
  fun k e he => hext _ _ _ (hes k e he)

lemma take (n : Nat) : Chained termOf dataOf lineage start t (es.take n) := by
  intro k e he
  have hk := (List.getElem?_eq_some_iff.mp he).1
  rw [List.length_take] at hk
  rw [getElem?_take_of_lt (by omega)] at he
  rw [termBefore_take (by omega)]
  exact hes k e he

lemma append
    (hfs : Chained termOf dataOf lineage (start + es.length) (termBefore termOf t es es.length) fs) :
    Chained termOf dataOf lineage start t (es ++ fs) := by
  intro k e he
  by_cases hk : k < es.length
  · rw [getElem?_append_left hk] at he
    rw [termBefore_append (Nat.le_of_lt hk)]
    exact hes k e he
  obtain ⟨j, rfl⟩ := Nat.exists_eq_add_of_le (Nat.le_of_not_lt hk)
  rw [getElem?_append_right (by omega), Nat.add_sub_cancel_left] at he
  rw [termBefore_append_add, ← Nat.add_assoc start]
  exact hfs j e he

lemma drop {n : Nat} (hn : n ≤ es.length) :
    Chained termOf dataOf lineage (start + n) (termBefore termOf t es n) (es.drop n) := by
  intro k e he
  rw [getElem?_drop] at he
  rw [termBefore_drop hn, Nat.add_assoc start]
  exact hes (n + k) e he

variable {start' t' k k' : Nat}

lemma agree_at {e f : E} (hfs : Chained termOf dataOf lineage start' t' fs) (he : es[k]? = some e)
    (hf : fs[k']? = some f) (hindex : start + k = start' + k') (hterm : termOf e = termOf f) :
    termBefore termOf t es k = termBefore termOf t' fs k' ∧ dataOf e = dataOf f := by
  have hfound := hes k e he
  rw [hindex, hterm, hfs k' f hf] at hfound
  have hsame := Option.some.inj hfound
  exact ⟨(congrArg Prod.fst hsame).symm, (congrArg Prod.snd hsame).symm⟩

/-- Two stretches that have the same term at one index have the same term at every index
below it that lies in both. By induction on the distance. -/
lemma termBefore_eq (hfs : Chained termOf dataOf lineage start' t' fs) (hk : k ≤ es.length)
    (hk' : k' ≤ fs.length) (hindex : start + k = start' + k')
    (hterm : termBefore termOf t es k = termBefore termOf t' fs k') {d : Nat} (hd : d ≤ k)
    (hd' : d ≤ k') : termBefore termOf t es (k - d) = termBefore termOf t' fs (k' - d) := by
  induction d with
  | zero => exact hterm
  | succ d ih =>
  have habove := ih (by omega) (by omega)
  obtain ⟨n, hn⟩ : ∃ n, k - d = n + 1 := ⟨k - d - 1, by omega⟩
  obtain ⟨n', hn'⟩ : ∃ n', k' - d = n' + 1 := ⟨k' - d - 1, by omega⟩
  obtain ⟨e, he⟩ : ∃ e, es[n]? = some e := ⟨_, getElem?_eq_getElem (by omega)⟩
  obtain ⟨f, hf⟩ : ∃ f, fs[n']? = some f := ⟨_, getElem?_eq_getElem (by omega)⟩
  rw [hn, hn', termBefore_succ he, termBefore_succ hf] at habove
  rw [Nat.sub_succ, Nat.sub_succ, hn, hn']
  exact (hes.agree_at hfs he hf (by omega) habove).1

end Chained

end Lineage

end stratum.lib
