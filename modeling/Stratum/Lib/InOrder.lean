import Mathlib.Order.Monotone.Basic

namespace stratum.lib

open List

variable {M K S : Type} (advance : K → M → K) (Next : K → M → Prop)

/-- A sequence of messages each of which may come next at the position reached by those
before it. -/
def InOrder : K → List M → Prop
  | _, [] => True
  | k, x :: xs => Next k x ∧ InOrder (advance k x) xs

variable {advance Next} {k : K} {xs : List M}

namespace InOrder

lemma append_iff {ys : List M} : InOrder advance Next k (xs ++ ys) ↔
      InOrder advance Next k xs ∧ InOrder advance Next (xs.foldl advance k) ys := by
  induction xs generalizing k with
  | nil => simp [InOrder]
  | cons x xs ih =>
    simp only [cons_append, InOrder, ih]
    exact and_assoc.symm

lemma snoc {x : M} (hxs : InOrder advance Next k xs) (hx : Next (xs.foldl advance k) x) :
    InOrder advance Next k (xs ++ [x]) :=
  append_iff.mpr ⟨hxs, hx, trivial⟩

lemma take (hxs : InOrder advance Next k xs) (n : Nat) : InOrder advance Next k (xs.take n) := by
  rw [← take_append_drop n xs] at hxs
  exact (append_iff.mp hxs).1

/-- If every message in order takes the state of its position to the state of the next,
then so does a sequence in order. -/
lemma foldl_eq {handle : S → M → S} (stateAt : K → S)
    (hstep : ∀ k x, Next k x → handle (stateAt k) x = stateAt (advance k x))
    (hxs : InOrder advance Next k xs) :
    xs.foldl handle (stateAt k) = stateAt (xs.foldl advance k) := by
  induction xs generalizing k with
  | nil => rfl
  | cons x xs ih =>
    obtain ⟨hx, hxs⟩ := hxs
    rw [foldl_cons, hstep k x hx]
    exact ih hxs

variable (rank : K → Nat) (hstep : ∀ k x, Next k x → rank k ≤ rank (advance k x))
  (hxs : InOrder advance Next k xs)

include hstep hxs

/-- What every message in order does not lower, a sequence in order does not lower. -/
lemma le : rank k ≤ rank (xs.foldl advance k) := by
  induction xs generalizing k with
  | nil => exact le_rfl
  | cons x xs ih =>
    obtain ⟨hx, hxs⟩ := hxs
    exact le_trans (hstep k x hx) (ih hxs)

lemma monotone : Monotone fun n => rank ((xs.take n).foldl advance k) := by
  refine monotone_nat_of_le_succ fun n => ?_
  obtain hn | hn := lt_or_ge n xs.length
  · have hsucc : InOrder advance Next k (xs.take n ++ [xs[n]]) := by
      rw [take_append_getElem hn]
      exact hxs.take (n + 1)
    rw [← take_append_getElem hn, foldl_append]
    exact InOrder.le rank hstep (append_iff.mp hsucc).2
  · rw [take_of_length_le hn, take_of_length_le (Nat.le_succ_of_le hn)]

end InOrder

end stratum.lib
