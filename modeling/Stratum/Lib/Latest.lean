import Mathlib.Logic.Function.Basic

namespace stratum.lib

open Function Option

variable {α : Type} {f g : Nat → Option α} {m n k : Nat} {a : α}

/-- The largest position up to `n` that holds a value. -/
def latestKey (f : Nat → Option α) : Nat → Option Nat
  | 0 => if (f 0).isSome then some 0 else none
  | n + 1 => if (f (n + 1)).isSome then some (n + 1) else latestKey f n

/-- The value at the largest position up to `n` that holds one. -/
def latest (f : Nat → Option α) (n : Nat) : Option α := (latestKey f n).bind f

lemma latestKey_eq_some_iff :
    latestKey f n = some k ↔ k ≤ n ∧ (f k).isSome ∧ ∀ j, k < j → j ≤ n → f j = none := by
  induction n with
  | zero =>
    unfold latestKey
    by_cases hf : (f 0).isSome
    · rw [if_pos hf, some.injEq]
      constructor
      · rintro rfl
        exact ⟨Nat.le_refl 0, hf, fun j hlo hhi => by omega⟩
      · intro hk
        omega
    rw [if_neg hf]
    constructor
    · exact nofun
    · rintro ⟨hle, hsome, -⟩
      obtain rfl : k = 0 := by omega
      exact absurd hsome hf
  | succ n ih =>
    unfold latestKey
    by_cases hf : (f (n + 1)).isSome
    · rw [if_pos hf, some.injEq]
      constructor
      · rintro rfl
        exact ⟨Nat.le_refl _, hf, fun j hlo hhi => by omega⟩
      · rintro ⟨hle, -, hnone⟩
        by_contra hne
        have hgap := hnone (n + 1) (by omega) (Nat.le_refl _)
        rw [hgap] at hf
        cases hf
    rw [if_neg hf, ih]
    constructor
    · rintro ⟨hle, hsome, hnone⟩
      refine ⟨by omega, hsome, ?_⟩
      intro j hlo hhi
      by_cases hj : j = n + 1
      · rw [hj]
        exact not_isSome_iff_eq_none.mp hf
      · exact hnone j hlo (by omega)
    · rintro ⟨hle, hsome, hnone⟩
      have hne : k ≠ n + 1 := by
        rintro rfl
        exact hf hsome
      exact ⟨by omega, hsome, fun j hlo hhi => hnone j hlo (by omega)⟩

lemma latestKey_le (hkey : latestKey f n = some k) : k ≤ n :=
  (latestKey_eq_some_iff.mp hkey).1

lemma latestKey_of_le (hkey : latestKey f n = some k) (hkm : k ≤ m) (hmn : m ≤ n) :
    latestKey f m = some k := by
  rw [latestKey_eq_some_iff] at hkey ⊢
  exact ⟨hkm, hkey.2.1, fun j hlo hhi => hkey.2.2 j hlo (by omega)⟩

lemma latestKey_congr (hagree : ∀ j, j ≤ n → f j = g j) : latestKey f n = latestKey g n := by
  induction n with
  | zero => simp only [latestKey, hagree 0 (Nat.le_refl 0)]
  | succ n ih =>
    simp only [latestKey, hagree (n + 1) (Nat.le_refl _)]
    rw [ih fun j hj => hagree j (by omega)]

lemma latest_congr (hagree : ∀ j, j ≤ n → f j = g j) : latest f n = latest g n := by
  unfold latest
  rw [← latestKey_congr hagree]
  cases hkey : latestKey f n with
  | none => rfl
  | some k => exact hagree k (latestKey_le hkey)

lemma latest_of_key (hkey : latestKey f n = some k) : latest f n = f k := by
  rw [latest, hkey, bind_some]

lemma latest_of_isSome (hsome : f n = some a) : latest f n = some a := by
  have hkey : latestKey f n = some n :=
    latestKey_eq_some_iff.mpr ⟨Nat.le_refl n, by rw [hsome]; rfl, fun j hlo hhi => by omega⟩
  rw [latest_of_key hkey, hsome]

lemma latestKey_succ_of_none (hnone : f (n + 1) = none) : latestKey f (n + 1) = latestKey f n := by
  simp [latestKey, hnone]

lemma latest_succ_of_none (hnone : f (n + 1) = none) : latest f (n + 1) = latest f n := by
  rw [latest, latestKey_succ_of_none hnone, latest]

/-- Taking a value away changes only the lookups that found it. -/
lemma latest_update_none (hhidden : latestKey f n ≠ some k) :
    latest (update f k none) n = latest f n := by
  have hkey : latestKey (update f k none) n = latestKey f n := by
    induction n with
    | zero =>
      by_cases hk : k = 0
      · subst hk
        have hnone : f 0 = none := by
          by_contra hsome
          exact hhidden (by simp [latestKey, hsome])
        simp [latestKey, hnone]
      · simp [latestKey, update_of_ne (Ne.symm hk)]
    | succ n ih =>
      by_cases hk : k = n + 1
      · subst hk
        have hnone : f (n + 1) = none := by
          by_contra hsome
          exact hhidden (by simp [latestKey, hsome])
        rw [latestKey_succ_of_none (update_self _ _ _), latestKey_succ_of_none hnone]
        exact latestKey_congr fun j hj => update_of_ne (by omega) _ _
      by_cases hsome : (f (n + 1)).isSome
      · simp [latestKey, update_of_ne (Ne.symm hk), hsome]
      have hnone := not_isSome_iff_eq_none.mp hsome
      rw [latestKey_succ_of_none hnone] at hhidden ⊢
      rw [latestKey_succ_of_none (by rw [update_of_ne (Ne.symm hk), hnone])]
      exact ih hhidden
  unfold latest
  rw [hkey]
  cases hlatest : latestKey f n with
  | none => rfl
  | some i =>
    have hne : i ≠ k := fun heq => hhidden (heq ▸ hlatest)
    simp [update_of_ne hne]

/-- Taking the latest value away uncovers the latest one below it. -/
lemma latest_update_none_of_key (hkey : latestKey f n = some (k + 1)) :
    latest (update f (k + 1) none) n = latest f k := by
  induction n with
  | zero =>
    have hle := latestKey_le hkey
    omega
  | succ n ih =>
  by_cases hn : n = k
  · subst hn
    rw [latest_succ_of_none (update_self _ _ _)]
    exact latest_congr fun j hj => update_of_ne (by omega) _ _
  have hle := latestKey_le hkey
  have hnone : f (n + 1) = none := (latestKey_eq_some_iff.mp hkey).2.2 (n + 1) (by omega) (by omega)
  rw [latest_succ_of_none (by rw [update_of_ne (by omega), hnone])]
  exact ih (by rwa [latestKey_succ_of_none hnone] at hkey)

/-- A value put at or below the latest position shows only where it takes that position. -/
lemma latest_update_of_lt (hkey : latestKey f n = some k) (hlt : m < k) :
    latest (update f m (some a)) n = latest f n := by
  obtain ⟨hle, hsome, hnone⟩ := latestKey_eq_some_iff.mp hkey
  have hnew : latestKey (update f m (some a)) n = some k := by
    refine latestKey_eq_some_iff.mpr ⟨hle, ?_, ?_⟩
    · rw [update_of_ne (by omega)]
      exact hsome
    intro j hlo hhi
    rw [update_of_ne (by omega)]
    exact hnone j hlo hhi
  rw [latest_of_key hnew, latest_of_key hkey, update_of_ne (by omega)]

lemma latest_update_of_gt {x : Option α} (hgt : n < m) : latest (update f m x) n = latest f n :=
  latest_congr fun j hj => update_of_ne (by omega) _ _

/-- With everything below `k` gone, a lookup finds what it found before or nothing. -/
lemma latest_from_eq_some_iff : latest (fun j => if j < k then none else f j) n = some a ↔
      ∃ i, latestKey f n = some i ∧ k ≤ i ∧ f i = some a := by
  induction n with
  | zero =>
    by_cases hk : 0 < k
    · simp only [latest, latestKey, if_pos hk, isSome_none, if_false, bind_none,
        reduceCtorEq, false_iff]
      rintro ⟨i, hi, hle, -⟩
      have hle' := latestKey_le (n := 0) (f := f) hi
      omega
    · obtain rfl : k = 0 := by omega
      simp only [latest, latestKey, Nat.not_lt_zero]
      cases f 0 with
      | none | some => simp
  | succ n ih =>
    by_cases hk : n + 1 < k
    · constructor
      · intro hlatest
        rw [latest_succ_of_none (if_pos hk)] at hlatest
        obtain ⟨i, hi, hle, -⟩ := ih.mp hlatest
        have hle' := latestKey_le hi
        omega
      · rintro ⟨i, hi, hle, -⟩
        have hle' := latestKey_le hi
        omega
    cases hf : f (n + 1) with
    | none =>
      rw [latest_succ_of_none (by rw [if_neg hk, hf]), latestKey_succ_of_none hf]
      exact ih
    | some x =>
    have hkey : latestKey f (n + 1) = some (n + 1) := by simp [latestKey, hf]
    rw [latest_of_isSome (a := x) (by rw [if_neg hk, hf]), hkey]
    constructor
    · rintro heq
      exact ⟨n + 1, rfl, by omega, hf.trans heq⟩
    · rintro ⟨i, hi, -, ha⟩
      rw [← some.inj hi, hf] at ha
      exact ha

end stratum.lib
