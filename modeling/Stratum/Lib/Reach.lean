import Mathlib.Logic.Basic

namespace stratum.lib

open List Option

variable {S A : Type} (step : S → A → Option S) (Ok : S → A → Prop)

/-- The states reached from `s` by steps that all meet `Ok`. -/
inductive Reach (s : S) : S → Prop
  | refl : Reach s s
  | tail {t t' : S} {a : A} (hreach : Reach s t) (hok : Ok t a) (hstep : step t a = some t') :
      Reach s t'

/-- The states reached from `s` by any steps. -/
abbrev Reachable (s : S) : S → Prop := Reach step (fun _ _ => True) s

/-- A run from `s`, with every state it has passed through, the latest first. -/
inductive Path (s : S) : List S → S → Prop
  | refl : Path s [s] s
  | tail {past : List S} {t t' : S} {a : A} (hpath : Path s past t) (hok : Ok t a)
      (hstep : step t a = some t') : Path s (t' :: past) t'

/-- The state after a list of actions, if every one of them is enabled and meets `Ok` in
turn. -/
def run [∀ s a, Decidable (Ok s a)] (s : S) : List A → Option S
  | [] => some s
  | a :: as => if Ok s a then (step s a).bind fun s' => run s' as else none

/-- `P` holds in every state a list of actions passes through. -/
def Always (P : S → Prop) (s : S) : List A → Prop
  | [] => P s
  | a :: as => P s ∧ ∀ s', step s a = some s' → Always P s' as

/-- Every action of a list meets `Ok` in the state it is taken in. -/
def EachStep (s : S) : List A → Prop
  | [] => True
  | a :: as => Ok s a ∧ ∀ s', step s a = some s' → EachStep s' as

instance decidableEachStep [∀ s a, Decidable (Ok s a)] (s : S) :
    (as : List A) → Decidable (EachStep step Ok s as)
  | [] => isTrue trivial
  | a :: as =>
    match hstep : step s a with
    | none => decidable_of_iff (Ok s a) ⟨fun h => ⟨h, by simp [hstep]⟩, fun h => h.1⟩
    | some s' =>
      have := decidableEachStep s' as
      decidable_of_iff (Ok s a ∧ EachStep step Ok s' as)
        ⟨fun h => ⟨h.1, fun t ht => some.inj (hstep.symm.trans ht) ▸ h.2⟩,
          fun h => ⟨h.1, h.2 s' hstep⟩⟩

instance decidableExistsSome {o : Option S} {P : S → Prop} [DecidablePred P] :
    Decidable (∃ s, o = some s ∧ P s) :=
  decidable_of_iff (o.any fun s => decide (P s)) (by simp [Option.any_eq_true])

instance decidableExistsSomePair {o : Option (S × A)} {P : S → A → Prop}
    [∀ s a, Decidable (P s a)] : Decidable (∃ s a, o = some (s, a) ∧ P s a) :=
  decidable_of_iff (∃ r, o = some r ∧ P r.1 r.2) (by simp)

variable {step Ok} {as : List A} {s t : S} {Ok' : S → A → Prop} {past : List S}

lemma EachStep.of_forall {Adm : A → Prop} (hadm : ∀ a ∈ as, Adm a) :
    EachStep step (fun _ => Adm) s as := by
  induction as generalizing s with
  | nil => trivial
  | cons a as ih =>
    exact ⟨hadm a mem_cons_self, fun _ _ => ih fun b hb => hadm b (mem_cons_of_mem _ hb)⟩

/-- Where an admitted action keeps `P` exactly when it meets `Ok`, the runs of admitted actions
through `P` are the runs of actions that meet `Ok`. -/
lemma always_iff_eachStep_of_admitted (Inv P : S → Prop) (Adm : S → A → Prop)
    (hstep : ∀ s a, Inv s → P s → Adm s a → ∃ s', step s a = some s' ∧ Inv s' ∧ (P s' ↔ Ok s a))
    (hinv : Inv s) (hP : P s) (hadm : EachStep step Adm s as) :
    Always step P s as ↔ EachStep step Ok s as := by
  induction as generalizing s with
  | nil => exact iff_of_true hP trivial
  | cons a as ih =>
  obtain ⟨s', hs', hinv', hiff⟩ := hstep s a hinv hP hadm.1
  have hrest (hP' : P s') : Always step P s' as ↔ EachStep step Ok s' as :=
    ih hinv' hP' (hadm.2 s' hs')
  have hnow (halways : Always step P s' as) : P s' := by
    cases as with
    | nil => exact halways
    | cons b as => exact halways.1
  constructor
  · rintro ⟨-, hall⟩
    have hP' := hnow (hall s' hs')
    refine ⟨hiff.mp hP', fun t ht => ?_⟩
    cases hs'.symm.trans ht
    exact (hrest hP').mp (hall s' hs')
  · rintro ⟨hok, hall⟩
    refine ⟨hP, fun t ht => ?_⟩
    cases hs'.symm.trans ht
    exact (hrest (hiff.mpr hok)).mpr (hall s' hs')

lemma always_iff_eachStep (Inv P : S → Prop) (Adm : A → Prop)
    (hstep : ∀ s a, Inv s → P s → Adm a → ∃ s', step s a = some s' ∧ Inv s' ∧ (P s' ↔ Ok s a))
    (hinv : Inv s) (hP : P s) (hadm : ∀ a ∈ as, Adm a) :
    Always step P s as ↔ EachStep step Ok s as :=
  always_iff_eachStep_of_admitted Inv P (fun _ => Adm) hstep hinv hP (.of_forall hadm)

/-- What holds at the start and is kept by every admitted step holds in every state
reached. -/
lemma Reach.invariant (Inv : S → Prop) (hreach : Reach step Ok s t) (hinit : Inv s)
    (hkeep : ∀ t t' a, Reach step Ok s t → Inv t → Ok t a → step t a = some t' → Inv t') :
    Inv t := by
  induction hreach with
  | refl => exact hinit
  | tail hreach hok hstep ih => exact hkeep _ _ _ hreach ih hok hstep

lemma Reach.mono (himp : ∀ t a, Ok t a → Ok' t a) (hreach : Reach step Ok s t) :
    Reach step Ok' s t := by
  induction hreach with
  | refl => exact .refl
  | tail _ hok hstep ih => exact .tail ih (himp _ _ hok) hstep

variable {u : S}

lemma Reach.trans (hst : Reach step Ok s t) (htu : Reach step Ok t u) : Reach step Ok s u := by
  induction htu with
  | refl => exact hst
  | tail _ hok hstep ih => exact .tail ih hok hstep

section

variable (hpath : Path step Ok s past t)

include hpath

lemma Path.reach : Reach step Ok s t := by
  induction hpath with
  | refl => exact .refl
  | tail _ hok hstep ih => exact .tail ih hok hstep

lemma Path.mem : t ∈ past := by
  cases hpath with
  | refl => exact mem_singleton_self _
  | tail _ _ _ => exact mem_cons_self

lemma Path.reach_of_mem (hu : u ∈ past) : Reach step Ok s u := by
  induction hpath with
  | refl =>
    rw [mem_singleton] at hu
    rw [hu]
    exact .refl
  | tail hpath hok hstep ih =>
    obtain rfl | hu := mem_cons.mp hu
    · exact .tail hpath.reach hok hstep
    · exact ih hu

end

lemma Reach.exists_path (hreach : Reach step Ok s t) : ∃ past, Path step Ok s past t := by
  induction hreach with
  | refl => exact ⟨_, .refl⟩
  | tail _ hok hstep ih =>
    obtain ⟨past, hpath⟩ := ih
    exact ⟨_, hpath.tail hok hstep⟩

namespace Path

/-- What holds at the start and is kept by every admitted step holds of every run, with the
states it has passed through. -/
lemma invariant (Inv : List S → S → Prop) (hpath : Path step Ok s past t) (hinit : Inv [s] s)
    (hkeep : ∀ past t t' a, Path step Ok s past t → Inv past t → Ok t a → step t a = some t' → Inv
      (t' :: past) t') : Inv past t := by
  induction hpath with
  | refl => exact hinit
  | tail hpath hok hstep ih => exact hkeep _ _ _ _ hpath ih hok hstep

lemma mono (himp : ∀ t a, Ok t a → Ok' t a) (hpath : Path step Ok s past t) :
    Path step Ok' s past t := by
  induction hpath with
  | refl => exact .refl
  | tail _ hok hstep ih => exact .tail ih (himp _ _ hok) hstep

lemma eq_cons (hpath : Path step Ok s past t) : ∃ rest, past = t :: rest := by
  cases hpath with
  | refl | tail => exact ⟨_, rfl⟩

/-- A run seen through a map: where every step is one step of the other system or none, it is
a run of that system through the images of its states. -/
lemma map {S' A' : Type} {step' : S' → A' → Option S'} {Ok' : S' → A' → Prop} (f : S → S')
    (hsim : ∀ t t' a, Ok t a → step t a = some t' → f t' = f t ∨ ∃ b, Ok' (f t) b ∧ step' (f t) b =
      some (f t')) (hpath : Path step Ok s past t) :
    ∃ past', Path step' Ok' (f s) past' (f t) ∧ ∀ u ∈ past, f u ∈ past' := by
  induction hpath with
  | refl =>
    refine ⟨_, .refl, fun u hu => ?_⟩
    rw [mem_singleton.mp hu]
    exact mem_cons_self
  | tail _ hok hstep ih =>
  obtain ⟨past', hpath', himage⟩ := ih
  obtain hsame | ⟨b, hok', hstep'⟩ := hsim _ _ _ hok hstep
  · rw [hsame]
    refine ⟨past', hpath', fun u hu => ?_⟩
    obtain rfl | hu := mem_cons.mp hu
    · rw [hsame]
      exact hpath'.mem
    · exact himage u hu
  · refine ⟨_, hpath'.tail hok' hstep', fun u hu => ?_⟩
    obtain rfl | hu := mem_cons.mp hu
    · exact mem_cons_self
    · exact mem_cons_of_mem _ (himage u hu)

/-- What holds of every state a step is taken from, and of the last state, holds of all the
states of the run. -/
lemma all_of_ok {P : S → Prop} (hpath : Path step (fun u _ => P u) s past t) (hend : P t) :
    ∀ u ∈ past, P u := by
  induction hpath with
  | refl =>
    intro u hu
    rw [mem_singleton] at hu
    rw [hu]
    exact hend
  | tail _ hok _ ih =>
    intro u hu
    obtain rfl | hu := mem_cons.mp hu
    · exact hend
    · exact ih hok u hu

lemma exists_of_run [∀ s a, Decidable (Ok s a)] {u : S} (hpath : Path step Ok s past t)
    (hrun : run step Ok t as = some u) :
    ∃ past', Path step Ok s past' u ∧ ∀ x ∈ past, x ∈ past' := by
  induction as generalizing t past with
  | nil =>
    cases hrun
    exact ⟨past, hpath, fun _ hx => hx⟩
  | cons a as ih =>
  unfold run at hrun
  split at hrun
  · next hok =>
    rw [bind_eq_some_iff] at hrun
    obtain ⟨t', hstep, hrest⟩ := hrun
    obtain ⟨past', hpath', hsub⟩ := ih (hpath.tail hok hstep) hrest
    exact ⟨past', hpath', fun x hx => hsub x (mem_cons_of_mem _ hx)⟩
  · cases hrun

end Path

lemma Reach.of_run [∀ s a, Decidable (Ok s a)] (hrun : run step Ok s as = some t) :
    Reach step Ok s t := by
  induction as generalizing s with
  | nil =>
    cases hrun
    exact .refl
  | cons a as ih =>
  unfold run at hrun
  split at hrun
  · next hok =>
    rw [bind_eq_some_iff] at hrun
    obtain ⟨s', hstep, hrest⟩ := hrun
    exact Reach.trans (.tail .refl hok hstep) (ih hrest)
  · cases hrun

/-- A run that ends in a state with a decidable property reaches such a state. -/
lemma Reach.exists_of_run [∀ s a, Decidable (Ok s a)] {p : S → Bool}
    (hrun : (run step Ok s as).any p = true) : ∃ t, Reach step Ok s t ∧ p t = true := by
  rw [Option.any_eq_true] at hrun
  obtain ⟨t, ht, hp⟩ := hrun
  exact ⟨t, .of_run ht, hp⟩

lemma Reach.exists_decide [∀ s a, Decidable (Ok s a)] (as : List A) {P : S → Prop}
    [DecidablePred P] (hrun : (run step Ok s as).any (fun t => decide (P t)) = true) :
    ∃ t, Reach step Ok s t ∧ P t := by
  obtain ⟨t, hreach, ht⟩ := Reach.exists_of_run hrun
  exact ⟨t, hreach, of_decide_eq_true ht⟩

lemma Reach.exists_decide_step [∀ s a, Decidable (Ok s a)] (as : List A) {a : A} {P : S → S → Prop}
    [∀ t t', Decidable (P t t')]
    (hrun : (run step Ok s as).any (fun t => (step t a).any fun t' => decide (P t t')) = true) :
    ∃ t t', Reach step Ok s t ∧ step t a = some t' ∧ P t t' := by
  obtain ⟨t, hreach, hstep⟩ := Reach.exists_of_run hrun
  obtain ⟨t', hstep, ht'⟩ := Option.any_eq_true _ _ |>.mp hstep
  exact ⟨t, t', hreach, hstep, of_decide_eq_true ht'⟩

/-- A run through a state with one decidable property to a state with another. -/
lemma Path.exists_decide [∀ s a, Decidable (Ok s a)] (as bs : List A) {P Q : S → Prop}
    [DecidablePred P] [DecidablePred Q] (hrun : (run step Ok s as).any (fun t =>
      decide (P t) && (run step Ok t bs).any fun u => decide (Q u)) = true) :
    ∃ past u, Path step Ok s past u ∧ (∃ t ∈ past, P t) ∧ Q u := by
  obtain ⟨t, hreach, ht⟩ := Reach.exists_of_run hrun
  obtain ⟨hp, hrest⟩ := Bool.and_eq_true _ _ |>.mp ht
  obtain ⟨u, hu, hq⟩ := Option.any_eq_true _ _ |>.mp hrest
  obtain ⟨past, hpath⟩ := hreach.exists_path
  obtain ⟨past', hpath', hsub⟩ := hpath.exists_of_run hu
  exact ⟨past', u, hpath', ⟨t, hsub t hpath.mem, of_decide_eq_true hp⟩, of_decide_eq_true hq⟩

end stratum.lib
