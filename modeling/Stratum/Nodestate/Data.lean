import Mathlib.Data.Finset.Max
import Mathlib.Order.Interval.Finset.Nat

namespace stratum.nodestate

open Finset

/-! The data side of a node's state: the contiguous cursor of each knowledge base, and the two
accounts above it that it advances over. -/

/-- What the three maps of the machine hold for one knowledge base. -/
structure Account where
  cursor : Nat := 0
  heldAbove : Finset Nat := ∅
  announcedAbove : Finset Nat := ∅
deriving DecidableEq

attribute [ext] Account

variable {a : Account}

namespace Account

/-- The smallest version above the cursor that is known of, held or announced. -/
def lowestAbove (a : Account) : Option Nat :=
  let known := (a.heldAbove ∪ a.announcedAbove).filter (a.cursor < ·)
  if h : known.Nonempty then some (known.min' h) else none

/-- The loop of `advanceCursorLocked`. A round that goes on takes a version out of
`heldAbove`, which bounds their number. -/
def walk : Nat → Account → Account
  | 0, a => a
  | fuel + 1, a =>
    match a.lowestAbove with
    | none => a
    | some next =>
      if next ∈ a.heldAbove then
        walk fuel
          { cursor := next
            heldAbove := a.heldAbove.erase next
            announcedAbove := a.announcedAbove.erase next }
      else a

def advanceCursor (a : Account) : Account := a.walk a.heldAbove.card

/-- Versions that are accounted for. -/
def account (a : Account) (versions : Finset Nat) : Account :=
  advanceCursor { a with heldAbove := a.heldAbove ∪ versions.filter (a.cursor < ·) }

def advance (a : Account) (versionID : Nat) : Account := a.account {versionID}

def markHandled (a : Account) (first last : Nat) : Account := a.account (Finset.Icc first last)

def announce (a : Account) (versionID : Nat) : Account :=
  if versionID ≤ a.cursor then a
  else { a with announcedAbove := insert versionID a.announcedAbove }

lemma lowestAbove_eq_none :
    a.lowestAbove = none ↔ ∀ v ∈ a.heldAbove ∪ a.announcedAbove, v ≤ a.cursor := by
  simp only [lowestAbove, dite_eq_right_iff, reduceCtorEq, imp_false, not_nonempty_iff_eq_empty,
    filter_eq_empty_iff, not_lt]

lemma lowestAbove_eq_some {next : Nat} (h : a.lowestAbove = some next) :
    next ∈ a.heldAbove ∪ a.announcedAbove ∧ a.cursor < next ∧
      ∀ v ∈ a.heldAbove ∪ a.announcedAbove, a.cursor < v → next ≤ v := by
  unfold lowestAbove at h
  dsimp only at h
  split at h
  next hne =>
    cases h
    obtain ⟨hmem, hlt⟩ := mem_filter.mp (min'_mem _ hne)
    exact ⟨hmem, hlt, fun v hv hv' => min'_le _ v (mem_filter.mpr ⟨hv, hv'⟩)⟩
  · cases h

/-- The walk reaches a version exactly when some held version at or above it has no announced
version that is not held between it and the cursor. -/
lemma le_cursor_walk {fuel : Nat} (hfuel : a.heldAbove.card ≤ fuel) (v : Nat) :
    v ≤ (walk fuel a).cursor ↔ v ≤ a.cursor ∨ ∃ w ∈ a.heldAbove, v ≤ w ∧
      ∀ g ∈ a.announcedAbove, a.cursor < g → g ≤ w → g ∈ a.heldAbove := by
  induction fuel generalizing a with
  | zero =>
    have hempty : a.heldAbove = ∅ := card_eq_zero.mp (Nat.le_zero.mp hfuel)
    simp [walk, hempty]
  | succ fuel ih =>
  rw [walk]
  cases hnext : a.lowestAbove with
  | none =>
    have hbelow := lowestAbove_eq_none.mp hnext
    constructor
    · exact .inl
    · rintro (hle | ⟨w, hw, hle, -⟩)
      · exact hle
      · exact le_trans hle (hbelow w (mem_union_left _ hw))
  | some next =>
    obtain ⟨hmem, hlt, hleast⟩ := lowestAbove_eq_some hnext
    dsimp only
    split
    next hheld =>
      have hcard : (a.heldAbove.erase next).card ≤ fuel := by
        rw [card_erase_of_mem hheld]
        omega
      rw [ih hcard]
      dsimp only
      constructor
      · rintro (hle | ⟨w, hw, hle, hclear⟩)
        · refine .inr ⟨next, hheld, hle, fun g hg hgt hgw => ?_⟩
          rwa [le_antisymm hgw (hleast g (mem_union_right _ hg) hgt)]
        refine .inr ⟨w, mem_of_mem_erase hw, hle, fun g hg hgt hgw => ?_⟩
        by_cases heq : g = next
        · rwa [heq]
        · have hover := hleast g (mem_union_right _ hg) hgt
          exact mem_of_mem_erase (hclear g (mem_erase.mpr ⟨heq, hg⟩) (by omega) hgw)
      · rintro (hle | ⟨w, hw, hle, hclear⟩)
        · exact .inl (by omega)
        by_cases hover : w ≤ next
        · exact .inl (le_trans hle hover)
        refine .inr ⟨w, mem_erase.mpr ⟨by omega, hw⟩, hle, fun g hg hgt hgw => ?_⟩
        have hg' := mem_of_mem_erase hg
        exact mem_erase.mpr ⟨ne_of_mem_erase hg, hclear g hg' (by omega) hgw⟩
    next hgap =>
      have hann : next ∈ a.announcedAbove := (mem_union.mp hmem).resolve_left hgap
      constructor
      · exact .inl
      · rintro (hle | ⟨w, hw, hle, hclear⟩)
        · exact hle
        by_contra hover
        have hwgt : a.cursor < w := by omega
        have := hleast w (mem_union_left _ hw) hwgt
        exact hgap (hclear next hann hlt this)

/-- The account once the cursor has stepped onto a held version. -/
def stepOnto (a : Account) (next : Nat) : Account where
  cursor := next
  heldAbove := a.heldAbove.erase next
  announcedAbove := a.announcedAbove.erase next

lemma walk_succ (fuel : Nat) (a : Account) : a.walk (fuel + 1) = match a.lowestAbove with
      | none => a
      | some next => if next ∈ a.heldAbove then (a.stepOnto next).walk fuel else a := rfl

lemma cursor_le_walk (fuel : Nat) (a : Account) : a.cursor ≤ (a.walk fuel).cursor := by
  induction fuel generalizing a with
  | zero => exact le_rfl
  | succ fuel ih =>
  rw [walk_succ]
  cases hnext : a.lowestAbove with
  | none => exact le_rfl
  | some next =>
  obtain ⟨-, hlt, -⟩ := lowestAbove_eq_some hnext
  dsimp only
  split
  · exact (le_of_lt hlt).trans (ih (a.stepOnto next))
  · exact le_rfl

/-- With `versions` accounted for as well, an announced version that is not stands in front of
every one that would carry the cursor to `v`. -/
def Stops (a : Account) (versions : Finset Nat) (v : Nat) : Prop :=
  ∀ w ∈ a.heldAbove ∪ versions, v ≤ w →
    ∃ g ∈ a.announcedAbove, g ∉ a.heldAbove ∪ versions ∧ a.cursor < g ∧ g ≤ w
  deriving Decidable

lemma cursor_account_lt {versions : Finset Nat} {v : Nat} :
    (a.account versions).cursor < v ↔ a.cursor < v ∧ a.Stops versions v := by
  rw [account, advanceCursor, ← not_le, le_cursor_walk le_rfl, not_or, not_le]
  refine and_congr_right fun (hlt : a.cursor < v) => ?_
  have hmem (w : Nat) (hw : a.cursor < w) :
      w ∈ a.heldAbove ∪ versions.filter (a.cursor < ·) ↔ w ∈ a.heldAbove ∪ versions := by
    simp [hw]
  constructor
  · intro h w hw hle
    by_contra hnone
    refine h ⟨w, (hmem w (by omega)).mpr hw, hle, fun g hg hgt hgw => ?_⟩
    by_contra hheld
    exact hnone ⟨g, hg, fun hin => hheld ((hmem g hgt).mpr hin), hgt, hgw⟩
  · rintro h ⟨w, hw, hle, hclear⟩
    obtain ⟨g, hg, hgap, hgt, hgw⟩ := h w ((hmem w (by omega)).mp hw) hle
    exact hgap ((hmem g hgt).mp (hclear g hg hgt hgw))

lemma le_cursor_account (a : Account) (versions : Finset Nat) :
    a.cursor ≤ (a.account versions).cursor := by
  by_contra hlt
  exact lt_irrefl _ (cursor_account_lt.mp (not_le.mp hlt)).1

lemma walk_above (fuel : Nat) (a : Account) :
    (∀ w, (a.walk fuel).cursor < w → ((w ∈ (a.walk fuel).heldAbove ↔ w ∈ a.heldAbove) ∧
      (w ∈ (a.walk fuel).announcedAbove ↔ w ∈ a.announcedAbove))) ∧
    ∀ g ∈ a.announcedAbove, a.cursor < g → g ≤ (a.walk fuel).cursor → g ∈ a.heldAbove := by
  induction fuel generalizing a with
  | zero => exact ⟨fun _ _ => ⟨Iff.rfl, Iff.rfl⟩, fun g _ hgt hle => absurd hgt (not_lt.mpr hle)⟩
  | succ fuel ih =>
  have hstay : (∀ w, a.cursor < w → ((w ∈ a.heldAbove ↔ w ∈ a.heldAbove) ∧
      (w ∈ a.announcedAbove ↔ w ∈ a.announcedAbove))) ∧
      ∀ g ∈ a.announcedAbove, a.cursor < g → g ≤ a.cursor → g ∈ a.heldAbove :=
    ⟨fun _ _ => ⟨Iff.rfl, Iff.rfl⟩, fun g _ hgt hle => absurd hgt (not_lt.mpr hle)⟩
  rw [walk_succ]
  cases hnext : a.lowestAbove with
  | none => exact hstay
  | some next =>
  dsimp only
  obtain ⟨-, hlt, hleast⟩ := lowestAbove_eq_some hnext
  by_cases hheld : next ∈ a.heldAbove
  · rw [if_pos hheld]
    -- The rest of the walk starts at `next`, which is gone from both accounts.
    obtain ⟨habove, hpassed⟩ := ih (a.stepOnto next)
    have hfrom : next ≤ ((a.stepOnto next).walk fuel).cursor :=
      cursor_le_walk fuel (a.stepOnto next)
    refine ⟨fun w hw => ?_, fun g hg hgt hle => ?_⟩
    · have hne : w ≠ next := by omega
      obtain ⟨hheld', hann'⟩ := habove w hw
      rw [hheld', hann', stepOnto, mem_erase, mem_erase]
      exact ⟨and_iff_right hne, and_iff_right hne⟩
    by_cases heq : g = next
    · rwa [heq]
    have hover := hleast g (mem_union_right _ hg) hgt
    have hover' : next < g := by omega
    exact mem_of_mem_erase (hpassed g (mem_erase.mpr ⟨heq, hg⟩) hover' hle)
  · rw [if_neg hheld]
    exact hstay

variable {A B : Finset Nat} {w g : Nat}

lemma mem_heldAbove_account (hw : (a.account A).cursor < w) :
    w ∈ (a.account A).heldAbove ↔ w ∈ a.heldAbove ∪ A := by
  have hlt : a.cursor < w := (le_cursor_account a A).trans_lt hw
  exact ((walk_above _ _).1 w hw).1.trans (by simp [hlt])

lemma mem_announcedAbove_account (hw : (a.account A).cursor < w) :
    w ∈ (a.account A).announcedAbove ↔ w ∈ a.announcedAbove := ((walk_above _ _).1 w hw).2

lemma mem_of_le_cursor_account (hg : g ∈ a.announcedAbove) (hgt : a.cursor < g)
    (hle : g ≤ (a.account A).cursor) : g ∈ a.heldAbove ∪ A := by
  have hin : g ∈ a.heldAbove ∪ A.filter (a.cursor < ·) :=
    (walk_above _ { a with heldAbove := a.heldAbove ∪ A.filter (a.cursor < ·) }).2 g hg hgt hle
  exact union_subset_union (Subset.refl _) (filter_subset _ _) hin

lemma cursor_account_account_lt {v : Nat} :
    ((a.account A).account B).cursor < v ↔ a.cursor < v ∧ a.Stops (A ∪ B) v := by
  have hle := le_cursor_account a A
  have hheldB (w : Nat) (hw : (a.account A).cursor < w) :
      w ∈ (a.account A).heldAbove ∪ B ↔ w ∈ a.heldAbove ∪ (A ∪ B) := by
    rw [mem_union, mem_heldAbove_account hw, ← mem_union, union_assoc]
  rw [cursor_account_lt, cursor_account_lt]
  constructor
  · rintro ⟨⟨hlt, hstops⟩, hstops'⟩
    refine ⟨hlt, fun w hw hvw => ?_⟩
    have hcursor : (a.account A).cursor < v := cursor_account_lt.mpr ⟨hlt, hstops⟩
    obtain ⟨g, hg, hgap, hgt, hgw⟩ := hstops' w ((hheldB w (by omega)).mpr hw) hvw
    exact ⟨g, (mem_announcedAbove_account hgt).mp hg, fun hin => hgap ((hheldB g hgt).mpr hin), by omega, hgw⟩
  · rintro ⟨hlt, hstops⟩
    have hfirst : a.Stops A v := by
      intro w hw hvw
      obtain ⟨g, hg, hgap, hgt, hgw⟩ := hstops w
        (by rw [← union_assoc]; exact mem_union_left _ hw) hvw
      refine ⟨g, hg, fun hin => hgap ?_, hgt, hgw⟩
      rw [← union_assoc]
      exact mem_union_left _ hin
    have hcursor : (a.account A).cursor < v := cursor_account_lt.mpr ⟨hlt, hfirst⟩
    refine ⟨⟨hlt, hfirst⟩, fun w hw hvw => ?_⟩
    obtain ⟨g, hg, hgap, hgt, hgw⟩ := hstops w ((hheldB w (by omega)).mp hw) hvw
    -- An announced version that is not held was not passed.
    have habove' : (a.account A).cursor < g := by
      by_contra hle'
      have hin := mem_of_le_cursor_account hg hgt (not_lt.mp hle')
      apply hgap
      rw [← union_assoc]
      exact mem_union_left _ hin
    exact ⟨g, (mem_announcedAbove_account habove').mpr hg,
      fun hin => hgap ((hheldB g habove').mp hin), habove', hgw⟩

@[simp] lemma cursor_announce (a : Account) (versionID : Nat) :
    (a.announce versionID).cursor = a.cursor := by
  unfold announce
  split <;> rfl

/-- Both accounts lie above the cursor. -/
def Above (a : Account) : Prop := ∀ w ∈ a.heldAbove ∪ a.announcedAbove, a.cursor < w

section

variable (h : a.Above)

include h

lemma Above.walk (fuel : Nat) : (a.walk fuel).Above := by
  induction fuel generalizing a with
  | zero => exact h
  | succ fuel ih =>
  rw [walk_succ]
  cases hnext : a.lowestAbove with
  | none => exact h
  | some next =>
  obtain ⟨-, -, hleast⟩ := lowestAbove_eq_some hnext
  dsimp only
  split
  · refine ih fun w hw => ?_
    rw [stepOnto, ← erase_union_distrib, mem_erase] at hw
    exact lt_of_le_of_ne (hleast w hw.2 (h w hw.2)) (Ne.symm hw.1)
  · exact h

lemma Above.account (A : Finset Nat) : (a.account A).Above := by
  refine Above.walk (fun w hw => ?_) _
  rw [union_right_comm, mem_union, mem_filter] at hw
  exact hw.elim (h w) And.right

lemma Above.announce (v : Nat) : (a.announce v).Above := by
  unfold Account.announce
  split
  · exact h
  next hlt =>
  intro w hw
  rw [union_insert, mem_insert] at hw
  obtain rfl | hw := hw
  · exact not_le.mp hlt
  · exact h w hw

lemma account_account : (a.account A).account B = a.account (A ∪ B) := by
  have hcursor : ((a.account A).account B).cursor = (a.account (A ∪ B)).cursor :=
    eq_of_forall_gt_iff fun v => cursor_account_account_lt.trans cursor_account_lt.symm
  have habove := (h.account A).account B
  have habove' := h.account (A ∪ B)
  have hle := le_cursor_account (a.account A) B
  -- above the cursor that both reach the accounts hold the same, below it nothing
  have hmem (w : Nat) :
      (w ∈ ((a.account A).account B).heldAbove ↔ w ∈ (a.account (A ∪ B)).heldAbove) ∧
        (w ∈ ((a.account A).account B).announcedAbove ↔
          w ∈ (a.account (A ∪ B)).announcedAbove) := by
    by_cases hw : ((a.account A).account B).cursor < w
    · rw [mem_heldAbove_account hw, mem_union, mem_heldAbove_account (hle.trans_lt hw),
        mem_heldAbove_account (hcursor ▸ hw), mem_announcedAbove_account hw,
        mem_announcedAbove_account (hle.trans_lt hw), mem_announcedAbove_account (hcursor ▸ hw),
        ← union_assoc, mem_union (t := B)]
      exact ⟨Iff.rfl, Iff.rfl⟩
    constructor
    · exact iff_of_false (fun hin => hw (habove w (mem_union_left _ hin)))
        fun hin => hw (hcursor ▸ habove' w (mem_union_left _ hin))
    · exact iff_of_false (fun hin => hw (habove w (mem_union_right _ hin)))
        fun hin => hw (hcursor ▸ habove' w (mem_union_right _ hin))
  ext1
  · exact hcursor
  · exact Finset.ext fun w => (hmem w).1
  · exact Finset.ext fun w => (hmem w).2

end

/-- The version is announced and nothing has accounted for it. -/
def Blocked (a : Account) (v : Nat) : Prop :=
  a.cursor < v ∧ v ∈ a.announcedAbove ∧ v ∉ a.heldAbove

lemma Blocked.account {v : Nat} (h : a.Blocked v) (hv : v ∉ A) : (a.account A).Blocked v := by
  obtain ⟨hlt, hann, hheld⟩ := h
  have hout : v ∉ a.heldAbove ∪ A := by simp [hheld, hv]
  have hlt' : (a.account A).cursor < v :=
    not_le.mp fun hle => hout (mem_of_le_cursor_account hann hlt hle)
  exact ⟨hlt', (mem_announcedAbove_account hlt').mpr hann,
    fun hin => hout ((mem_heldAbove_account hlt').mp hin)⟩

end Account

/-- The machine has an account for each knowledge base. -/
abbrev Machine := String → Account

inductive Call
  | announce (kbID : String) (versionID : Nat)
  | advance (kbID : String) (versionID : Nat)
  | markHandled (kbID : String) (first last : Nat)

/-- The versions of the knowledge base that the call accounts for. -/
def Call.accounted (kbID : String) : Call → Finset Nat
  | .announce .. => ∅
  | .advance kb v => if kb = kbID then {v} else ∅
  | .markHandled kb first last => if kb = kbID then Icc first last else ∅

namespace Machine

def step (m : Machine) : Call → Machine
  | .announce kbID v => if kbID = "" then m else Function.update m kbID ((m kbID).announce v)
  | .advance kbID v => Function.update m kbID ((m kbID).advance v)
  | .markHandled kbID first last => Function.update m kbID ((m kbID).markHandled first last)

def run (m : Machine) (calls : List Call) : Machine := calls.foldl step m

variable {m : Machine} {kbID : String} {call : Call} {calls : List Call}

lemma step_cases (m : Machine) (call : Call) (kbID : String) :
    m.step call kbID = m kbID ∨ (∃ v, m.step call kbID = (m kbID).announce v) ∨
      m.step call kbID = (m kbID).account (call.accounted kbID) := by
  cases call with
  | announce kb v =>
    by_cases hkb : kb = ""
    · exact .inl (by simp [step, hkb])
    by_cases heq : kbID = kb
    · subst heq
      exact .inr (.inl ⟨v, by simp [step, hkb]⟩)
    · exact .inl (by simp [step, hkb, heq])
  | advance kb v | markHandled kb first last =>
    by_cases heq : kbID = kb
    · subst heq
      exact .inr (.inr (by simp [step, Account.advance, Account.markHandled, Call.accounted]))
    · exact .inl (Function.update_of_ne heq _ _)

lemma above_step (h : ∀ kbID, (m kbID).Above) (call : Call) (kbID : String) :
    (m.step call kbID).Above := by
  obtain heq | ⟨v, heq⟩ | heq := step_cases m call kbID
  all_goals rw [heq]
  · exact h kbID
  · exact (h kbID).announce v
  · exact (h kbID).account _

lemma above_run (h : ∀ kbID, (m kbID).Above) (calls : List Call) (kbID : String) :
    (m.run calls kbID).Above := by
  induction calls generalizing m with
  | nil => exact h kbID
  | cons call calls ih => exact ih (above_step h call)

variable {w : Nat}

lemma mem_heldAbove_step (h : ∀ kbID, (m kbID).Above) (hw : w ∈ (m.step call kbID).heldAbove) :
    w ∈ (m kbID).heldAbove ∨ w ∈ call.accounted kbID := by
  have hlt := above_step h call kbID w (mem_union_left _ hw)
  obtain heq | ⟨v, heq⟩ | heq := step_cases m call kbID
  all_goals rw [heq] at hw hlt
  · exact .inl hw
  · unfold Account.announce at hw
    split at hw <;> exact .inl hw
  · exact mem_union.mp ((Account.mem_heldAbove_account hlt).mp hw)

lemma mem_heldAbove_run (h : ∀ kbID, (m kbID).Above) (hw : w ∈ (m.run calls kbID).heldAbove) :
    w ∈ (m kbID).heldAbove ∨ ∃ call ∈ calls, w ∈ call.accounted kbID := by
  induction calls generalizing m with
  | nil => exact .inl hw
  | cons call calls ih =>
    obtain hheld | ⟨later, hlater, hw⟩ := ih (above_step h call) hw
    · exact (mem_heldAbove_step h hheld).imp_right fun hw => ⟨call, List.mem_cons_self, hw⟩
    · exact .inr ⟨later, List.mem_cons_of_mem _ hlater, hw⟩

lemma blocked_run {v : Nat} (h : (m kbID).Blocked v)
    (hcalls : ∀ call ∈ calls, v ∉ call.accounted kbID) : (m.run calls kbID).Blocked v := by
  induction calls generalizing m with
  | nil => exact h
  | cons call calls ih =>
  obtain ⟨hcall, hcalls⟩ := List.forall_mem_cons.mp hcalls
  refine ih ?_ hcalls
  obtain heq | ⟨w, heq⟩ | heq := step_cases m call kbID
  all_goals rw [heq]
  · exact h
  · unfold Account.announce
    split
    · exact h
    · exact ⟨h.1, mem_insert_of_mem h.2.1, h.2.2⟩
  · exact h.account hcall

lemma step_advance_comm (h : ∀ kbID, (m kbID).Above) (x y : String × Nat) :
    (m.step (.advance x.1 x.2)).step (.advance y.1 y.2) =
      (m.step (.advance y.1 y.2)).step (.advance x.1 x.2) := by
  by_cases heq : x.1 = y.1
  · simp [step, heq, Account.advance, Account.account_account (h _), union_comm]
  · simp [step, heq, Ne.symm heq, Function.update_comm heq]

lemma run_advance_perm {advs advs' : List (String × Nat)} (hperm : advs.Perm advs')
    (h : ∀ kbID, (m kbID).Above) : m.run (advs.map fun adv => .advance adv.1 adv.2) =
      m.run (advs'.map fun adv => .advance adv.1 adv.2) := by
  induction hperm generalizing m with
  | nil => rfl
  | cons adv _ ih => exact ih (above_step h _)
  | swap x y advs => simp only [run, List.map_cons, List.foldl_cons, step_advance_comm h x y]
  | trans _ _ ih ih' => exact (ih h).trans (ih' h)

lemma run_advance_range (h : (m kbID).Above) (first n : Nat) :
    m.run ((List.range' first (n + 1)).map (.advance kbID)) =
      m.step (.markHandled kbID first (first + n)) := by
  induction n with
  | zero => simp [run, step, Account.advance, Account.markHandled]
  | succ n ih =>
  have hrange : Icc first (first + n) ∪ {first + (n + 1)} = Icc first (first + (n + 1)) := by
    ext v
    simp only [mem_union, mem_Icc, mem_singleton]
    omega
  rw [run] at ih
  rw [List.range'_concat, List.map_append, run, List.foldl_append, ih]
  simp [step, Account.advance, Account.markHandled, Account.account_account h, hrange]

/-- In every sequence of calls the cursor never decreases, no version that was announced above
it is passed unless a call accounts for it, the order of advances is immaterial, and a range
marked at once is a range advanced over one by one. -/
theorem contiguous (calls : List Call) (kbID : String) :
    let m := run (fun _ => {}) calls
    (∀ call, (m kbID).cursor ≤ (m.step call kbID).cursor) ∧
      (∀ v later, kbID ≠ "" → (m kbID).cursor < v →
        v ≤ ((m.step (.announce kbID v)).run later kbID).cursor →
        ∃ call ∈ calls ++ later, v ∈ call.accounted kbID) ∧
      (∀ advs advs' : List (String × Nat), advs.Perm advs' →
        m.run (advs.map fun adv => .advance adv.1 adv.2) =
          m.run (advs'.map fun adv => .advance adv.1 adv.2)) ∧
      ∀ first n, m.run ((List.range' first (n + 1)).map (.advance kbID)) =
        m.step (.markHandled kbID first (first + n)) := by
  have hfresh (kbID : String) : (({} : Account)).Above := by simp [Account.Above]
  have habove := above_run hfresh calls
  refine ⟨fun call => ?_, fun v later hkb hlt hle => ?_,
    fun advs advs' hperm => run_advance_perm hperm habove, run_advance_range (habove kbID)⟩
  · obtain heq | ⟨v, heq⟩ | heq := step_cases (run (fun _ => {}) calls) call kbID
    all_goals rw [heq]
    · exact (Account.cursor_announce _ v).ge
    · exact Account.le_cursor_account _ _
  by_contra hnone
  push Not at hnone
  have hheld : v ∉ (run (fun _ => {}) calls kbID).heldAbove := by
    intro hin
    obtain ⟨call, hcall, hv⟩ := (mem_heldAbove_run hfresh hin).resolve_left (by simp)
    exact hnone call (List.mem_append_left _ hcall) hv
  refine absurd hle (not_le.mpr (blocked_run ?_ fun call hcall =>
    hnone call (List.mem_append_right _ hcall)).1)
  simp [step, hkb, Account.announce, Account.Blocked, not_le.mpr hlt, hlt, hheld]

theorem contiguous_filled :
    let m := run (fun _ => {}) [.announce "kb" 1, .advance "kb" 3]
    (m "kb").cursor < 2 ∧
      2 ≤ ((m.step (.announce "kb" 2)).run [.markHandled "kb" 1 2] "kb").cursor ∧
      ∃ call ∈ [Call.announce "kb" 1, .advance "kb" 3] ++ [Call.markHandled "kb" 1 2],
        2 ∈ call.accounted "kb" :=
  ⟨by decide +kernel, by decide +kernel,
    (contiguous [.announce "kb" 1, .advance "kb" 3] "kb").2.1 2 [.markHandled "kb" 1 2]
      (by decide) (by decide +kernel) (by decide +kernel)⟩

/-- An announcement for the empty id is dropped, and an advance for it is not. -/
theorem announce_dropped :
    let m := run (fun _ => {}) [.announce "" 1, .advance "" 2]
    (m "").cursor = 2 ∧
      ∀ call ∈ [Call.announce "" 1, .advance "" 2], 1 ∉ call.accounted "" := by
  decide +kernel

end Machine

end stratum.nodestate
