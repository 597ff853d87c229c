import Mathlib.Algebra.GroupWithZero.Nat
import Mathlib.Algebra.Order.BigOperators.Group.List
import Mathlib.Data.List.Induction

namespace stratum.web.history

open List

def historyMaxBytes : Nat := 1 <<< 20

def historyKeep : Nat := 2000

section

variable {α : Type} (width : α → Nat) (file : List α)

/-- The size of a file with one entry a line, where the text of an entry takes `width`. -/
def len : Nat := (file.map fun e => width e + 1).sum

/-- `load_history`: the newest come first. -/
def loadHistory (limit : Nat) : List α := file.reverse.take limit

/-- `append_history`: what is kept is written back as it was loaded. -/
def appendHistory (entry : α) : List α :=
  if historyMaxBytes < len width (file ++ [entry]) then loadHistory (file ++ [entry]) historyKeep
  else file ++ [entry]

end

variable {α : Type} {width : α → Nat} {entries : List α}

lemma appended_eq (hfits : len width entries ≤ historyMaxBytes) :
    entries.foldl (appendHistory width) [] = entries := by
  induction entries using reverseRecOn with
  | nil => rfl
  | append_singleton entries e ih =>
  have hless : len width entries ≤ len width (entries ++ [e]) := by
    simp only [len, map_append, sum_append]
    exact Nat.le_add_right _ _
  rw [foldl_append, ih (Nat.le_trans hless hfits)]
  exact if_neg (Nat.not_lt.mpr hfits)

/-- As long as the file has not been rewritten, the entries come back newest first. -/
theorem history_newest_first (hfits : len width entries ≤ historyMaxBytes) (k : Nat) :
    loadHistory (entries.foldl (appendHistory width) []) k = entries.reverse.take k := by
  rw [appended_eq hfits, loadHistory]

/-- Two entries of 600000 bytes: the second makes the file too long, the rewrite turns it around,
and the older of them comes back as the newest. -/
theorem history_turned_around :
    loadHistory ([1, 2].foldl (appendHistory fun _ => 600000) []) 1 = [1] := by decide +kernel

theorem history_newest_first_three :
    loadHistory ([1, 2, 3].foldl (appendHistory fun _ => 100) []) 2 = [3, 2] :=
  history_newest_first (by decide) 2

end stratum.web.history
