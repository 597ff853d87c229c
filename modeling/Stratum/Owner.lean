import Mathlib.Data.List.Sort
import Mathlib.Data.String.Basic

namespace stratum.owner

open List

section

variable (rank : String → Nat)

/-- The order of the members for one version: the higher rank first, ties by the address. -/
def Outranks (a b : String) : Prop := rank b < rank a ∨ rank a = rank b ∧ a ≤ b
  deriving Decidable

instance : Std.Total (Outranks rank) := ⟨fun a b => by grind [Outranks]⟩

instance : IsTrans String (Outranks rank) := ⟨fun a b c => by grind [Outranks]⟩

instance : Std.Antisymm (Outranks rank) := ⟨fun a b => by grind [Outranks]⟩

/-- `Owners`, where `rank` is `Rank` of the knowledge base and version. -/
def owners (members : List String) (k : Int) : List String :=
  if members = [] then []
  else
    let k := if k ≤ 0 ∨ members.length < k then (members.length : Int) else k
    (members.insertionSort (Outranks rank)).take k.toNat

end

variable {rank : String → Nat} {members members' : List String} {k : Int}

lemma owners_eq (hk : 1 ≤ k) :
    owners rank members k = (members.insertionSort (Outranks rank)).take k.toNat := by
  unfold owners
  split
  · next hnone => rw [hnone, insertionSort_nil, take_nil]
  split
  · rw [take_of_length_le (by simp), take_of_length_le (by simp; omega)]
  · rfl

lemma sort_eq_of_perm (hperm : members ~ members') :
    members.insertionSort (Outranks rank) = members'.insertionSort (Outranks rank) :=
  ((perm_insertionSort ..).trans (hperm.trans (perm_insertionSort ..).symm)).eq_of_pairwise'
    (pairwise_insertionSort ..) (pairwise_insertionSort ..)

lemma sort_erase (m : String) : (members.erase m).insertionSort (Outranks rank) =
    (members.insertionSort (Outranks rank)).erase m :=
  ((perm_insertionSort ..).trans ((perm_insertionSort ..).symm.erase m)).eq_of_pairwise'
    (pairwise_insertionSort ..) ((pairwise_insertionSort ..).sublist (erase_sublist ..))

/-- Where `m` is erased, the head of a list is filled up from what follows it. -/
lemma take_erase (l : List String) (m : String) (n : Nat) : ∃ next, next.length ≤ 1 ∧
    (m ∉ l.take n → next = []) ∧ (l.erase m).take n = (l.take n).erase m ++ next ∧
      l.take n ++ next <+: l.take (n + 1) := by
  induction l generalizing n with
  | nil => exact ⟨[], by simp⟩
  | cons x l ih =>
  cases n with
  | zero => exact ⟨[], by simp⟩
  | succ n =>
    obtain rfl | hx := eq_or_ne x m
    · exact ⟨(l.drop n).take 1, by simp [take_add]⟩
    · obtain ⟨next, hlen, hnone, herase, hprefix⟩ := ih n
      rw [erase_cons_tail (by simpa using hx)]
      refine ⟨next, hlen, fun hm => hnone ?_, ?_, ?_⟩
      · exact fun hin => hm (mem_cons_of_mem _ hin)
      · simp [herase, erase_cons_tail, hx]
      · exact prefix_cons_inj x |>.mpr hprefix

/-- The owners do not depend on the order of the members and are a prefix of those for one more;
without a member `m` they lose `m` and gain at most the next in rank, and none where `m` was no
owner. -/
theorem owners_nested (rank : String → Nat) (hk : 1 ≤ k) (members : List String) :
    (∀ members', members ~ members' → owners rank members' k = owners rank members k) ∧
    owners rank members k <+: owners rank members (k + 1) ∧
    ∀ m, ∃ next, next.length ≤ 1 ∧ (m ∉ owners rank members k → next = []) ∧
      owners rank (members.erase m) k = (owners rank members k).erase m ++ next ∧
      owners rank members k ++ next <+: owners rank members (k + 1) := by
  have hsucc : (k + 1).toNat = k.toNat + 1 := by omega
  simp only [owners_eq hk, owners_eq (by omega : 1 ≤ k + 1), hsucc, sort_erase]
  refine ⟨fun members' hperm => by rw [sort_eq_of_perm hperm], ?_, fun m => take_erase _ m _⟩
  rw [take_add]
  exact prefix_append _ _

/-- Of three members of equal rank the second owns too; without the first the third moves up. -/
theorem owners_nested_tie :
    owners (fun _ => 0) ["c", "b", "a"] 2 <+: owners (fun _ => 0) ["c", "b", "a"] 3 ∧
      owners (fun _ => 0) ["c", "b"] 2 = ["b", "c"] ∧ ∃ next, next.length ≤ 1 ∧
        owners (fun _ => 0) ["c", "b"] 2 =
          (owners (fun _ => 0) ["c", "b", "a"] 2).erase "a" ++ next := by
  obtain ⟨-, hhead, hremoved⟩ := owners_nested (fun _ => 0) (k := 2) (by decide) ["c", "b", "a"]
  obtain ⟨next, hlen, -, herase, -⟩ := hremoved "a"
  exact ⟨hhead, by decide +kernel, next, hlen, herase⟩

end stratum.owner
