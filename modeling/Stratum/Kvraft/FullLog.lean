import Stratum.Kvraft.Log
import Stratum.Lib.Consensus.History

open stratum.lib List

namespace stratum.kvraft

open History

/-- The term at a global index of an uncompacted log; index zero is before its start. -/
def termAt (l : List Entry) (i : Nat) : Nat := lastTerm Entry.term (l.take i)

/-- The trimmed log stands for the whole log `l`: the sentinel is an index and term of
`l`, what follows it is the rest, and every entry carries its own index. -/
structure Log.Represents (log : Log) (l : List Entry) : Prop where
  base_le : log.base.index ≤ l.length
  base_term : log.base.term = termAt l log.base.index
  entries : log.entries = l.drop log.base.index
  index : ∀ k (e : Entry), l[k]? = some e → e.index = k + 1

variable {e : Entry} {i : Nat}

lemma termAt_succ {l : List Entry} (he : l[i]? = some e) : termAt l (i + 1) = e.term := by
  have hi := (List.getElem?_eq_some_iff.mp he).1
  have hlen : (l.take (i + 1)).length = i + 1 := by
    rw [length_take]
    omega
  apply History.lastTerm_eq
  rw [hlen, Nat.add_sub_cancel, getElem?_take_of_lt (by omega), he]

lemma termAt_length (l : List Entry) : termAt l l.length = lastTerm Entry.term l := by
  rw [termAt, take_length]

lemma termAt_of_share {l m : List Entry} {k : Nat} (hshare : Share l m k) (hi : i ≤ k) :
    termAt l i = termAt m i := by
  rw [termAt, termAt, (hshare.mono hi).take_eq]

namespace Log

variable {log : Log} {l : List Entry}

namespace Represents

lemma initial : Log.initial.Represents [] :=
  ⟨le_rfl, rfl, rfl, nofun⟩

section

variable (hrep : log.Represents l)

include hrep

lemma lastLogIndex : log.lastLogIndex = l.length := by
  have := hrep.base_le
  rw [lastLogIndex_eq, hrep.entries, length_drop]
  omega

lemma lastLogTerm : log.lastLogTerm = lastTerm Entry.term l := by
  have hbase := hrep.base_le
  rw [Log.lastLogTerm, hrep.entries, getLast?_drop]
  split
  · have heq : log.base.index = l.length := by omega
    rw [Option.getD_none, hrep.base_term, heq, termAt_length]
  cases hlast : l.getLast? with
  | none =>
    rw [getLast?_eq_none_iff] at hlast
    subst hlast
    rw [Option.getD_none, hrep.base_term, termAt, take_nil]
  | some e =>
    rw [lastTerm, hlast]
    rfl

lemma logEntry (hi : log.base.index < i) : log.logEntry i = l[i - 1]? := by
  obtain ⟨j, rfl⟩ : ∃ j, i = log.base.index + (j + 1) := ⟨i - log.base.index - 1, by omega⟩
  rw [Log.logEntry, if_neg (by omega), logIndex, Nat.add_sub_cancel_left, getElem?_cons_succ,
    hrep.entries, getElem?_drop]
  congr 1

end

lemma logEntry_base (log : Log) : log.logEntry log.base.index = some log.base := by
  rw [Log.logEntry, if_neg (Nat.lt_irrefl _), logIndex, Nat.sub_self, getElem?_cons_zero]

end Represents

section

variable (hrep : log.Represents l)

include hrep

namespace Represents

lemma logEntry_term (he : log.logEntry i = some e) :
    log.base.index ≤ i ∧ i ≤ l.length ∧ e.term = termAt l i := by
  have hrange := (log.logEntry_isSome_iff i).mp (by rw [he]; rfl)
  rw [hrep.lastLogIndex] at hrange
  refine ⟨hrange.1, hrange.2, ?_⟩
  obtain hlt | rfl := lt_or_eq_of_le hrange.1
  · rw [hrep.logEntry hlt] at he
    obtain ⟨j, rfl⟩ : ∃ j, i = j + 1 := ⟨i - 1, by omega⟩
    exact (termAt_succ he).symm
  · rw [logEntry_base] at he
    cases he
    exact hrep.base_term

lemma logEntry_index (he : log.logEntry i = some e) : e.index = i := by
  obtain hlt | rfl := lt_or_eq_of_le (hrep.logEntry_term he).1
  · rw [hrep.logEntry hlt] at he
    have hindex := hrep.index _ e he
    omega
  · rw [logEntry_base] at he
    cases he
    rfl

lemma suffix (hi : log.base.index < i) :
    (log.base :: log.entries).drop (log.logIndex i) = l.drop (i - 1) := by
  obtain ⟨j, rfl⟩ : ∃ j, i = log.base.index + (j + 1) := ⟨i - log.base.index - 1, by omega⟩
  rw [logIndex, Nat.add_sub_cancel_left, drop_succ_cons, hrep.entries, drop_drop]
  congr 1

lemma push (hindex : e.index = l.length + 1) : (log.push e).Represents (l ++ [e]) := by
  have hbase := hrep.base_le
  refine ⟨?_, ?_, ?_, ?_⟩
  · rw [push_base, List.length_append]
    omega
  · rw [push_base, hrep.base_term, termAt, termAt, take_append_of_le_length hbase]
  · rw [push_entries, push_base, hrep.entries, drop_append_of_le_length hbase]
  intro k f hf
  by_cases hk : k < l.length
  · rw [getElem?_append_left hk] at hf
    exact hrep.index k f hf
  have hlen := (List.getElem?_eq_some_iff.mp hf).1
  rw [List.length_append, List.length_singleton] at hlen
  rw [getElem?_append_right (by omega)] at hf
  have hfe := mem_of_getElem? hf
  rw [mem_singleton] at hfe
  rw [hfe]
  omega

lemma spliceAfter {prev : Nat} {es : List Entry} (hbase : log.base.index ≤ prev)
    (hprev : prev ≤ l.length)
    (hindex : ∀ k (e : Entry), (l.take prev ++ es)[k]? = some e → e.index = k + 1) :
    (log.spliceAfter (log.logIndex prev) es).Represents (l.take prev ++ es) := by
  have hlen : (l.take prev).length = prev := by
    rw [length_take]
    omega
  refine ⟨?_, ?_, ?_, hindex⟩
  · rw [spliceAfter_base, length_append]
    omega
  · rw [spliceAfter_base, hrep.base_term, termAt, termAt,
      take_append_of_le_length (by omega), take_take, Nat.min_eq_left hbase]
  · rw [spliceAfter_base, spliceAfter_entries, hrep.entries, logIndex,
      drop_append_of_le_length (by omega), drop_take]

lemma compactAt {t : Nat} (hi : log.base.index ≤ i) (hlen : i ≤ l.length)
    (ht : t = termAt l i) : (log.compactAt i t (log.logIndex i)).Represents l := by
  refine ⟨hlen, ht, ?_, hrep.index⟩
  change log.entries.drop (i - log.base.index) = l.drop i
  rw [hrep.entries, drop_drop, Nat.add_sub_of_le hi]

end Represents

end

lemma Represents.sentinel {t : Nat} (hlen : l.length = i) (ht : t = termAt l i)
    (hindex : ∀ k (e : Entry), l[k]? = some e → e.index = k + 1) :
    Represents { base := { index := i, term := t, data := [] }, entries := [] } l :=
  ⟨le_of_eq hlen.symm, ht, by rw [drop_eq_nil_of_le (le_of_eq hlen)], hindex⟩

end Log

end stratum.kvraft
