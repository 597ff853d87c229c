import Stratum.Lib.Consensus.Lineage
import Stratum.Kvraft.ApplyFrame

open stratum.lib List

namespace stratum.kvraft

open Log

/-- Payloads by index and term, as the leaders of the terms made them. -/
abbrev EntryLineage := Lineage Bytes

/-- The entries on record behind an index and a term. -/
abbrev ChainedEntries (lineage : EntryLineage) (start t : Nat) (entries : List Entry) : Prop :=
  Lineage.Chained Entry.term Entry.data lineage start t entries

variable {i prev : Nat} {e : Entry}

namespace Log

/-- The log's entries are on record, in order behind its sentinel. -/
def Chained (lineage : EntryLineage) (log : Log) : Prop :=
  ChainedEntries lineage log.base.index log.base.term log.entries

/-- Two logs have the same term at every index up to `n` that both reach down to, and the
same entry where neither has its sentinel there. -/
def AgreesBelow (a b : Log) (n : Nat) : Prop :=
  ∀ i ≤ n, ∀ e f, a.logEntry i = some e → b.logEntry i = some f →
    e.term = f.term ∧ (a.base.index < i → b.base.index < i → e = f)

/-- Two logs have the same term at `n` or above, and agree below it. -/
def AgreesUpTo (a b : Log) (n : Nat) : Prop :=
  (∃ k e f, n ≤ k ∧ a.logEntry k = some e ∧ b.logEntry k = some f ∧ e.term = f.term) ∧
    a.AgreesBelow b n

/-- Two logs agree wherever both hold something. -/
def Agrees (a b : Log) : Prop := ∀ n, a.AgreesBelow b n

variable {lineage lineage' : EntryLineage} {log a b : Log}

lemma logEntry_base (log : Log) : log.logEntry log.base.index = some log.base := by
  rw [logEntry, if_neg (Nat.lt_irrefl _), logIndex, Nat.sub_self, getElem?_cons_zero]

lemma logEntry_above (hi : log.base.index < i) :
    log.logEntry i = log.entries[i - log.base.index - 1]? := by
  obtain ⟨j, rfl⟩ : ∃ j, i = log.base.index + (j + 1) := ⟨i - log.base.index - 1, by omega⟩
  rw [logEntry, if_neg (by omega), logIndex, Nat.add_sub_cancel_left, getElem?_cons_succ,
    Nat.add_sub_cancel]

lemma logEntry_range (he : log.logEntry i = some e) :
    log.base.index ≤ i ∧ i - log.base.index ≤ log.entries.length := by
  have hrange := (log.logEntry_isSome_iff i).mp (by rw [he]; rfl)
  rw [lastLogIndex_eq] at hrange
  omega

lemma exists_logEntry {j : Nat} (he : log.logEntry i = some e) (hj : log.base.index ≤ j)
    (hji : j ≤ i) : ∃ f, log.logEntry j = some f := by
  have hrange := (log.logEntry_isSome_iff i).mp (by rw [he]; rfl)
  exact Option.isSome_iff_exists.mp ((log.logEntry_isSome_iff j).mpr ⟨hj, by omega⟩)

lemma logEntry_term (he : log.logEntry i = some e) :
    e.term = Lineage.termBefore Entry.term log.base.term log.entries (i - log.base.index) := by
  obtain hlt | rfl := Nat.lt_or_eq_of_le (logEntry_range he).1
  · rw [logEntry_above hlt] at he
    have hterm := @Lineage.termBefore_succ _ Entry.term log.base.term _ _ _ he
    rw [Nat.sub_add_cancel (by omega)] at hterm
    exact hterm.symm
  · rw [logEntry_base] at he
    cases he
    rw [Nat.sub_self, Lineage.termBefore_zero]

lemma logEntry_push (e : Entry) (hi : i ≤ log.lastLogIndex) :
    (log.push e).logEntry i = log.logEntry i := by
  rw [lastLogIndex_eq] at hi
  rw [logEntry, logEntry, logIndex, logIndex, push_base, push_entries]
  split
  · rfl
  · rw [← cons_append, getElem?_append_left (by rw [length_cons]; omega)]

lemma logEntry_push_self (log : Log) (e : Entry) :
    (log.push e).logEntry (log.lastLogIndex + 1) = some e := by
  have hlow : (log.push e).base.index < log.lastLogIndex + 1 := by
    rw [push_base, lastLogIndex_eq]
    omega
  rw [logEntry_above hlow, push_base, push_entries, lastLogIndex_eq, Nat.add_assoc,
    Nat.add_sub_cancel_left, Nat.add_sub_cancel, getElem?_concat_length]

variable (entries : List Entry)

section

variable (hprev : log.base.index ≤ prev) (hlast : prev ≤ log.lastLogIndex)

include hprev hlast

lemma logEntry_spliceAfter_le (hi : i ≤ prev) :
    (log.spliceAfter (log.logIndex prev) entries).logEntry i = log.logEntry i := by
  rw [lastLogIndex_eq] at hlast
  obtain hlt | hle := Nat.lt_or_ge i log.base.index
  · rw [logEntry, logEntry, spliceAfter_base, if_pos hlt, if_pos hlt]
  obtain hlt | rfl := Nat.lt_or_eq_of_le hle
  · have hbase : (log.spliceAfter (log.logIndex prev) entries).base.index < i := hlt
    rw [logEntry_above hbase, logEntry_above hlt, spliceAfter_base, spliceAfter_entries, logIndex,
      getElem?_append_left (by rw [length_take]; omega),
      getElem?_take_of_lt (by omega)]
  · rw [logEntry_base]
    exact logEntry_base (log.spliceAfter (log.logIndex prev) entries)

lemma logEntry_spliceAfter_add (k : Nat) :
    (log.spliceAfter (log.logIndex prev) entries).logEntry (prev + k + 1) = entries[k]? := by
  rw [lastLogIndex_eq] at hlast
  have hbase : (log.spliceAfter (log.logIndex prev) entries).base.index < prev + k + 1 := by
    rw [spliceAfter_base]
    omega
  have hlength : (log.entries.take (log.logIndex prev)).length = prev - log.base.index := by
    rw [length_take, logIndex]
    omega
  rw [logEntry_above hbase, spliceAfter_base, spliceAfter_entries, getElem?_append_right (by omega)]
  congr 1
  omega

end

lemma logEntry_compactAt {j : Nat} (t : Nat) (hi : log.base.index ≤ i) (hj : i < j) :
    (log.compactAt i t (log.logIndex i)).logEntry j = log.logEntry j := by
  have hbase : (log.compactAt i t (log.logIndex i)).base.index < j := hj
  rw [logEntry_above hbase, logEntry_above (Nat.lt_of_le_of_lt hi hj)]
  change (log.entries.drop (i - log.base.index))[j - i - 1]? = _
  rw [getElem?_drop]
  congr 1
  omega

namespace Chained

lemma initial (lineage : EntryLineage) : initial.Chained lineage :=
  Lineage.Chained.nil lineage _ _

lemma mono (hlog : log.Chained lineage) (hext : Lineage.Extends lineage' lineage) :
    log.Chained lineage' :=
  Lineage.Chained.mono hlog hext

lemma push (hlog : log.Chained lineage)
    (he : lineage (log.lastLogIndex + 1) e.term = some (Lineage.termBefore Entry.term log.base.term
      log.entries log.entries.length, e.data)) : (log.push e).Chained lineage := by
  refine Lineage.Chained.append hlog fun k f hf => ?_
  obtain ⟨hk, rfl⟩ := List.getElem?_eq_some_iff.mp hf
  rw [List.length_singleton] at hk
  obtain rfl : k = 0 := by omega
  exact he

variable (hlog : log.Chained lineage)

include hlog

/-- Entries that stand behind the term the log has at `prev` may replace what follows it. -/
lemma spliceAfter {entries : List Entry} (he : log.logEntry prev = some e)
    (hentries : ChainedEntries lineage prev e.term entries) :
    (log.spliceAfter (log.logIndex prev) entries).Chained lineage := by
  obtain ⟨hbase, hlength⟩ := logEntry_range he
  have htake : (log.entries.take (log.logIndex prev)).length = prev - log.base.index := by
    rw [length_take, logIndex]
    omega
  refine Lineage.Chained.append (Lineage.Chained.take hlog _) ?_
  rw [htake, spliceAfter_base, logIndex, Lineage.termBefore_take (Nat.le_refl _),
    ← logEntry_term he, Nat.add_sub_of_le hbase]
  exact hentries

lemma compactAt (he : log.logEntry i = some e) :
    (log.compactAt i e.term (log.logIndex i)).Chained lineage := by
  obtain ⟨hbase, hlength⟩ := logEntry_range he
  have hdrop := Lineage.Chained.drop hlog hlength
  rw [← logEntry_term he, Nat.add_sub_of_le hbase] at hdrop
  exact hdrop

end Chained

lemma Agrees.refl (log : Log) : log.Agrees log := by
  intro n i hi e f he hf
  rw [he] at hf
  cases hf
  exact ⟨rfl, fun _ _ => rfl⟩

lemma Agrees.symm (hagrees : a.Agrees b) : b.Agrees a := by
  intro n i hi e f he hf
  obtain ⟨hterm, hsame⟩ := hagrees n i hi f e hf he
  exact ⟨hterm.symm, fun hb ha => (hsame ha hb).symm⟩

/-- Two logs of one record that have the same term at an index agree below it. -/
lemma Chained.agreesBelow (ha : a.Chained lineage) (hb : b.Chained lineage) (hia : a.Indexed)
    (hib : b.Indexed) {n : Nat} {f : Entry} (he : a.logEntry n = some e)
    (hf : b.logEntry n = some f) (hterm : e.term = f.term) : a.AgreesBelow b n := by
  have hra := logEntry_range he
  have hrb := logEntry_range hf
  rw [logEntry_term he, logEntry_term hf] at hterm
  intro i hi e' f' he' hf'
  have hra' := logEntry_range he'
  have hrb' := logEntry_range hf'
  have hbelow := Lineage.Chained.termBefore_eq ha hb hra.2 hrb.2 (by omega) hterm (d := n - i)
    (by omega) (by omega)
  rw [show n - a.base.index - (n - i) = i - a.base.index by omega,
    show n - b.base.index - (n - i) = i - b.base.index by omega, ← logEntry_term he',
    ← logEntry_term hf'] at hbelow
  refine ⟨hbelow, fun hlta hltb => ?_⟩
  have hindex : e'.index = f'.index := by rw [hia.logEntry he', hib.logEntry hf']
  rw [logEntry_above hlta] at he'
  rw [logEntry_above hltb] at hf'
  have hdata := (Lineage.Chained.agree_at ha hb he' hf' (by omega) hbelow).2
  cases e'
  cases f'
  cases hindex
  cases hbelow
  cases hdata
  rfl

end Log

/-- A call whose previous entry and whose entries are a stretch of the log. -/
structure AppendEntriesRequest.DrawnFrom (req : AppendEntriesRequest) (log : Log) : Prop where
  prev : ∃ e, log.logEntry req.prevLogIndex = some e ∧ e.term = req.prevLogTerm
  entries : req.entries = [] ∨ req.entries = log.entries.drop (log.logIndex req.prevLogIndex)

namespace AppendEntriesRequest.DrawnFrom

variable {lineage : EntryLineage} {log : Log} {req : AppendEntriesRequest}
  (hreq : req.DrawnFrom log)

include hreq

lemma chained (hlog : log.Chained lineage) :
    ChainedEntries lineage req.prevLogIndex req.prevLogTerm req.entries := by
  obtain ⟨⟨e, he, hterm⟩, hnone | hrest⟩ := hreq
  · rw [hnone]
    exact .nil lineage _ _
  obtain ⟨hbase, hlength⟩ := logEntry_range he
  have hdrop := Lineage.Chained.drop hlog hlength
  rw [← logEntry_term he, Nat.add_sub_of_le hbase, hterm] at hdrop
  rw [hrest]
  exact hdrop

lemma logEntry {k : Nat} (he : req.entries[k]? = some e) :
    log.base.index < req.prevLogIndex + k + 1 ∧
      log.logEntry (req.prevLogIndex + k + 1) = some e := by
  obtain ⟨⟨prev, hprev, -⟩, hentries⟩ := hreq
  have hbase := (logEntry_range hprev).1
  refine ⟨by omega, ?_⟩
  obtain hnone | hrest := hentries
  · rw [hnone] at he
    cases he
  rw [hrest, getElem?_drop, logIndex] at he
  rw [logEntry_above (by omega), ← he]
  congr 1
  omega

lemma last : ∃ e, log.logEntry (req.prevLogIndex + req.entries.length) = some e ∧
      e.term = Lineage.termBefore Entry.term req.prevLogTerm req.entries req.entries.length := by
  cases hlength : req.entries.length with
  | zero =>
    obtain ⟨⟨e, he, hterm⟩, -⟩ := hreq
    exact ⟨e, he, hterm⟩
  | succ k =>
    obtain ⟨f, hf⟩ : ∃ f, req.entries[k]? = some f := ⟨_, getElem?_eq_getElem (by omega)⟩
    exact ⟨f, (hreq.logEntry hf).2, (Lineage.termBefore_succ hf).symm⟩

end AppendEntriesRequest.DrawnFrom

/-- A leader's call is drawn from its own log, with its term and its commit index. -/
lemma Raft.replicateToPeer_call {σ : Type} {rf rf' : Raft σ} {p : NodeId} {r : Replication}
    {req : AppendEntriesRequest} (hindexed : rf.log.Indexed) (hleader : rf.state = .leader)
    (hround : rf.replicateToPeer p = some (rf', r)) (hr : r = .heartbeat req ∨ r = .append req) :
    req.DrawnFrom rf.log ∧ req.term = rf.term ∧ req.leaderId = rf.me ∧
      req.leaderCommit = rf.lastCommitIndex := by
  obtain ⟨-, rfl⟩ | ⟨-, rfl⟩ | ⟨next, call, hnext, hcall, -, rfl⟩ :=
    replicateToPeer_spec hleader hround
  · obtain hr | hr := hr
    · cases hr
      exact ⟨⟨⟨_, rf.log.logEntry_base, rfl⟩, .inl rfl⟩, rfl, rfl, rfl⟩
    · cases hr
  · obtain hr | hr := hr
    all_goals cases hr
  obtain hr | hr := hr
  · cases hr
  cases hr
  simp only [appendRequest, Option.map_eq_some_iff] at hcall
  obtain ⟨prev, hprev, rfl⟩ := hcall
  have hindex := hindexed.logEntry hprev
  refine ⟨⟨⟨prev, ?_, rfl⟩, .inr ?_⟩, rfl, rfl, rfl⟩
  · rw [hindex]
    exact hprev
  obtain ⟨k, rfl⟩ : ∃ k, next = rf.log.base.index + k + 1 :=
    ⟨next - rf.log.base.index - 1, by omega⟩
  rw [hindex, logIndex, logIndex, Nat.add_assoc, Nat.add_sub_cancel_left,
    drop_succ_cons, ← Nat.add_assoc, Nat.add_sub_cancel, Nat.add_sub_cancel_left]

end stratum.kvraft
