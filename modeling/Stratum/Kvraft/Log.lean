import Mathlib.Data.List.Basic

namespace stratum.kvraft

/-- Node identifiers. The source's reserved value `-1` ("none", "unknown") is the
absence of an identifier. -/
abbrev NodeId := Nat

abbrev Bytes := List UInt8

/-- A log entry as it is stored, persisted and sent to peers. -/
structure Entry where
  index : Nat
  term : Nat
  data : Bytes
deriving DecidableEq

/-- The in-memory log. Snapshotting replaces a prefix by the sentinel `base`, so the
slice the source holds is `base :: entries` and is never empty. -/
structure Log where
  base : Entry
  entries : List Entry
deriving DecidableEq

namespace Log

/-- The log a node starts with before anything was persisted. -/
def initial : Log := { base := { index := 0, term := 0, data := [] }, entries := [] }

def length (log : Log) : Nat := log.entries.length + 1

/-- The offset of a global index into the slice; meaningful from the base on. -/
def logIndex (log : Log) (globalIndex : Nat) : Nat := globalIndex - log.base.index

/-- The entry at a global index; `none` is the out-of-range panic of the slice access. -/
def logEntry (log : Log) (globalIndex : Nat) : Option Entry :=
  if globalIndex < log.base.index then none
  else (log.base :: log.entries)[log.logIndex globalIndex]?

def lastLogIndex (log : Log) : Nat := log.base.index + log.length - 1

def lastLogTerm (log : Log) : Nat := (log.entries.getLast?.getD log.base).term

def push (log : Log) (entry : Entry) : Log := { log with entries := log.entries ++ [entry] }

/-- `append(rf.log[:localIdx+1], entries...)`. -/
def spliceAfter (log : Log) (localIdx : Nat) (entries : List Entry) : Log :=
  { log with entries := log.entries.take localIdx ++ entries }

/-- The log with everything up to the slice offset `offset` replaced by a sentinel for
`index`: `[{index, term}] ++ rf.log[offset+1:]`. -/
def compactAt (log : Log) (index term offset : Nat) : Log :=
  { base := { index, term, data := [] }, entries := log.entries.drop offset }

/-- The walk of a rejected consistency check back to the first index of the
conflicting term, stopping above the base. -/
def conflictStart (log : Log) (conflictTerm : Nat) : Nat → Nat
  | 0 => 0
  | conflictIndex + 1 =>
    if log.base.index + 1 < conflictIndex + 1 ∧
        (log.logEntry conflictIndex).map Entry.term = some conflictTerm then
      log.conflictStart conflictTerm conflictIndex
    else conflictIndex + 1

/-- The last slice offset from 1 on that holds an entry of `term`. -/
def lastOfTerm (log : Log) (term : Nat) : Option Entry :=
  log.entries.reverse.find? fun entry => entry.term == term

variable (log : Log)

@[simp] lemma lastLogIndex_eq : log.lastLogIndex = log.base.index + log.entries.length := by
  simp only [lastLogIndex, length]
  omega

variable (entry : Entry)

@[simp] lemma push_base : (log.push entry).base = log.base := rfl

@[simp] lemma push_entries : (log.push entry).entries = log.entries ++ [entry] := rfl

variable (localIdx : Nat) (entries : List Entry)

@[simp] lemma spliceAfter_base : (log.spliceAfter localIdx entries).base = log.base := rfl

@[simp] lemma spliceAfter_entries :
    (log.spliceAfter localIdx entries).entries = log.entries.take localIdx ++ entries := rfl

lemma logEntry_isSome_iff (globalIndex : Nat) : (log.logEntry globalIndex).isSome ↔
      log.base.index ≤ globalIndex ∧ globalIndex ≤ log.lastLogIndex := by
  unfold logEntry logIndex
  split
  · simp only [Option.isSome_none, Bool.false_eq_true, false_iff]
    omega
  simp only [Option.isSome_iff_ne_none, ne_eq, List.getElem?_eq_none_iff, List.length_cons,
    lastLogIndex_eq]
  omega

end Log

end stratum.kvraft
