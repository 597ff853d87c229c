import Stratum.Wal.DeleteByKB

namespace stratum.wal

/-! Group commit: callers append under `mu` and then wait, with `mu` released, for an fsync
that one of them issues for all; `Compact` and `DeleteByKB` replace the file meanwhile. A
state is what the two mutexes guard, and a move is one critical section or one call to the
file system between two of them. -/

/-- A rewrite of the log. `order` is the order in which the map of the waiting BEGIN records
is ranged over. -/
inductive Job
  | compact (keepThrough : Bytes → Option Int64) (order : List RawRecord → List RawRecord)
  | deleteByKB (kbID : Bytes)

/-- The records of the file that is written beside the log. -/
def Job.rewritten (w : FileWAL) (records : List RawRecord) : Job → List RawRecord
  | .compact keepThrough order =>
    let s := w.rewrite keepThrough records
    s.out ++ order (s.pending.entries.map Sigma.snd)
  | .deleteByKB kbID => records.filter fun raw => !w.drops kbID raw

/-- The log once that file has been adopted. -/
def Job.adopted (w : FileWAL) (records : List RawRecord) : Job → FileWAL
  | .compact keepThrough order => w.compacted keepThrough order records
  | .deleteByKB kbID => w.withoutKB kbID records

inductive FsyncError
  | device
  | closed
deriving DecidableEq

/-- A round between the leader's two critical sections. `result` is what the fsync returned,
`some none` being its success. -/
structure Round where
  file : Nat
  target : Nat
  result : Option (Option FsyncError) := none
deriving DecidableEq

/-- How far a rewrite, which holds `mu` throughout, has come. -/
inductive Swap
  /-- The new file is written and synced. -/
  | rewritten (next : FileWAL) (records : List RawRecord)
  /-- No round was in flight. -/
  | drained (next : FileWAL) (records : List RawRecord)
  /-- The handle of the log is closed. -/
  | closed (next : FileWAL) (records : List RawRecord)
  | renamed (next : FileWAL)
  | renameFailed

/-- A log that is written by many callers. Handles are numbered in the order in which they
were opened. -/
structure GroupCommit where
  /-- The file that the path names, and the index in memory. -/
  fileWAL : FileWAL := {}
  /-- `w.file`. -/
  file : Nat := 0
  isOpen : Bool := true
  broken : Bool := false
  swap : Option Swap := none
  appendedSeq : Nat := 0
  syncFor : Nat := 0
  round : Option Round := none
  durableSeq : Nat := 0
  syncErr : Option FsyncError := none
  /-- The callers that have appended and not returned. -/
  waiting : List Nat := []
  /-- The callers whose records the file that the path names holds, with their bytes. -/
  written : List (Nat × RawRecord) := []
  /-- How many of these an fsync that succeeded has covered. -/
  synced : Nat := 0

namespace GroupCommit

/-! ### Callers -/

/-- A `Write*` call up to the release of `mu`. It appends nothing to a broken log, on a closed
handle, or when the log already has the record. -/
def write (s : GroupCommit) (call : Record) : Option GroupCommit :=
  if s.swap.isSome then none
  else if s.broken || s.fileWAL.recorded call || !s.isOpen then some s
  else
    some { s with
      fileWAL := s.fileWAL.write call
      appendedSeq := s.appendedSeq + 1
      waiting := (s.appendedSeq + 1) :: s.waiting
      written := s.written ++ [(s.appendedSeq + 1, call.raw)] }

/-- A call whose bytes could not all be written and were cut off again; the fsync after that
covers the whole file, or its failure breaks the log. -/
def rollBack (s : GroupCommit) (ok : Bool) : Option GroupCommit :=
  if s.swap.isSome || s.broken || !s.isOpen then none
  else if ok then some { s with synced := s.written.length }
  else some { s with broken := true }

/-- A call whose bytes could not all be written nor be cut off. -/
def tear (s : GroupCommit) (call : Record) (n : Nat) : Option GroupCommit :=
  if s.swap.isSome || s.broken || !s.isOpen then none
  else
    some { s with
      fileWAL := { s.fileWAL with file := s.fileWAL.file ++ call.frame.take n }
      broken := true }

/-- What `awaitDurable` returns when it looks now: an error, success, or nothing while the
caller has to wait or to lead a round. -/
def awaitDurable (s : GroupCommit) (seq : Nat) : Option (Option FsyncError) :=
  match s.syncErr with
  | some err => some (some err)
  | none => if seq ≤ s.durableSeq then some none else none

def lead (s : GroupCommit) (seq : Nat) : Option GroupCommit :=
  if seq ∈ s.waiting ∧ s.awaitDurable seq = none ∧ s.round = none then
    some { s with round := some { file := s.syncFor, target := s.appendedSeq } }
  else none

/-- The fsync of a round. It covers the file of its handle, if that is open. -/
def fsync (s : GroupCommit) (ok : Bool) : Option GroupCommit :=
  match s.round with
  | some ⟨file, target, none⟩ =>
    if ¬ (file = s.file ∧ s.isOpen) then
      some { s with round := some ⟨file, target, some (some .closed)⟩ }
    else if ok then
      some { s with round := some ⟨file, target, some none⟩, synced := s.written.length }
    else some { s with round := some ⟨file, target, some (some .device)⟩ }
  | _ => none

/-- The leader records the outcome of its round, unless the file was replaced meanwhile. -/
def finish (s : GroupCommit) : Option GroupCommit :=
  match s.round with
  | some ⟨file, target, some result⟩ =>
    let s := { s with round := none }
    if s.syncFor ≠ file then some s
    else
      match result with
      | some err => some { s with syncErr := some err }
      | none => some { s with durableSeq := max s.durableSeq target }
  | _ => none

/-- `awaitDurable` returns to a caller; an error goes through `markBroken`, which takes
`mu`. -/
def ret (s : GroupCommit) (seq : Nat) : Option GroupCommit :=
  if seq ∉ s.waiting then none
  else
    match s.awaitDurable seq with
    | none => none
    | some none => some { s with waiting := s.waiting.erase seq }
    | some (some _) =>
      if s.swap.isSome then none
      else some { s with waiting := s.waiting.erase seq, broken := true }

/-! ### Rewrites -/

/-- A rewrite takes `mu`, reads the log and writes and syncs the new file. -/
def start (s : GroupCommit) (job : Job) : Option GroupCommit :=
  if s.swap.isSome then none
  else
    match readLog s.fileWAL.file with
    | .error _ => some s
    | .ok scan =>
      some { s with
        swap := some (.rewritten (job.adopted s.fileWAL scan.records)
          (job.rewritten s.fileWAL scan.records)) }

/-- The rewrite fails before it touches the log. -/
def abandon (s : GroupCommit) : Option GroupCommit :=
  match s.swap with
  | some (.rewritten ..) => some { s with swap := none }
  | _ => none

def drain (s : GroupCommit) : Option GroupCommit :=
  match s.swap, s.round with
  | some (.rewritten next records), none => some { s with swap := some (.drained next records) }
  | _, _ => none

/-- The handle is closed, also when `Close` returns an error; so it does for a handle that was
closed before. -/
def close (s : GroupCommit) (ok : Bool) : Option GroupCommit :=
  match s.swap with
  | some (.drained next records) =>
    if s.isOpen && ok then some { s with isOpen := false, swap := some (.closed next records) }
    else some { s with isOpen := false, swap := none }
  | _ => none

def kept (s : GroupCommit) (records : List RawRecord) : List (Nat × RawRecord) :=
  s.written.filter fun entry => entry.2 ∈ records

/-- The path comes to name the new file, which was synced as a whole. -/
def rename (s : GroupCommit) (ok : Bool) : Option GroupCommit :=
  match s.swap with
  | some (.closed next records) =>
    if ok then
      some { s with
        fileWAL := { s.fileWAL with file := next.file }
        written := s.kept records
        synced := (s.kept records).length
        swap := some (.renamed next) }
    else some { s with swap := some .renameFailed }
  | _ => none

/-- `w.file = f` and `adoptFileLocked`, for a handle that was just opened. -/
def adoptFile (s : GroupCommit) : GroupCommit :=
  { s with
    file := s.file + 1
    isOpen := true
    syncFor := s.file + 1
    durableSeq := max s.durableSeq s.appendedSeq
    swap := none }

/-- The path is opened again, whether or not the rename went through, and the file adopted. -/
def reopen (s : GroupCommit) (ok : Bool) : Option GroupCommit :=
  match s.swap with
  | some (.renamed next) =>
    if ok then some { s.adoptFile with fileWAL := next } else some { s with swap := none }
  | some .renameFailed => if ok then some s.adoptFile else some { s with swap := none }
  | _ => none

def shutdown (s : GroupCommit) : Option GroupCommit :=
  if s.swap.isSome || s.round.isSome then none else some { s with isOpen := false }

/-! ### Runs -/

inductive Move
  | write (call : Record)
  | rollBack (ok : Bool)
  | tear (call : Record) (n : Nat)
  | lead (seq : Nat)
  | fsync (ok : Bool)
  | finish
  | ret (seq : Nat)
  | start (job : Job)
  | abandon
  | drain
  | close (ok : Bool)
  | rename (ok : Bool)
  | reopen (ok : Bool)
  | shutdown

def step (s : GroupCommit) : Move → Option GroupCommit
  | .write call => s.write call
  | .rollBack ok => s.rollBack ok
  | .tear call n => s.tear call n
  | .lead seq => s.lead seq
  | .fsync ok => s.fsync ok
  | .finish => s.finish
  | .ret seq => s.ret seq
  | .start job => s.start job
  | .abandon => s.abandon
  | .drain => s.drain
  | .close ok => s.close ok
  | .rename ok => s.rename ok
  | .reopen ok => s.reopen ok
  | .shutdown => s.shutdown

end GroupCommit

end stratum.wal
