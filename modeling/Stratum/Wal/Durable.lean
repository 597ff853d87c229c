import Stratum.Wal.GroupCommit

open stratum.lib List

namespace stratum.wal.GroupCommit

/-! What a caller that `awaitDurable` lets go can rely on. -/

/-- The file that is the log holds the caller's record. -/
def InLog (s : GroupCommit) (seq : Nat) : Prop := seq ∈ s.written.map Prod.fst
  deriving Decidable

/-- An fsync of the file that is the log has succeeded and covered the caller's record. -/
def Covered (s : GroupCommit) (seq : Nat) : Prop := seq ∈ (s.written.take s.synced).map Prod.fst
  deriving Decidable

/-- No caller that would be told of success now has a record that is not covered. -/
def Acknowledged (s : GroupCommit) : Prop :=
  ∀ seq ∈ s.waiting, s.awaitDurable seq = some none → s.Covered seq

/-- A round that succeeded is published while the log still holds the records it answers for,
also when the file was renamed over since its fsync. -/
def FinishSafe (s : GroupCommit) : Option Round → Prop
  | some ⟨file, target, some none⟩ =>
    s.syncErr = none → s.syncFor = file → ∀ seq ∈ s.waiting, seq ≤ target → s.InLog seq
  | _ => True

/-- The new file has the records of the callers that have been promised durability. -/
def RenameSafe (s : GroupCommit) : Option Swap → Prop
  | some (.closed _ records) =>
    s.syncErr = none → ∀ seq ∈ s.waiting, seq ≤ s.durableSeq → seq ∈ (s.kept records).map Prod.fst
  | _ => True

/-- When a file is adopted, a new one has the records of all callers that wait, and the old
one has been synced for all of them. -/
def AdoptSafe (s : GroupCommit) : Option Swap → Prop
  | some (.renamed _) => s.syncErr = none → ∀ seq ∈ s.waiting, s.InLog seq
  | some .renameFailed => s.syncErr = none → ∀ seq ∈ s.waiting, s.Covered seq
  | _ => True

def Safe (s : GroupCommit) : Move → Prop
  | .finish => s.FinishSafe s.round
  | .rename true => s.RenameSafe s.swap
  | .reopen true => s.AdoptSafe s.swap
  | _ => True

instance (s : GroupCommit) : (round : Option Round) → Decidable (s.FinishSafe round)
  | some ⟨_, _, some none⟩ => inferInstanceAs (Decidable (_ → _))
  | none | some ⟨_, _, none⟩ | some ⟨_, _, some (some _)⟩ => isTrue trivial

instance (s : GroupCommit) : (swap : Option Swap) → Decidable (s.RenameSafe swap)
  | some (.closed _ _) => inferInstanceAs (Decidable (_ → _))
  | none | some (.rewritten _ _) | some (.drained _ _) | some (.renamed _)
  | some .renameFailed => isTrue trivial

instance (s : GroupCommit) : (swap : Option Swap) → Decidable (s.AdoptSafe swap)
  | some (.renamed _) => inferInstanceAs (Decidable (_ → _))
  | some .renameFailed => inferInstanceAs (Decidable (_ → _))
  | none | some (.rewritten _ _) | some (.drained _ _) | some (.closed _ _) => isTrue trivial

instance (s : GroupCommit) : (m : Move) → Decidable (s.Safe m)
  | .finish => inferInstanceAs (Decidable (s.FinishSafe s.round))
  | .rename true => inferInstanceAs (Decidable (s.RenameSafe s.swap))
  | .reopen true => inferInstanceAs (Decidable (s.AdoptSafe s.swap))
  | .write _ | .rollBack _ | .tear _ _ | .lead _ | .fsync _ | .ret _ | .start _ | .abandon
  | .drain | .close _ | .rename false | .reopen false | .shutdown => isTrue trivial

variable {s s' : GroupCommit} {seq : Nat} {m : Move}

lemma awaitDurable_eq_success :
    s.awaitDurable seq = some none ↔ s.syncErr = none ∧ seq ≤ s.durableSeq := by
  unfold awaitDurable
  cases s.syncErr with
  | some | none => simp

lemma acknowledged_iff : s.Acknowledged ↔
      (s.syncErr = none → ∀ seq ∈ s.waiting, seq ≤ s.durableSeq → s.Covered seq) := by
  simp only [Acknowledged, awaitDurable_eq_success]
  exact ⟨fun h herr seq hseq hle => h seq hseq ⟨herr, hle⟩,
    fun h seq hseq hboth => h hboth.1 seq hseq hboth.2⟩

lemma Covered.inLog (h : s.Covered seq) : s.InLog seq := by
  obtain ⟨entry, hentry, hseq⟩ := mem_map.mp h
  exact mem_map.mpr ⟨entry, mem_of_mem_take hentry, hseq⟩

lemma covered_of_synced (hall : s.synced = s.written.length) (hin : s.InLog seq) :
    s.Covered seq := by
  rw [Covered, hall, take_length]
  exact hin

lemma Covered.append (h : s.Covered seq) (tail : List (Nat × RawRecord)) :
    seq ∈ ((s.written ++ tail).take s.synced).map Prod.fst := by
  rw [take_append, map_append]
  exact mem_append_left _ h

/-! ### What a move does -/

/-- A move that answers no caller and leaves the records and what covers them alone. -/
structure Quiet (s s' : GroupCommit) : Prop where
  waiting : ∀ seq ∈ s'.waiting, seq ∈ s.waiting
  appendedSeq : s'.appendedSeq = s.appendedSeq
  durableSeq : s'.durableSeq = s.durableSeq
  syncErr : s'.syncErr = none → s.syncErr = none
  written : s'.written = s.written
  synced : s'.synced = s.synced
  round : ∀ round, s'.round = some round →
    s.round = some round ∨ round.target = s.appendedSeq ∧ round.result = none ∨
      round.result ≠ some none ∧ ∃ before, s.round = some before ∧ round.target = before.target
  swap : ∀ next, s'.swap = some (.renamed next) → s.swap = some (.renamed next)

inductive Effect (s : GroupCommit) : Move → GroupCommit → Prop
  | quiet {m : Move} {s' : GroupCommit} (hsafe : s.Safe m) (h : Quiet s s') : Effect s m s'
  | append (call : Record) (hswap : s.swap = none) : Effect s (.write call)
      { s with
        fileWAL := s.fileWAL.write call
        appendedSeq := s.appendedSeq + 1
        waiting := (s.appendedSeq + 1) :: s.waiting
        written := s.written ++ [(s.appendedSeq + 1, call.raw)] }
  | cover {m : Move} (hsafe : s.Safe m) (round : Option Round)
      (hround : ∀ rd, round = some rd → ∃ before, s.round = some before ∧ rd.target = before.target) :
      Effect s m { s with round, synced := s.written.length }
  | publish (target : Nat) (hround : s.round = some ⟨s.syncFor, target, some none⟩) :
      Effect s .finish { s with round := none, durableSeq := max s.durableSeq target }
  | rename (next : FileWAL) (records : List RawRecord) (hswap : s.swap = some (.closed next records)) :
      Effect s (.rename true)
        { s with
          fileWAL := { s.fileWAL with file := next.file }
          written := s.kept records
          synced := (s.kept records).length
          swap := some (.renamed next) }
  | adoptNew (next : FileWAL) (hswap : s.swap = some (.renamed next)) :
      Effect s (.reopen true) { s.adoptFile with fileWAL := next }
  | adoptOld (hswap : s.swap = some .renameFailed) : Effect s (.reopen true) s.adoptFile

lemma Quiet.refl (s : GroupCommit) : Quiet s s where
  waiting _ hseq := hseq
  appendedSeq := rfl
  durableSeq := rfl
  syncErr := id
  written := rfl
  synced := rfl
  round _ hround := .inl hround
  swap _ hnext := hnext

lemma Quiet.swapping (s : GroupCommit) (isOpen : Bool) {swap : Option Swap}
    (hswap : ∀ next, swap ≠ some (.renamed next)) : Quiet s { s with isOpen, swap } :=
  { Quiet.refl s with swap := fun next hnext => absurd hnext (hswap next) }

lemma Quiet.leaving (s : GroupCommit) (broken : Bool) (seq : Nat) :
    Quiet s { s with broken, waiting := s.waiting.erase seq } :=
  { Quiet.refl s with waiting := fun _ hseq => mem_of_mem_erase hseq }

lemma Quiet.round_failed {before : Round} (hround : s.round = some before) (file : Nat)
    (err : FsyncError) :
    Quiet s { s with round := some ⟨file, before.target, some (some err)⟩ } := by
  refine { Quiet.refl s with round := ?_ }
  rintro round hr
  cases hr
  exact .inr (.inr ⟨by simp, before, hround, rfl⟩)

lemma Quiet.round_over (s : GroupCommit) : Quiet s { s with round := none } := by
  refine { Quiet.refl s with round := ?_ }
  rintro round hr
  cases hr

lemma write_effect {call : Record} (hstep : s.write call = some s') :
    Effect s (.write call) s' := by
  simp only [write] at hstep
  split at hstep
  · cases hstep
  next hfree =>
  split at hstep
  · cases hstep
    exact .quiet trivial (.refl s)
  · cases hstep
    exact .append call (Option.not_isSome_iff_eq_none.mp hfree)

lemma rollBack_effect {ok : Bool} (hstep : s.rollBack ok = some s') :
    Effect s (.rollBack ok) s' := by
  simp only [rollBack] at hstep
  split at hstep
  · cases hstep
  split at hstep
  · cases hstep
    exact .cover (m := .rollBack ok) trivial s.round fun rd hrd => ⟨rd, hrd, rfl⟩
  · cases hstep
    exact .quiet trivial { Quiet.refl s with }

lemma fsync_effect {ok : Bool} (hstep : s.fsync ok = some s') :
    Effect s (.fsync ok) s' := by
  simp only [fsync] at hstep
  split at hstep
  next file target hround =>
    split at hstep
    · cases hstep
      exact .quiet trivial (.round_failed hround file .closed)
    split at hstep
    · cases hstep
      refine .cover (m := .fsync ok) trivial _ fun rd hrd => ?_
      cases hrd
      exact ⟨_, hround, rfl⟩
    · cases hstep
      exact .quiet trivial (.round_failed hround file .device)
  · cases hstep

lemma finish_effect (hstep : s.finish = some s') :
    Effect s .finish s' := by
  simp only [finish] at hstep
  split at hstep
  next file target result hround =>
    split at hstep
    next hswapped =>
      cases hstep
      refine .quiet ?_ (.round_over s)
      rw [Safe, hround]
      cases result with
      | some err => trivial
      | none => exact fun _ hsame => absurd hsame hswapped
    next hsame =>
    split at hstep
    next err =>
      cases hstep
      refine .quiet ?_ { Quiet.round_over s with syncErr := ?_ }
      · rw [Safe, hround]
        trivial
      · exact nofun
    · cases hstep
      rw [not_not] at hsame
      exact .publish target (hsame ▸ hround)
  · cases hstep

lemma ret_effect {seq : Nat} (hstep : s.ret seq = some s') :
    Effect s (.ret seq) s' := by
  simp only [ret] at hstep
  split at hstep
  · cases hstep
  split at hstep
  · cases hstep
  · cases hstep
    exact .quiet trivial (.leaving s _ seq)
  split at hstep
  · cases hstep
  · cases hstep
    exact .quiet trivial (.leaving s _ seq)

lemma close_effect {ok : Bool} (hstep : s.close ok = some s') :
    Effect s (.close ok) s' := by
  simp only [close] at hstep
  split at hstep
  · split at hstep
    · cases hstep
      exact .quiet trivial (.swapping s _ (by simp))
    · cases hstep
      exact .quiet trivial (.swapping s _ (by simp))
  · cases hstep

lemma rename_effect {ok : Bool} (hstep : s.rename ok = some s') :
    Effect s (.rename ok) s' := by
  simp only [rename] at hstep
  split at hstep
  next next records hswap =>
    cases ok with
    | true =>
      cases hstep
      exact .rename next records hswap
    | false =>
      cases hstep
      exact .quiet trivial (.swapping s _ (by simp))
  · cases hstep

lemma reopen_effect {ok : Bool} (hstep : s.reopen ok = some s') :
    Effect s (.reopen ok) s' := by
  simp only [reopen] at hstep
  split at hstep
  next next hswap =>
    cases ok with
    | true =>
      cases hstep
      exact .adoptNew next hswap
    | false =>
      cases hstep
      exact .quiet trivial (.swapping s _ (by simp))
  next hswap =>
    cases ok with
    | true =>
      cases hstep
      exact .adoptOld hswap
    | false =>
      cases hstep
      exact .quiet trivial (.swapping s _ (by simp))
  · cases hstep

lemma step_effect (hstep : s.step m = some s') : Effect s m s' := by
  cases m with
  | write call => exact write_effect hstep
  | rollBack ok => exact rollBack_effect hstep
  | tear call n =>
    simp only [step, tear] at hstep
    split at hstep
    · cases hstep
    · cases hstep
      exact .quiet trivial { Quiet.refl s with }
  | lead seq =>
    simp only [step, lead] at hstep
    split at hstep
    · cases hstep
      refine .quiet trivial { Quiet.refl s with round := ?_ }
      rintro round hround
      cases hround
      exact .inr (.inl ⟨rfl, rfl⟩)
    · cases hstep
  | fsync ok => exact fsync_effect hstep
  | finish => exact finish_effect hstep
  | ret seq => exact ret_effect hstep
  | start job =>
    simp only [step, start] at hstep
    split at hstep
    · cases hstep
    split at hstep
    · cases hstep
      exact .quiet trivial (.refl s)
    · cases hstep
      exact .quiet trivial (.swapping s _ (by simp))
  | abandon =>
    simp only [step, abandon] at hstep
    split at hstep
    · cases hstep
      exact .quiet trivial (.swapping s _ (by simp))
    · cases hstep
  | drain =>
    simp only [step, drain] at hstep
    split at hstep
    · cases hstep
      exact .quiet trivial (.swapping s _ (by simp))
    · cases hstep
  | close ok => exact close_effect hstep
  | rename ok => exact rename_effect hstep
  | reopen ok => exact reopen_effect hstep
  | shutdown =>
    simp only [step, shutdown] at hstep
    split at hstep
    · cases hstep
    · cases hstep
      exact .quiet trivial { Quiet.refl s with }

/-! ### Runs -/

/-- What every move keeps, safe or not: the counters bound one another, and what a round that
succeeded answers for is covered as far as the log still holds it. -/
structure Books (s : GroupCommit) : Prop where
  waiting : ∀ seq ∈ s.waiting, seq ≤ s.appendedSeq
  durable : s.durableSeq ≤ s.appendedSeq
  target : ∀ round, s.round = some round → round.target ≤ s.appendedSeq
  round : ∀ round, s.round = some round → round.result = some none →
    ∀ seq ≤ round.target, s.InLog seq → s.Covered seq
  renamed : ∀ next, s.swap = some (.renamed next) → s.synced = s.written.length

lemma Books.opened (w : FileWAL) : Books { fileWAL := w } where
  waiting _ hseq := absurd hseq not_mem_nil
  durable := le_refl 0
  target _ hround := by cases hround
  round _ hround := by cases hround
  renamed _ hswap := by cases hswap

lemma Quiet.covered (h : Quiet s s') : s'.Covered seq ↔ s.Covered seq := by
  rw [Covered, Covered, h.written, h.synced]

lemma Quiet.books (h : Quiet s s') (hbooks : Books s) : Books s' where
  waiting seq hseq := h.appendedSeq ▸ hbooks.waiting seq (h.waiting seq hseq)
  durable := by
    rw [h.durableSeq, h.appendedSeq]
    exact hbooks.durable
  target round hround := by
    rw [h.appendedSeq]
    rcases h.round round hround with hold | ⟨htarget, -⟩ | ⟨-, before, hold, htarget⟩
    · exact hbooks.target round hold
    · exact le_of_eq htarget
    · exact htarget ▸ hbooks.target before hold
  round round hround hresult seq hle hin := by
    rw [h.covered]
    rw [InLog, h.written] at hin
    rcases h.round round hround with hold | ⟨-, hnone⟩ | ⟨hfailed, -⟩
    · exact hbooks.round round hold hresult seq hle hin
    · rw [hnone] at hresult
      cases hresult
    · exact absurd hresult hfailed
  renamed next hnext := by
    rw [h.synced, h.written]
    exact hbooks.renamed next (h.swap next hnext)

lemma Books.step (hbooks : Books s) (hstep : s.step m = some s') : Books s' := by
  cases step_effect hstep with
  | quiet hsafe h => exact h.books hbooks
  | append call hswap =>
    refine ⟨?_, Nat.le_succ_of_le hbooks.durable, fun round hround =>
      Nat.le_succ_of_le (hbooks.target round hround), ?_, ?_⟩
    · rintro seq (_ | ⟨_, hseq⟩)
      · exact le_rfl
      · exact Nat.le_succ_of_le (hbooks.waiting seq hseq)
    · intro round hround hresult seq hle hin
      have htarget := hbooks.target round hround
      rw [InLog, map_append, mem_append] at hin
      rcases hin with hold | hnew
      · have hcovered := hbooks.round round hround hresult seq hle hold
        exact hcovered.append _
      · rw [map_singleton, mem_singleton] at hnew
        omega
    · intro next hnext
      rw [show s.swap = some (.renamed next) from hnext] at hswap
      cases hswap
  | cover hsafe round hround =>
    refine ⟨hbooks.waiting, hbooks.durable, fun rd hrd => ?_, fun _ _ _ seq _ hin => ?_,
      fun _ _ => rfl⟩
    · obtain ⟨before, hbefore, htarget⟩ := hround rd hrd
      exact htarget ▸ hbooks.target before hbefore
    · exact covered_of_synced rfl hin
  | publish target hround =>
    refine ⟨hbooks.waiting, Nat.max_le.mpr ⟨hbooks.durable, hbooks.target _ hround⟩, ?_, ?_,
      hbooks.renamed⟩
    · exact nofun
    · exact nofun
  | rename next records hswap =>
    exact ⟨hbooks.waiting, hbooks.durable, hbooks.target,
      fun _ _ _ seq _ hin => covered_of_synced rfl hin, fun _ _ => rfl⟩
  | adoptNew next hswap | adoptOld hswap =>
    refine ⟨hbooks.waiting, Nat.max_le.mpr ⟨hbooks.durable, Nat.le_refl _⟩, hbooks.target,
      hbooks.round, ?_⟩
    intro next hnext
    cases hnext

lemma acknowledged_adoptFile (hbooks : Books s) (fileWAL : FileWAL) :
    Acknowledged { s.adoptFile with fileWAL } ↔
      (s.syncErr = none → ∀ seq ∈ s.waiting, s.Covered seq) := by
  rw [acknowledged_iff]
  constructor
  · intro h herr seq hseq
    exact h herr seq hseq (le_trans (hbooks.waiting seq hseq) (le_max_right ..))
  · intro h herr seq hseq _
    exact h herr seq hseq

lemma acknowledged_step_iff (hbooks : Books s) (hack : s.Acknowledged)
    (hstep : s.step m = some s') : s'.Acknowledged ↔ s.Safe m := by
  have hold := acknowledged_iff.mp hack
  cases step_effect hstep with
  | quiet hsafe h =>
    refine iff_of_true (acknowledged_iff.mpr fun herr seq hseq hle => ?_) hsafe
    rw [h.durableSeq] at hle
    exact h.covered.mpr (hold (h.syncErr herr) seq (h.waiting seq hseq) hle)
  | append call hswap =>
    refine iff_of_true (acknowledged_iff.mpr fun herr seq hseq hle => ?_) trivial
    obtain _ | ⟨_, hseq⟩ := hseq
    · exact absurd (le_trans hle hbooks.durable) (Nat.not_succ_le_self _)
    · exact (hold herr seq hseq hle).append _
  | cover hsafe round hround =>
    refine iff_of_true (acknowledged_iff.mpr fun herr seq hseq hle => ?_) hsafe
    exact covered_of_synced rfl (hold herr seq hseq hle).inLog
  | publish target hround =>
    have hcovered := hbooks.round _ hround rfl
    rw [acknowledged_iff, Safe, hround]
    constructor
    · intro h herr _ seq hseq hle
      have := h herr seq hseq (le_trans hle (le_max_right ..))
      exact Covered.inLog this
    · intro h herr seq hseq hle
      have hcases : seq ≤ s.durableSeq ∨ seq ≤ target := by
        dsimp only at hle
        omega
      rcases hcases with hdurable | htarget
      · exact hold herr seq hseq hdurable
      · exact hcovered seq htarget (h herr rfl seq hseq htarget)
  | rename next records hswap =>
    rw [acknowledged_iff, Safe, hswap]
    refine forall_congr' fun _ => forall₃_congr fun seq _ _ => ?_
    rw [Covered, take_length]
  | adoptNew next hswap =>
    rw [acknowledged_adoptFile hbooks, Safe, hswap]
    refine forall_congr' fun _ => forall₂_congr fun seq _ => ?_
    exact ⟨Covered.inLog, covered_of_synced (hbooks.renamed next hswap)⟩
  | adoptOld hswap =>
    rw [Safe, hswap]
    exact acknowledged_adoptFile hbooks s.fileWAL

/-- In every run of safe moves, whatever log it starts on, no caller is told of success before
an fsync of the log has covered its record; and a further move keeps that exactly when it is
safe. -/
theorem acknowledged_of_safe {w : FileWAL} {s : GroupCommit}
    (hreach : Reach GroupCommit.step Safe { fileWAL := w } s) :
    s.Acknowledged ∧ ∀ m s', s.step m = some s' → (s'.Acknowledged ↔ s.Safe m) := by
  have hinv : Books s ∧ s.Acknowledged := by
    refine hreach.invariant (fun s => Books s ∧ s.Acknowledged)
      ⟨.opened w, nofun⟩ ?_
    rintro t t' m - ⟨hbooks, hack⟩ hsafe hstep
    exact ⟨hbooks.step hstep, (acknowledged_step_iff hbooks hack hstep).mpr hsafe⟩
  exact ⟨hinv.2, fun m s' hstep => acknowledged_step_iff hinv.1 hinv.2 hstep⟩

/-- Two callers, the second of which appends while the first one's round is in flight and is
answered by a compaction. -/
def sharedRound : List Move :=
  [.write (.commit 1), .lead 1, .write (.commit 2), .fsync true, .finish, .ret 1,
    .start (.compact (fun _ => none) id), .drain, .close true, .rename true, .reopen true]

theorem sharedRound_acknowledged :
    ∃ s, Reach GroupCommit.step Safe {} s ∧ 2 ∈ s.waiting ∧ s.awaitDurable 2 = some none ∧
      s.Acknowledged ∧ ∀ m s', s.step m = some s' → (s'.Acknowledged ↔ s.Safe m) := by
  obtain ⟨s, hreach, hwaiting, hanswer⟩ : ∃ s,
      Reach GroupCommit.step Safe {} s ∧
        2 ∈ s.waiting ∧ s.awaitDurable 2 = some none :=
    Reach.exists_decide sharedRound (by decide +kernel)
  exact ⟨s, hreach, hwaiting, hanswer, acknowledged_of_safe hreach⟩

/-- A rewrite whose rename fails while a caller waits for its first fsync. -/
def failedRename : List Move :=
  [.write (.commit 1), .start (.compact (fun _ => none) id), .drain, .close true, .rename false,
    .reopen true]

/-- The original log is adopted as if it had been synced: the caller is told of success though
no fsync was ever issued. -/
theorem failedRename_acknowledges :
    ∃ s, Reachable GroupCommit.step {} s ∧ 1 ∈ s.waiting ∧ s.awaitDurable 1 = some none ∧
      s.synced = 0 ∧ ¬ s.Covered 1 :=
  Reach.exists_decide failedRename (by decide +kernel)

/-! ### Poisoning -/

def poisoned (s : GroupCommit) : Bool := s.broken || s.syncErr.isSome

/-- A rewrite has waited out the rounds and not yet adopted a file, or the handle is closed for
good. -/
def closing (s : GroupCommit) : Bool :=
  match s.swap with
  | none | some (.rewritten ..) => !s.isOpen
  | _ => true

def healthy (s : GroupCommit) : Move → Bool
  | .rollBack ok => ok
  | .tear .. => false
  | .fsync ok => ok || !s.isOpen
  | _ => true

/-- Such a move that leads no round on a handle that is being closed. -/
def steady (s : GroupCommit) : Move → Bool
  | .lead _ => !s.closing
  | m => s.healthy m

/-- A round that has not come back yet syncs the open handle of the log. -/
structure Sound (s : GroupCommit) : Prop where
  broken : s.broken = false
  syncErr : s.syncErr = none
  handle : s.syncFor = s.file
  round : ∀ r, s.round = some r →
    r.result = some none ∨ r.result = none ∧ r.file = s.file ∧ s.closing = false

lemma Sound.step (h : Sound s) (hsteady : s.steady m) (hstep : s.step m = some s') : Sound s' := by
  obtain ⟨hbroken, herr, hhandle, hround⟩ := h
  cases m with
  | tear call n => cases hsteady
  | write | rollBack | lead | fsync | finish | ret =>
    simp only [GroupCommit.step, write, rollBack, lead, fsync, finish, ret, awaitDurable] at hstep
    grind [Sound, closing, steady, healthy]
  | start | abandon | drain | close | rename | reopen | shutdown =>
  -- a handle is closed only behind `drain`, where no round is in flight
  simp only [GroupCommit.step, start, abandon, drain, close, rename, reopen, adoptFile,
    shutdown] at hstep
  grind [Sound, closing]

/-- In every run of steady moves, whatever log it starts on, the log goes on taking writes. -/
theorem not_poisoned_of_steady {w : FileWAL} {s : GroupCommit}
    (hreach : Reach GroupCommit.step (fun s m => s.steady m) { fileWAL := w } s) :
    s.poisoned = false := by
  have hsound : Sound s := by
    refine hreach.invariant Sound ⟨rfl, rfl, rfl, nofun⟩ ?_
    rintro t t' m - h hsteady hstep
    exact h.step hsteady hstep
  simp [poisoned, hsound.broken, hsound.syncErr]

theorem sharedRound_not_poisoned :
    ∃ s, Reach GroupCommit.step (fun s m => s.steady m) {} s ∧ 2 ∈ s.waiting ∧
      s.poisoned = false := by
  obtain ⟨s, hreach, hwaiting⟩ : ∃ s,
      Reach GroupCommit.step (fun s m => s.steady m) {} s ∧ 2 ∈ s.waiting :=
    Reach.exists_decide sharedRound (by decide +kernel)
  exact ⟨s, hreach, hwaiting, not_poisoned_of_steady hreach⟩

/-- A caller leads a round after a compaction has waited for the rounds before it, and syncs
the handle that the compaction has closed. -/
def roundWhileClosing : List Move :=
  [.write (.commit 1), .start (.compact (fun _ => none) id), .drain, .lead 1, .close true,
    .fsync true, .finish]

/-- No fsync of an open file failed, and yet the log is poisoned. -/
theorem roundWhileClosing_poisons :
    ∃ s, Reach GroupCommit.step (fun s m => s.healthy m) {} s ∧ s.poisoned :=
  Reach.exists_decide roundWhileClosing (by decide +kernel)

end stratum.wal.GroupCommit
