import Stratum.Lib.Quorum
import Stratum.Lib.Consensus.Share

namespace stratum.lib

/-- The history of a replicated log with one leader a term: every node's whole log and
term, the log of each term's leader as it grew, how far each node acknowledged each
leader, the votes, and the log with which each candidate stood. -/
structure History (N E : Type) where
  term : N → Nat
  log : N → List E
  leaderLog : Nat → Option (List E)
  acked : N → Nat → Nat
  votes : Votes N
  standing : N → Nat → List E

namespace History

variable {N E : Type} (termOf : E → Nat)

/-- Every stretch of the log that ends in an entry is what the leader of that entry's
term has there. -/
def Sound (h : History N E) (l : List E) : Prop :=
  ∀ k e, l[k]? = some e → ∃ m, h.leaderLog (termOf e) = some m ∧ Share l m (k + 1)

/-- The term of the last entry, zero for an empty log. -/
def lastTerm (l : List E) : Nat := (l.getLast?.map termOf).getD 0

/-- A candidate's log that a voter accepts. -/
def UpToDate (candidate voter : List E) : Prop :=
  lastTerm termOf voter < lastTerm termOf candidate ∨
    lastTerm termOf candidate = lastTerm termOf voter ∧ voter.length ≤ candidate.length

/-- The leader of term `s` misses one of the first `n` entries of the leader of `c`. -/
def Lacks (h : History N E) (c n s : Nat) : Prop :=
  ∃ mc ms, h.leaderLog c = some mc ∧ h.leaderLog s = some ms ∧ n ≤ mc.length ∧ ¬ Share ms mc n

/-- A log still has the first `n` entries of the leader of `c`, or a later leader before
`bound` misses one of them. -/
def Keeps (h : History N E) (l : List E) (c n bound : Nat) : Prop :=
  (∃ m, h.leaderLog c = some m ∧ Share l m n) ∨ ∃ s, c < s ∧ s < bound ∧ h.Lacks c n s

/-- What a vote for a candidate with log `p` says about the voter: at the time of the vote
it had a log no newer than `p` that kept whatever it had acknowledged to earlier leaders. -/
def VoteRecord (h : History N E) (v : N) (t : Nat) (p : List E) : Prop :=
  t ≤ h.term v ∧ ∃ l, h.Sound termOf l ∧ UpToDate termOf p l ∧
    ∀ c n, c < t → 0 < n → n ≤ h.acked v c → h.Keeps l c n t

/-- The log of a term's leader: what it stood with, whose terms are lower, and after that
at least one entry, all of its own term. -/
structure LeaderShape (p m : List E) (t : Nat) : Prop where
  longer : p.length < m.length
  share : Share p m p.length
  before : ∀ e ∈ p, termOf e < t
  own : ∀ i e, p.length ≤ i → m[i]? = some e → termOf e = t

structure Inv (members : List N) (h : History N E) : Prop where
  sound : ∀ u, h.Sound termOf (h.log u)
  soundLeader : ∀ t m, h.leaderLog t = some m → h.Sound termOf m
  soundStanding : ∀ u t, h.Sound termOf (h.standing u t)
  logTerm : ∀ u, ∀ e ∈ h.log u, termOf e ≤ h.term u
  standingTerm : ∀ u t, ∀ e ∈ h.standing u t, termOf e < t
  leaderPos : ∀ t m, h.leaderLog t = some m → 0 < t
  elected : ∀ t m, h.leaderLog t = some m → ∃ p, LeaderShape termOf p m t ∧
    ∃ quorum, Majority members quorum ∧ ∀ v ∈ quorum, h.VoteRecord termOf v t p
  acked : ∀ u c n, 0 < n → n ≤ h.acked u c → c ≤ h.term u ∧
    (∃ m, h.leaderLog c = some m ∧ n ≤ m.length) ∧ h.Keeps (h.log u) c n (h.term u + 1)
  voted : ∀ v t c, h.votes v t = some c → t ≤ h.term c ∧ t ≤ h.term v ∧
    (h.leaderLog t = none → h.VoteRecord termOf v t (h.standing c t))

variable {termOf} {members : List N} {h : History N E}

lemma LeaderShape.le {p m : List E} {t i : Nat} {e : E} (hshape : LeaderShape termOf p m t)
    (he : m[i]? = some e) : termOf e ≤ t := by
  by_cases hi : i < p.length
  · rw [← hshape.share.2 i hi] at he
    exact le_of_lt (hshape.before e (List.mem_of_getElem? he))
  · exact le_of_eq (hshape.own i e (by omega) he)

lemma Inv.leader_le (hinv : Inv termOf members h) {t i : Nat} {m : List E} {e : E}
    (hm : h.leaderLog t = some m) (he : m[i]? = some e) : termOf e ≤ t := by
  obtain ⟨p, hshape, -⟩ := hinv.elected t m hm
  exact hshape.le he

lemma Inv.sorted (hinv : Inv termOf members h) {l : List E} (hsound : h.Sound termOf l) {i k : Nat}
    {e f : E} (hik : i ≤ k) (he : l[i]? = some e) (hf : l[k]? = some f) : termOf e ≤ termOf f := by
  obtain ⟨m, hm, hshare⟩ := hsound k f hf
  rw [hshare.2 i (by omega)] at he
  exact hinv.leader_le hm he

/-- Two sound logs that agree on one entry's term agree on everything before it. -/
lemma Sound.matching {l r : List E} (hl : h.Sound termOf l) (hr : h.Sound termOf r) {k : Nat}
    {e f : E} (he : l[k]? = some e) (hf : r[k]? = some f) (hterm : termOf e = termOf f) :
    Share l r (k + 1) := by
  obtain ⟨m, hm, hlm⟩ := hl k e he
  obtain ⟨m', hm', hrm⟩ := hr k f hf
  rw [hterm, hm'] at hm
  cases hm
  exact hlm.trans hrm.symm

variable {l : List E}

lemma lastTerm_eq {e : E} (he : l[l.length - 1]? = some e) : lastTerm termOf l = termOf e := by
  rw [lastTerm, List.getLast?_eq_getElem?, he]
  rfl

lemma exists_last (hpos : 0 < lastTerm termOf l) :
    ∃ e, l[l.length - 1]? = some e ∧ termOf e = lastTerm termOf l ∧ 0 < l.length := by
  cases hlast : l.getLast? with
  | none =>
    rw [lastTerm, hlast] at hpos
    exact absurd hpos (lt_irrefl 0)
  | some e =>
  have he := hlast
  rw [List.getLast?_eq_getElem?] at he
  refine ⟨e, he, (lastTerm_eq he).symm, ?_⟩
  by_contra hzero
  have hempty : l = [] := List.length_eq_zero_iff.mp (by omega)
  rw [hempty] at hlast
  cases hlast

end History

end stratum.lib
