import Stratum.Lib.Consensus.History

namespace stratum.lib

namespace History

variable {N E : Type} (termOf : E → Nat) (members : List N)

/-- A majority acknowledged the first `n` entries of the leader of term `c`, the last of
them being of that term. -/
structure Chosen (h : History N E) (c n : Nat) (m : List E) : Prop where
  leader : h.leaderLog c = some m
  pos : 0 < n
  current : ∃ e, m[n - 1]? = some e ∧ termOf e = c
  quorum : ∃ quorum, Majority members quorum ∧ ∀ u ∈ quorum, n ≤ h.acked u c

/-- The first `k` entries of a log are chosen by a leader of term `t` or earlier. -/
def Committed (h : History N E) (t : Nat) (l : List E) (k : Nat) : Prop :=
  ∃ c n m, h.Chosen termOf members c n m ∧ c ≤ t ∧ k ≤ n ∧ Share l m k

variable {termOf members} {h : History N E}

lemma Committed.le_length {t k : Nat} {l : List E} (hl : h.Committed termOf members t l k) :
    k ≤ l.length := by
  obtain ⟨_, _, _, _, _, _, hshare⟩ := hl
  exact hshare.1

lemma Chosen.le_length {c n : Nat} {m : List E} (hchosen : h.Chosen termOf members c n m) :
    n ≤ m.length := by
  obtain ⟨e, he, -⟩ := hchosen.current
  have hlt := (List.getElem?_eq_some_iff.mp he).1
  omega

/-- A log that has the chosen entries ends in a term that is no earlier. -/
lemma Chosen.le_lastTerm (hinv : Inv termOf members h) {c n : Nat} {m l : List E}
    (hchosen : h.Chosen termOf members c n m) (hsound : h.Sound termOf l) (hshare : Share l m n) :
    c ≤ lastTerm termOf l := by
  obtain ⟨e, he, hterm⟩ := hchosen.current
  have hpos := hchosen.pos
  have hlen := hshare.1
  rw [← hshare.2 (n - 1) (by omega)] at he
  obtain ⟨f, hf⟩ : ∃ f, l[l.length - 1]? = some f :=
    ⟨_, List.getElem?_eq_getElem (show l.length - 1 < l.length by omega)⟩
  rw [lastTerm_eq hf, ← hterm]
  exact hinv.sorted hsound (by omega) he hf

/-- A candidate whose log a voter with the chosen entries accepts has them itself, if every
leader between the two terms has them. -/
lemma Chosen.share_of_upToDate (hinv : Inv termOf members h) {c n t : Nat} {m l p : List E}
    (hchosen : h.Chosen termOf members c n m) (hvoter : h.Sound termOf l) (hshare : Share l m n)
    (hcandidate : h.Sound termOf p) (hnewer : UpToDate termOf p l) (hbefore : ∀ e ∈ p, termOf e < t)
    (hbetween : ∀ s ms, c < s → s < t → h.leaderLog s = some ms → Share ms m n) : Share p m n := by
  have hlast := hchosen.le_lastTerm hinv hvoter hshare
  have hcpos : 0 < c := hinv.leaderPos c m hchosen.leader
  have hcp : lastTerm termOf l ≤ lastTerm termOf p := by
    obtain hlt | ⟨heq, -⟩ := hnewer
    all_goals omega
  have hppos : 0 < lastTerm termOf p := by omega
  have hlpos : 0 < lastTerm termOf l := by omega
  obtain ⟨e, he, heterm, hplen⟩ := exists_last hppos
  obtain ⟨f, hf, hfterm, hllen⟩ := exists_last hlpos
  by_cases hsame : lastTerm termOf p = lastTerm termOf l
  · have hlonger : l.length ≤ p.length := by
      obtain hlt | ⟨-, hle⟩ := hnewer
      · omega
      · exact hle
    obtain ⟨mp, hmp, hpm⟩ := hcandidate _ e he
    obtain ⟨ml, hml, hlm⟩ := hvoter _ f hf
    rw [heterm, hsame, ← hfterm, hml] at hmp
    cases hmp
    have hn := hshare.1
    exact ((hpm.mono (by omega)).trans (hlm.symm.mono (by omega))).trans hshare
  have hlater : c < termOf e := by omega
  have hearlier : termOf e < t := hbefore e (List.mem_of_getElem? he)
  obtain ⟨mp, hmp, hpm⟩ := hcandidate _ e he
  have hmid := hbetween _ mp hlater hearlier hmp
  have hn : n ≤ p.length := by
    by_contra hshort
    have hentry := hmid.2 (p.length - 1) (by omega)
    rw [← hpm.2 (p.length - 1) (by omega), he] at hentry
    have hle := hinv.leader_le hchosen.leader hentry.symm
    omega
  exact (hpm.mono (by omega)).trans hmid

/-- Leader completeness: what a majority acknowledged to one leader is in the log of every
later one. By induction on the later term: the two majorities share a node, which kept the
entries until it voted unless a leader in between misses them. -/
lemma Chosen.complete (hinv : Inv termOf members h) {c n : Nat} {m : List E}
    (hchosen : h.Chosen termOf members c n m) [DecidableEq N] :
    ∀ t mt, c < t → h.leaderLog t = some mt → Share mt m n := by
  intro t
  induction t using Nat.strongRecOn with
  | ind t ih =>
    intro mt hct hmt
    obtain ⟨p, hshape, voters, hvoters, hrecord⟩ := hinv.elected t mt hmt
    obtain ⟨acks, hacks, hacked⟩ := hchosen.quorum
    obtain ⟨v, hvote, hack⟩ := hvoters.inter hacks
    obtain ⟨-, l, hsound, hnewer, hkept⟩ := hrecord v hvote
    have hshare : Share l m n := by
      obtain ⟨m', hm', hshare⟩ | ⟨s, hcs, hst, mc, ms, hmc, hms, -, hlacks⟩ :=
        hkept c n hct hchosen.pos (hacked v hack)
      · rw [hchosen.leader] at hm'
        cases hm'
        exact hshare
      · rw [hchosen.leader] at hmc
        cases hmc
        exact absurd (ih s hst ms hcs hms) hlacks
    have hp : Share p m n := by
      refine hchosen.share_of_upToDate hinv hsound hshare ?_ hnewer hshape.before ?_
      · intro k e he
        have hk := (List.getElem?_eq_some_iff.mp he).1
        rw [hshape.share.2 k hk] at he
        obtain ⟨ms, hms, hshared⟩ := hinv.soundLeader t mt hmt k e he
        exact ⟨ms, hms, (hshape.share.mono hk).trans hshared⟩
      · intro s ms hcs hst hms
        exact ih s hst ms hcs hms
    exact (hshape.share.symm.mono hp.1).trans hp

variable [DecidableEq N]

/-- What one leader chose is in the log of every leader of that or a later term. -/
lemma Chosen.share_leader (hinv : Inv termOf members h) {c n t : Nat} {m mt : List E}
    (hchosen : h.Chosen termOf members c n m) (hct : c ≤ t) (hmt : h.leaderLog t = some mt) :
    Share mt m n := by
  obtain hlt | rfl := lt_or_eq_of_le hct
  · exact hchosen.complete hinv t mt hlt hmt
  rw [hchosen.leader] at hmt
  cases hmt
  exact .refl hchosen.le_length

lemma Committed.share_leader (hinv : Inv termOf members h) {t k t' : Nat} {l mt : List E}
    (hcommitted : h.Committed termOf members t l k) (htt : t ≤ t')
    (hmt : h.leaderLog t' = some mt) : Share l mt k := by
  obtain ⟨c, n, m, hchosen, hct, hkn, hshare⟩ := hcommitted
  exact hshare.trans ((hchosen.share_leader hinv (by omega) hmt).symm.mono hkn)

lemma Committed.agree (hinv : Inv termOf members h) {t t' k k' i : Nat} {l l' : List E}
    (hl : h.Committed termOf members t l k) (hl' : h.Committed termOf members t' l' k')
    (hi : i < k) (hi' : i < k') : l[i]? = l'[i]? := by
  obtain ⟨c, n, m, hchosen, -, hkn, hshare⟩ := hl
  obtain ⟨c', n', m', hchosen', -, hkn', hshare'⟩ := hl'
  rw [hshare.2 i hi, hshare'.2 i hi']
  obtain hle | hle := le_total c c'
  · exact ((hchosen.share_leader hinv hle hchosen'.leader).2 i (by omega)).symm
  · exact (hchosen'.share_leader hinv hle hchosen.leader).2 i (by omega)

omit [DecidableEq N] in
lemma Committed.mono {t t' k k' : Nat} {l : List E} (hl : h.Committed termOf members t l k)
    (ht : t ≤ t') (hk : k' ≤ k) : h.Committed termOf members t' l k' := by
  obtain ⟨c, n, m, hchosen, hct, hkn, hshare⟩ := hl
  exact ⟨c, n, m, hchosen, by omega, by omega, hshare.mono hk⟩

omit [DecidableEq N] in
lemma Committed.of_share {t k : Nat} {l l' : List E} (hl : h.Committed termOf members t l k)
    (hshare : Share l' l k) : h.Committed termOf members t l' k := by
  obtain ⟨c, n, m, hchosen, hct, hkn, hlm⟩ := hl
  exact ⟨c, n, m, hchosen, hct, hkn, hshare.trans hlm⟩

end History

end stratum.lib
