import Stratum.Metadata.StateMachine

namespace stratum.metadata.StateMachine

open Option List

/-! The reads the storage side makes of the replicated metadata. -/

def getKB (sm : StateMachine) (kbID : String) : Except Error KnowledgeBaseMeta :=
  match sm.kbs kbID with
  | none => .error Sentinel.knowledgeBaseNotFound.err
  | some kb => .ok kb

def listVersions (sm : StateMachine) (kbID : String) : Except Error (List VersionMeta) :=
  match sm.kbs kbID with
  | none => .error Sentinel.knowledgeBaseNotFound.err
  | some _ => .ok ((sm.versionsByKB kbID).map sm.version)

def getVersion (sm : StateMachine) (kbID : String) (versionID : Nat) : Except Error VersionMeta :=
  match sm.kbs kbID with
  | none => .error Sentinel.knowledgeBaseNotFound.err
  | some _ =>
    match sm.versions versionID with
    | none => .error Sentinel.versionNotFound.err
    | some v => if v.kbID = kbID then .ok v else .error Sentinel.versionNotFound.err

/-- The ids of an ascending list between the bounds that are given; the walk stops behind the
upper one. -/
def aliveInRange (fromExclusive toInclusive : Option Nat) : List Nat → List Nat
  | [] => []
  | id :: ids =>
    if fromExclusive.any (id ≤ ·) then aliveInRange fromExclusive toInclusive ids
    else if toInclusive.any (· < id) then []
    else id :: aliveInRange fromExclusive toInclusive ids

/-- `VersionLiveness`: the versions of the knowledge base in a range, and the last id that was
allocated, for whichever knowledge base. -/
def versionLiveness (sm : StateMachine) (kbID : String) (fromExclusive toInclusive : Option Nat) :
    Except Error (List Nat × Nat) :=
  match sm.kbs kbID with
  | none => .error Sentinel.knowledgeBaseNotFound.err
  | some _ =>
    .ok (aliveInRange fromExclusive toInclusive (sm.versionsByKB kbID), sm.nextVersionID - 1)

lemma mem_aliveInRange {lo hi : Option Nat} {v : Nat} {ids : List Nat}
    (hasc : ids.Pairwise (· < ·)) : v ∈ aliveInRange lo hi ids ↔
      v ∈ ids ∧ lo.any (v ≤ ·) = false ∧ hi.any (· < v) = false := by
  induction ids with
  | nil => simp [aliveInRange]
  | cons id ids ih =>
  obtain ⟨hfirst, hrest⟩ := pairwise_cons.mp hasc
  unfold aliveInRange
  split
  · next hle =>
    rw [ih hrest, mem_cons]
    constructor
    · rintro ⟨hv, hbounds⟩
      exact ⟨.inr hv, hbounds⟩
    · rintro ⟨rfl | hv, hlo, hhi⟩
      · rw [hle] at hlo
        cases hlo
      · exact ⟨hv, hlo, hhi⟩
  next hle =>
  split
  · next hgt =>
    simp only [not_mem_nil, false_iff, mem_cons]
    -- What follows an id behind the range is behind it too.
    obtain ⟨bound, rfl, hbound⟩ := (any_eq_true _ _).mp hgt
    have hid := of_decide_eq_true hbound
    rintro ⟨hv, -, hhi⟩
    have hle : v ≤ bound := Nat.not_lt.mp (of_decide_eq_false hhi)
    obtain rfl | hv := hv
    · omega
    · have := hfirst v hv
      omega
  · next hgt =>
    rw [mem_cons, ih hrest, mem_cons]
    constructor
    · rintro (rfl | ⟨hv, hbounds⟩)
      · exact ⟨.inl rfl, Bool.eq_false_iff.mpr hle, Bool.eq_false_iff.mpr hgt⟩
      · exact ⟨.inr hv, hbounds⟩
    · rintro ⟨rfl | hv, hbounds⟩
      · exact .inl rfl
      · exact .inr ⟨hv, hbounds⟩

end stratum.metadata.StateMachine
