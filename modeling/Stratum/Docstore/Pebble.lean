import Mathlib.Data.Set.Insert
import Stratum.Errors
import Stratum.Lib.Latest
import Stratum.Types

namespace stratum.docstore

open stratum.lib Function Sentinel

/-- A stored value: the tag byte keeps an empty document apart from a deleted one. -/
inductive Value
  | tombstone
  | content (text : String)
deriving DecidableEq

/-- A nil value is a tombstone. -/
def encodeValue : Option String → Value
  | none => .tombstone
  | some text => .content text

/-- The document records of a node, by knowledge base, document and version. -/
structure DocStore where
  db : String → String → Nat → Option Value

namespace DocStore

def empty : DocStore where
  db _ _ _ := none

/-- Stores the document's value at a version, over whatever is there. -/
def write (s : DocStore) (kbID docID : String) (versionID : Nat) (value : Option String) :
    DocStore where
  db := update s.db kbID (update (s.db kbID) docID
    (update (s.db kbID docID) versionID (some (encodeValue value))))

/-- The content visible at a version: the record with the largest version up to it. -/
def readAt (s : DocStore) (kbID docID : String) (maxVersionID : Int) : Except Error String :=
  if maxVersionID < 0 then
    .error (Sentinel.invalidArgument.wrap
      s!"docstore: ReadAt({kbID},{docID},{maxVersionID}): negative maxVersionID")
  else
    match latest (s.db kbID docID) maxVersionID.toNat with
    | none =>
      .error (Sentinel.versionNotFound.wrap
        s!"docstore: {kbID}/{docID} not found at version {maxVersionID}")
    | some .tombstone =>
      .error (Sentinel.versionNotFound.wrap
        s!"docstore: {kbID}/{docID} deleted as of version {maxVersionID}")
    | some (.content text) => .ok text

/-- The version of the record visible at a version, tombstones included. -/
def visibleVersionOf (s : DocStore) (kbID docID : String) (maxVersionID : Nat) :
    Option Nat :=
  latestKey (s.db kbID docID) maxVersionID

def deleteByVersion (s : DocStore) (kbID : String) (versionID : Nat) : DocStore where
  db := update s.db kbID fun docID => update (s.db kbID docID) versionID none

/-- Removes a version's records except the ones visible at the anchor, the smallest
surviving version above it; anchor `0` is "none survives". -/
def deleteByVersionExceptVisibleFrom (s : DocStore) (kbID : String)
    (versionID anchorVersionID : Nat) : DocStore :=
  if anchorVersionID = 0 then s.deleteByVersion kbID versionID
  else
    { db := update s.db kbID fun docID =>
        if s.visibleVersionOf kbID docID anchorVersionID = some versionID then s.db kbID docID
        else update (s.db kbID docID) versionID none }

variable {s t : DocStore} {kbID docID : String} {v w : Nat}

lemma readAt_eq (s : DocStore) (kbID docID : String) (v : Nat) : s.readAt kbID docID v =
      match latest (s.db kbID docID) v with
      | none =>
        .error (versionNotFound.wrap s!"docstore: {kbID}/{docID} not found at version {v}")
      | some .tombstone =>
        .error (versionNotFound.wrap s!"docstore: {kbID}/{docID} deleted as of version {v}")
      | some (.content text) => .ok text := by
  rfl

lemma readAt_congr (hlatest : latest (s.db kbID docID) v = latest (t.db kbID docID) v) :
    s.readAt kbID docID v = t.readAt kbID docID v := by
  rw [readAt_eq, readAt_eq, hlatest]

variable {text : String}

lemma readAt_of_latest (hlatest : latest (s.db kbID docID) v = some (.content text)) :
    s.readAt kbID docID v = .ok text := by
  rw [readAt_eq, hlatest]

lemma readAt_eq_ok_iff :
    s.readAt kbID docID v = .ok text ↔ latest (s.db kbID docID) v = some (.content text) := by
  constructor
  · intro hread
    rw [readAt_eq] at hread
    cases hlatest : latest (s.db kbID docID) v with
    | none =>
      rw [hlatest] at hread
      cases hread
    | some value =>
    rw [hlatest] at hread
    cases value with
    | tombstone => cases hread
    | content text' =>
      cases hread
      rfl
  · exact readAt_of_latest

lemma readAt_eq_iff : s.readAt kbID docID v = t.readAt kbID docID v ↔
    latest (s.db kbID docID) v = latest (t.db kbID docID) v := by
  refine ⟨?_, readAt_congr⟩
  -- the two ways of not finding a document read differently
  have hne : versionNotFound.wrap s!"docstore: {kbID}/{docID} not found at version {v}" ≠
      versionNotFound.wrap s!"docstore: {kbID}/{docID} deleted as of version {v}" := by
    simp only [wrap, ne_eq, Error.mk.injEq, and_true, String.append_right_inj, String.append_left_inj]
    decide
  rw [readAt_eq, readAt_eq]
  cases latest (s.db kbID docID) v with
  | none =>
    cases latest (t.db kbID docID) v with
    | none => simp
    | some y =>
      cases y with
      | tombstone => exact fun h => absurd (Except.error.inj h) hne
      | content text => exact nofun
  | some x =>
    cases latest (t.db kbID docID) v with
    | none =>
      cases x with
      | tombstone => exact fun h => absurd (Except.error.inj h) hne.symm
      | content text => exact nofun
    | some y => cases x <;> cases y <;> simp

@[simp]
lemma write_self (value : Option String) : (s.write kbID docID v value).db kbID docID =
      update (s.db kbID docID) v (some (encodeValue value)) := by
  simp [write]

lemma write_of_ne {kbID' docID' : String} (value : Option String)
    (hne : ¬ (kbID' = kbID ∧ docID' = docID)) :
    (s.write kbID docID v value).db kbID' docID' = s.db kbID' docID' := by
  unfold write
  by_cases hkb : kbID' = kbID
  · subst hkb
    have hdoc : docID' ≠ docID := fun h => hne ⟨rfl, h⟩
    simp [update_of_ne hdoc]
  · simp [update_of_ne hkb]

lemma deleteByVersion_of_ne {kbID' : String} (hne : kbID' ≠ kbID) (docID : String) :
    (s.deleteByVersion kbID v).db kbID' docID = s.db kbID' docID := by
  simp [deleteByVersion, update_of_ne hne]

@[simp]
lemma deleteByVersion_self (docID : String) :
    (s.deleteByVersion kbID v).db kbID docID = update (s.db kbID docID) v none := by
  simp [deleteByVersion]

lemma deleteByVersion_again (s : DocStore) (kbID : String) (v : Nat) :
    (s.deleteByVersion kbID v).deleteByVersion kbID v = s.deleteByVersion kbID v := by
  simp [deleteByVersion]

lemma deleteByVersionExceptVisibleFrom_db (s : DocStore) (kbID : String) (v anchor : Nat)
    (kbID' docID : String) :
    (s.deleteByVersionExceptVisibleFrom kbID v anchor).db kbID' docID = s.db kbID' docID ∨
      (kbID' = kbID ∧ (anchor = 0 ∨ s.visibleVersionOf kbID docID anchor ≠ some v) ∧
        (s.deleteByVersionExceptVisibleFrom kbID v anchor).db kbID' docID =
          update (s.db kbID docID) v none) := by
  unfold deleteByVersionExceptVisibleFrom
  by_cases hkb : kbID' = kbID
  · subst hkb
    by_cases hanchor : anchor = 0
    · rw [if_pos hanchor]
      exact .inr ⟨rfl, .inl hanchor, deleteByVersion_self docID⟩
    rw [if_neg hanchor]
    by_cases hvisible : s.visibleVersionOf kbID' docID anchor = some v
    · exact .inl (by simp [hvisible])
    · exact .inr ⟨rfl, .inr hvisible, by simp [hvisible]⟩
  · refine .inl ?_
    split
    · exact deleteByVersion_of_ne hkb docID
    · simp [update_of_ne hkb]

/-- Reclaiming a version with an anchor at or below `w` leaves what `w` reads alone: a record
`w` still reads is visible at the anchor. -/
lemma latest_deleteByVersionExceptVisibleFrom {anchor : Nat} (hpos : 0 < anchor)
    (hv : v < anchor) (hw : anchor ≤ w) (kbID' docID : String) :
    latest ((s.deleteByVersionExceptVisibleFrom kbID v anchor).db kbID' docID) w =
      latest (s.db kbID' docID) w := by
  obtain hsame | ⟨rfl, hhidden, hcut⟩ :=
    deleteByVersionExceptVisibleFrom_db s kbID v anchor kbID' docID
  · rw [hsame]
  rw [hcut]
  apply latest_update_none
  intro hkey
  have hanchor := latestKey_of_le hkey (le_of_lt hv) hw
  obtain hzero | hhidden := hhidden
  · omega
  · exact hhidden hanchor

/-- The anchor of a version: the smallest live version above it, or `0` if there is none. -/
def IsAnchor (live : Set Nat) (v anchor : Nat) : Prop :=
  (anchor = 0 ∧ ∀ w ∈ live, w ≤ v) ∨ (v < anchor ∧ anchor ∈ live ∧ ∀ w ∈ live, v < w → anchor ≤ w)

/-- An anchored reclaim leaves the reads of every other live version alone. -/
lemma latest_of_isAnchor {live : Set Nat} {anchor : Nat} (hanchor : IsAnchor live v anchor)
    (hlive : w ∈ live) (hne : w ≠ v) (kbID' docID : String) :
    latest ((s.deleteByVersionExceptVisibleFrom kbID v anchor).db kbID' docID) w =
      latest (s.db kbID' docID) w := by
  obtain hlt | heq | hgt := lt_trichotomy w v
  · obtain hsame | ⟨rfl, -, hcut⟩ := deleteByVersionExceptVisibleFrom_db s kbID v anchor kbID' docID
    · rw [hsame]
    · rw [hcut, latest_update_of_gt hlt]
  · exact absurd heq hne
  obtain ⟨-, hnone⟩ | ⟨habove, -, hleast⟩ := hanchor
  · exact absurd (hnone w hlive) (Nat.not_le_of_lt hgt)
  · exact latest_deleteByVersionExceptVisibleFrom (by omega) habove (hleast w hlive hgt) kbID' docID

/-- A reclaim of a version, with the versions that are live by then and the anchor they give. -/
structure Reclaim where
  versionID : Nat
  live : Set Nat
  anchor : Nat
  isAnchor : IsAnchor live versionID anchor

def reclaimed (s : DocStore) (kbID : String) (reclaims : List Reclaim) : DocStore :=
  reclaims.foldl (fun s r => s.deleteByVersionExceptVisibleFrom kbID r.versionID r.anchor) s

/-- Whichever versions are reclaimed and in whatever order: a version that stays live reads what
it read before. -/
theorem readAt_reclaimed (s : DocStore) (kbID docID : String) (reclaims : List Reclaim) {w : Nat}
    (hlive : ∀ r ∈ reclaims, w ∈ r.live ∧ w ≠ r.versionID) :
    (s.reclaimed kbID reclaims).readAt kbID docID w = s.readAt kbID docID w := by
  unfold reclaimed
  induction reclaims generalizing s with
  | nil => rfl
  | cons r reclaims ih =>
    obtain ⟨hw, hne⟩ := hlive r List.mem_cons_self
    rw [List.foldl_cons, ih _ fun r' hr' => hlive r' (List.mem_cons_of_mem r hr')]
    exact readAt_congr (latest_of_isAnchor r.isAnchor hw hne kbID docID)

/-- Two of three versions go, the later one first. -/
def laterFirst : List Reclaim :=
  [⟨2, {3}, 3, .inr (by simp)⟩, ⟨1, {3}, 3, .inr (by simp)⟩]

def firstOnly : DocStore := empty.write "kb" "d" 1 (some "text")

theorem readAt_reclaimed_laterFirst : (∀ r ∈ laterFirst, 3 ∈ r.live ∧ 3 ≠ r.versionID) ∧
    (firstOnly.reclaimed "kb" laterFirst).readAt "kb" "d" 3 = firstOnly.readAt "kb" "d" 3 := by
  have hlive : ∀ r ∈ laterFirst, 3 ∈ r.live ∧ 3 ≠ r.versionID := by simp [laterFirst]
  exact ⟨hlive, readAt_reclaimed firstOnly "kb" "d" laterFirst hlive⟩

end DocStore

end stratum.docstore
