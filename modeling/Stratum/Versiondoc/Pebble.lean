import Mathlib.Data.Finset.Basic

namespace stratum.versiondoc

open Function

/-- The document-id set of every version a node holds. Presence of a key is the only
information the source stores, so a version's entries are a set. -/
structure VersionDocList where
  docs : String → Nat → Finset String

namespace VersionDocList

def empty : VersionDocList where
  docs _ _ := ∅

/-- Adds documents to a version's set; nothing is taken out. -/
def writeMany (l : VersionDocList) (kbID : String) (versionID : Nat) (docIDs : Finset String) :
    VersionDocList where
  docs := update l.docs kbID (update (l.docs kbID) versionID (l.docs kbID versionID ∪ docIDs))

/-- An absent version and a version without documents read alike. -/
def listDocIDs (l : VersionDocList) (kbID : String) (versionID : Nat) : Finset String :=
  l.docs kbID versionID

def deleteByVersion (l : VersionDocList) (kbID : String) (versionID : Nat) : VersionDocList where
  docs := update l.docs kbID (update (l.docs kbID) versionID ∅)

variable {l : VersionDocList} {kbID kbID' : String} {v w : Nat}

@[simp]
lemma listDocIDs_writeMany_self (docIDs : Finset String) :
    (l.writeMany kbID v docIDs).listDocIDs kbID v = l.listDocIDs kbID v ∪ docIDs := by
  simp [writeMany, listDocIDs]

lemma listDocIDs_writeMany_of_ne (docIDs : Finset String) (hne : ¬ (kbID' = kbID ∧ w = v)) :
    (l.writeMany kbID v docIDs).listDocIDs kbID' w = l.listDocIDs kbID' w := by
  unfold writeMany listDocIDs
  by_cases hkb : kbID' = kbID
  · subst hkb
    have hver : w ≠ v := fun h => hne ⟨rfl, h⟩
    simp [update_of_ne hver]
  · simp [update_of_ne hkb]

@[simp]
lemma listDocIDs_deleteByVersion_self : (l.deleteByVersion kbID v).listDocIDs kbID v = ∅ := by
  simp [deleteByVersion, listDocIDs]

lemma listDocIDs_deleteByVersion_of_ne (hne : ¬ (kbID' = kbID ∧ w = v)) :
    (l.deleteByVersion kbID v).listDocIDs kbID' w = l.listDocIDs kbID' w := by
  unfold deleteByVersion listDocIDs
  by_cases hkb : kbID' = kbID
  · subst hkb
    have hver : w ≠ v := fun h => hne ⟨rfl, h⟩
    simp [update_of_ne hver]
  · simp [update_of_ne hkb]

end VersionDocList

end stratum.versiondoc
