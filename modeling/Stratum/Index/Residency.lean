import Mathlib.Algebra.GroupWithZero.Nat
import Mathlib.Data.List.AList
import Mathlib.Algebra.BigOperators.Group.List.Basic
import Stratum.Index.BuildQueue

namespace stratum.index.residency

open stratum.lib List Option Function
open buildpool (IndexKey)

structure LoadedIndex where
  refCount : Int := 0
  lastAccess : Int

structure Config where
  lruCapacity : Int
  memoryThresholdMB : Int

/-- What the manager keeps of the indexes in memory. -/
structure Manager where
  loaded : AList (fun _ : IndexKey => LoadedIndex) := ∅
  sizeByKey : AList (fun _ : IndexKey => Nat) := ∅
  loadedBytes : Int := 0
  deletedKBs : Finset String := ∅
  deletedVersions : Finset IndexKey := ∅

/-- `readSizeSidecar` of the parsed file: a size that is absent or negative is 0. -/
def readSizeSidecar (sidecar : Option Int) : Nat := (sidecar.getD 0).toNat

namespace Manager

def pins (im : Manager) (k : IndexKey) : Int := ((im.loaded.lookup k).map (·.refCount)).getD 0

/-- How every path takes a version out of memory. -/
def drop (im : Manager) (key : IndexKey) : Manager :=
  let im := { im with loaded := im.loaded.erase key }
  match im.sizeByKey.lookup key with
  | none => im
  | some size =>
    { im with loadedBytes := im.loadedBytes - size, sizeByKey := im.sizeByKey.erase key }

/-- The loaded versions of a knowledge base, out of memory. -/
def dropKB (im : Manager) (kbID : String) : Manager :=
  (im.loaded.keys.filter (·.kbID = kbID)).foldl drop im

def overflows (im : Manager) (cfg : Config) : Bool :=
  let threshold := if 0 < cfg.memoryThresholdMB then cfg.memoryThresholdMB * 2 ^ 20 else 0
  0 < cfg.lruCapacity ∧ cfg.lruCapacity ≤ im.loaded.keys.length ∨
    0 < threshold ∧ threshold < im.loadedBytes

/-- No pinned index is a candidate, and an older one goes first. Which of several that are
equally old is found depends on the order the map is walked in. -/
def evictable (im : Manager) (key : IndexKey) : Bool :=
  (im.loaded.lookup key).any fun idx => idx.refCount = 0 ∧
    im.loaded.entries.all fun e => e.2.refCount ≠ 0 ∨ idx.lastAccess ≤ e.2.lastAccess

/-- `makeRoomLocked`, for the versions it returns as evicted. -/
def makeRoomLocked (cfg : Config) (im : Manager) : List IndexKey → Option Manager
  | [] => if im.overflows cfg ∧ im.loaded.keys.any im.evictable then none else some im
  | key :: rest =>
    if im.overflows cfg ∧ im.evictable key then makeRoomLocked cfg (im.drop key) rest else none

/-- The end of a `doBuild` that is ready. -/
def built (cfg : Config) (im : Manager) (key : IndexKey) (sizeBytes : Nat) (now : Int)
    (evicted : List IndexKey) : Option Manager :=
  (im.makeRoomLocked cfg evicted).map fun im =>
    let idx := (im.loaded.lookup key).getD { lastAccess := now }
    { im with
      loaded := im.loaded.insert key { idx with lastAccess := now }
      loadedBytes := im.loadedBytes - (im.sizeByKey.lookup key).getD 0 + sizeBytes
      sizeByKey := im.sizeByKey.insert key sizeBytes }

/-- `loadFromDisk` after its RPC, unless it finds the version deleted or loaded already. -/
def loadFromDisk (cfg : Config) (im : Manager) (key : IndexKey) (sidecar : Option Int) (now : Int)
    (evicted : List IndexKey) : Option Manager :=
  if key.kbID ∈ im.deletedKBs ∨ key ∈ im.deletedVersions ∨ key ∈ im.loaded then none
  else (im.makeRoomLocked cfg evicted).map fun im =>
    { im with
      loaded := im.loaded.insert key { lastAccess := now }
      loadedBytes := im.loadedBytes + readSizeSidecar sidecar
      sizeByKey := im.sizeByKey.insert key (readSizeSidecar sidecar) }

def acquire (im : Manager) (key : IndexKey) (now : Int) : Option Manager :=
  (im.loaded.lookup key).map fun idx =>
    { im with loaded := im.loaded.insert key ⟨idx.refCount + 1, now⟩ }

def release (im : Manager) (key : IndexKey) : Manager :=
  match im.loaded.lookup key with
  | none => im
  | some idx =>
    if 0 < idx.refCount then
      { im with loaded := im.loaded.insert key { idx with refCount := idx.refCount - 1 } }
    else im

variable {cfg : Config} {im im' : Manager} {k key : IndexKey} {evicted : List IndexKey} {size : Nat}

lemma drop_loaded : (im.drop key).loaded = im.loaded.erase key := by
  unfold drop
  dsimp only
  split <;> rfl

lemma drop_pins : (im.drop key).pins k = if k = key then 0 else im.pins k := by
  rw [pins, drop_loaded]
  split
  · next heq => rw [heq, AList.lookup_erase, map_none, getD_none]
  · next hne => rw [AList.lookup_erase_ne hne, pins]

lemma evictable_pins (hold : im.evictable key) : im.pins key = 0 := by
  obtain ⟨idx, hidx, hold⟩ := any_eq_true _ _ |>.mp hold
  rw [pins, hidx]
  exact (of_decide_eq_true hold).1

def sizes (im : Manager) : List Nat := im.sizeByKey.entries.map Sigma.snd

lemma sum_kerase (key : IndexKey) (entries : List (Sigma fun _ : IndexKey => Nat)) :
    ((entries.kerase key).map Sigma.snd).sum + (entries.dlookup key).getD 0 =
      (entries.map Sigma.snd).sum := by
  induction entries with
  | nil => rfl
  | cons e rest ih =>
  obtain ⟨k, size⟩ := e
  by_cases heq : key = k
  · subst heq
    simp [Nat.add_comm]
  · simp [heq]
    omega

lemma sum_insert (m : AList fun _ : IndexKey => Nat) :
    ((m.insert key size).entries.map Sigma.snd).sum + (m.lookup key).getD 0 =
      (m.entries.map Sigma.snd).sum + size := by
  have hsum := sum_kerase key m.entries
  simp only [AList.entries_insert, AList.lookup, map_cons, sum_cons]
  omega

/-- `loadedBytes` is the sum of the sizes, and every size is that of a loaded version. Where `kept`
says that searched versions are left alone, the searches of a version are what pins it. -/
structure Inv (kept : Prop) (searching : IndexKey → Nat) (im : Manager) : Prop where
  bytes : im.loadedBytes = im.sizes.sum
  loaded : ∀ k ∈ im.sizeByKey, k ∈ im.loaded
  pins : kept → ∀ k, im.pins k = searching k

namespace Inv

variable {kept : Prop} {searching : IndexKey → Nat} (h : Inv kept searching im)

include h

lemma drop (hkey : kept → searching key = 0) : Inv kept searching (im.drop key) := by
  have hpins (hkept : kept) (k : IndexKey) : (im.drop key).pins k = searching k := by
    rw [drop_pins]
    split
    · next heq =>
      rw [heq, hkey hkept]
      rfl
    · exact h.pins hkept k
  have hbytes := h.bytes
  have hsum := sum_kerase key im.sizeByKey.entries
  unfold Manager.drop at hpins ⊢
  dsimp only at hpins ⊢
  split at hpins
  · next hnone =>
    refine ⟨hbytes, fun k hk => AList.mem_erase.mpr ⟨?_, h.loaded k hk⟩, hpins⟩
    rintro rfl
    exact AList.lookup_eq_none.mp hnone hk
  next size hsize =>
  refine ⟨?_, fun k hk => ?_, hpins⟩
  · rw [show im.sizeByKey.entries.dlookup key = some size from hsize] at hsum
    simp only [sizes, getD_some] at hsum hbytes ⊢
    rw [show (im.sizeByKey.erase key).entries = im.sizeByKey.entries.kerase key from rfl]
    omega
  · obtain ⟨hne, hk⟩ := AList.mem_erase.mp hk
    exact AList.mem_erase.mpr ⟨hne, h.loaded k hk⟩

lemma dropKB {kbID : String}
    (hkeys : kept → ∀ key ∈ im.loaded.keys, key.kbID = kbID → searching key = 0) :
    Inv kept searching (im.dropKB kbID) :=
  foldlRecOn _ _ h fun _ h key hkey => h.drop fun hkept =>
    hkeys hkept key (mem_filter.mp hkey).1 (of_decide_eq_true (mem_filter.mp hkey).2)

lemma put {idx : LoadedIndex} {n : Nat} (hn : kept → idx.refCount = n)
    (hloaded : im'.loaded = im.loaded.insert key idx) (hbytes : im'.loadedBytes = im'.sizes.sum)
    (hsizes : ∀ k ∈ im'.sizeByKey, k = key ∨ k ∈ im.sizeByKey) :
    Inv kept (update searching key n) im' := by
  refine ⟨hbytes, fun k hk => ?_, fun hkept k => ?_⟩
  · rw [hloaded, AList.mem_insert]
    exact (hsizes k hk).imp_right (h.loaded k)
  rw [Manager.pins, hloaded]
  by_cases heq : k = key
  · rw [heq, AList.lookup_insert, update_self]
    exact hn hkept
  · rw [AList.lookup_insert_ne heq, update_of_ne heq]
    exact h.pins hkept k

lemma makeRoomLocked (hroom : im.makeRoomLocked cfg evicted = some im') :
    Inv kept searching im' ∧ (kept → ∀ k ∈ evicted, searching k = 0) ∧
      ∀ k, k ∈ im'.loaded → k ∈ im.loaded := by
  induction evicted generalizing im with
  | nil =>
    obtain ⟨-, ⟨⟩⟩ := ite_none_left_eq_some.mp hroom
    exact ⟨h, nofun, fun _ hk => hk⟩
  | cons key rest ih =>
  obtain ⟨⟨-, hold⟩, hroom⟩ := ite_none_right_eq_some.mp hroom
  have hkey (hkept : kept) : searching key = 0 :=
    Int.natCast_eq_zero.mp ((h.pins hkept key).symm.trans (evictable_pins hold))
  obtain ⟨hend, hrest, hsub⟩ := ih (h.drop hkey) hroom
  refine ⟨hend, fun hkept => forall_mem_cons.mpr ⟨hkey hkept, hrest hkept⟩, fun k hk => ?_⟩
  have hk := hsub k hk
  rw [drop_loaded] at hk
  exact (AList.mem_erase.mp hk).2

end Inv

end Manager

/-- `searching` counts the searches of a version between their `acquire` and their `release`. -/
structure World where
  manager : Manager := {}
  searching : IndexKey → Nat := fun _ => 0

inductive Action
  | acquire (key : IndexKey) (now : Int)
  | release (key : IndexKey)
  | built (key : IndexKey) (sizeBytes : Nat) (now : Int) (evicted : List IndexKey)
  | loadFromDisk (key : IndexKey) (sidecar : Option Int) (now : Int) (evicted : List IndexKey)
  | evict (key : IndexKey)
  | evictByKB (kbID : String)
  | discard (key : IndexKey)
  | deleteFilesByKB (kbID : String)

def Action.evicted : Action → List IndexKey
  | .built _ _ _ evicted | .loadFromDisk _ _ _ evicted => evicted
  | _ => []

namespace World

def step (cfg : Config) (w : World) : Action → Option World
  | .acquire key now => (w.manager.acquire key now).map fun manager =>
      { manager, searching := update w.searching key (w.searching key + 1) }
  | .release key =>
    if 0 < w.searching key then
      some {
        manager := w.manager.release key
        searching := update w.searching key (w.searching key - 1) }
    else none
  | .built key sizeBytes now evicted =>
    (w.manager.built cfg key sizeBytes now evicted).map ({ w with manager := · })
  | .loadFromDisk key sidecar now evicted =>
    (w.manager.loadFromDisk cfg key sidecar now evicted).map ({ w with manager := · })
  | .evict key => some { w with manager := w.manager.drop key }
  | .evictByKB kbID => some { w with manager := w.manager.dropKB kbID }
  | .discard key => some { w with manager := { w.manager.drop key with
      deletedVersions := insert key w.manager.deletedVersions } }
  | .deleteFilesByKB kbID => some { w with manager := { w.manager.dropKB kbID with
      deletedKBs := insert kbID w.manager.deletedKBs } }

variable {cfg : Config} {kept : Prop} {w w' : World} {a : Action} {k : IndexKey}

/-- No version is taken out of memory by name while it is searched. -/
def Unsearched (w : World) : Action → Prop
  | .evict key | .discard key => w.searching key = 0
  | .evictByKB kbID | .deleteFilesByKB kbID =>
    ∀ key ∈ w.manager.loaded.keys, key.kbID = kbID → w.searching key = 0
  | _ => True

instance (w : World) (a : Action) : Decidable (w.Unsearched a) := by
  cases a <;> unfold Unsearched <;> infer_instance

lemma step_inv (h : w.manager.Inv kept w.searching) (hok : kept → w.Unsearched a)
    (hstep : w.step cfg a = some w') :
    w'.manager.Inv kept w'.searching ∧ (kept → ∀ k ∈ a.evicted, w.searching k = 0) := by
  cases a with
  | acquire key now =>
    obtain ⟨im, hacquire, rfl⟩ := map_eq_some_iff.mp hstep
    obtain ⟨idx, hidx, rfl⟩ := map_eq_some_iff.mp hacquire
    refine ⟨h.put (fun hkept => ?_) rfl h.bytes fun _ => .inr, nofun⟩
    have hkey := h.pins hkept key
    rw [Manager.pins, hidx] at hkey
    exact congrArg (· + 1) hkey
  | release key =>
    obtain ⟨hpos, ⟨⟩⟩ := ite_none_right_eq_some.mp hstep
    refine ⟨?_, nofun⟩
    have hkey (hkept : kept) : 0 < w.manager.pins key := h.pins hkept key ▸ Int.natCast_pos.mpr hpos
    dsimp only [Manager.release]
    unfold Manager.pins at hkey
    split
    · next hnone =>
      rw [hnone] at hkey
      exact ⟨h.bytes, h.loaded, fun hkept => absurd (hkey hkept) (lt_irrefl 0)⟩
    next idx hidx =>
    rw [hidx] at hkey
    split
    · refine h.put (fun hkept => ?_) rfl h.bytes fun _ => .inr
      have hcount := h.pins hkept key
      rw [Manager.pins, hidx, map_some, getD_some] at hcount
      simp only [hcount]
      omega
    · next hzero => exact ⟨h.bytes, h.loaded, fun hkept => absurd (hkey hkept) hzero⟩
  | built key sizeBytes now evicted =>
    obtain ⟨im, hbuilt, rfl⟩ := map_eq_some_iff.mp hstep
    obtain ⟨im, hroom, rfl⟩ := map_eq_some_iff.mp hbuilt
    obtain ⟨hinv, hevicted, -⟩ := h.makeRoomLocked hroom
    refine ⟨?_, hevicted⟩
    rw [← update_eq_self key w.searching]
    refine hinv.put (fun hkept => ?_) rfl ?_ fun k hk => (AList.mem_insert _).mp hk
    · rw [← hinv.pins hkept key, Manager.pins]
      cases im.loaded.lookup key <;> rfl
    have hsum := @Manager.sum_insert key sizeBytes im.sizeByKey
    have hbytes := hinv.bytes
    simp only [Manager.sizes] at hbytes ⊢
    omega
  | loadFromDisk key sidecar now evicted =>
    obtain ⟨im, hload, rfl⟩ := map_eq_some_iff.mp hstep
    obtain ⟨hnew, hload⟩ := ite_none_left_eq_some.mp hload
    obtain ⟨im, hroom, rfl⟩ := map_eq_some_iff.mp hload
    obtain ⟨hinv, hevicted, hsub⟩ := h.makeRoomLocked hroom
    have hout : key ∉ w.manager.loaded := fun hin => hnew (.inr (.inr hin))
    refine ⟨?_, hevicted⟩
    rw [← update_eq_self key w.searching]
    refine hinv.put (fun hkept => ?_) rfl ?_ fun k hk => (AList.mem_insert _).mp hk
    · rw [← h.pins hkept key, Manager.pins, AList.lookup_eq_none.mpr hout]
      rfl
    have hsum := @Manager.sum_insert key (readSizeSidecar sidecar) im.sizeByKey
    have hbytes := hinv.bytes
    rw [AList.lookup_eq_none.mpr fun hk => hout (hsub key (hinv.loaded key hk))] at hsum
    simp only [Manager.sizes, getD_none] at hsum hbytes ⊢
    omega
  | evict key | discard key =>
    cases hstep
    obtain ⟨hbytes, hloaded, hpins⟩ := h.drop hok
    exact ⟨⟨hbytes, hloaded, hpins⟩, nofun⟩
  | evictByKB kbID | deleteFilesByKB kbID =>
    cases hstep
    obtain ⟨hbytes, hloaded, hpins⟩ := h.dropKB hok
    exact ⟨⟨hbytes, hloaded, hpins⟩, nofun⟩

lemma inv_init : Manager.Inv kept (fun _ => 0) {} := ⟨rfl, nofun, fun _ _ => rfl⟩

/-- Whatever is built, loaded, evicted and deleted, and in whatever order, the memory accounting
agrees with the sizes recorded, all of them of loaded indexes. -/
theorem memory_accounted (hreach : Reachable (World.step cfg) {} w) :
    w.manager.loadedBytes = w.manager.sizes.sum ∧
      (∀ k ∈ w.manager.sizeByKey, k ∈ w.manager.loaded) ∧ 0 ≤ w.manager.loadedBytes := by
  obtain ⟨hbytes, hloaded, -⟩ := hreach.invariant (fun w => w.manager.Inv False w.searching)
    inv_init fun _ _ _ _ h _ hstep => (step_inv h nofun hstep).1
  exact ⟨hbytes, hloaded, hbytes ▸ Int.natCast_nonneg _⟩

theorem memory_accounted_two : ∃ w : World, w.manager.loadedBytes = 12 ∧
    w.manager.loadedBytes = w.manager.sizes.sum ∧
      (∀ k ∈ w.manager.sizeByKey, k ∈ w.manager.loaded) ∧ 0 ≤ w.manager.loadedBytes := by
  obtain ⟨w, hreach, hbytes⟩ : ∃ w, Reachable (World.step ⟨2, 0⟩) {} w ∧
      w.manager.loadedBytes = 12 :=
    Reach.exists_decide [.loadFromDisk ⟨"kb", 1⟩ (some 5) 0 [], .built ⟨"kb", 2⟩ 3 1 [],
      .built ⟨"kb", 3⟩ 7 2 [⟨"kb", 1⟩], .built ⟨"kb", 2⟩ 5 3 [⟨"kb", 2⟩]] (by decide +kernel)
  exact ⟨w, hbytes, memory_accounted hreach⟩

/-- In every run in which no version is taken out of memory by name while it is searched, what
capacity eviction drops is not searched. -/
theorem evicts_unsearched (hreach : Reach (World.step cfg) Unsearched {} w)
    (hstep : w.step cfg a = some w') (hk : k ∈ a.evicted) : w.searching k = 0 := by
  have h := hreach.invariant (fun w => w.manager.Inv True w.searching) inv_init
    fun _ _ _ _ h hok hstep => (step_inv h (fun _ => hok) hstep).1
  refine (step_inv h (fun _ => ?_) hstep).2 trivial k hk
  cases a with
  | built | loadFromDisk => trivial
  | _ => cases hk

/-- With room for two, version 2 is searched, evicted by name once the search is over and loaded
again. It is what the third version displaces, while version 1 is searched throughout. -/
theorem evicts_unsearched_third : ∃ w w' : World, Reach (World.step ⟨2, 0⟩) Unsearched {} w ∧
    w.step ⟨2, 0⟩ (.loadFromDisk ⟨"kb", 3⟩ none 6 [⟨"kb", 2⟩]) = some w' ∧
      w.searching ⟨"kb", 1⟩ = 1 ∧ w.searching ⟨"kb", 2⟩ = 0 := by
  obtain ⟨w, w', hreach, hstep, hsearched⟩ : ∃ w w', Reach (World.step ⟨2, 0⟩) Unsearched {} w ∧
      w.step ⟨2, 0⟩ (.loadFromDisk ⟨"kb", 3⟩ none 6 [⟨"kb", 2⟩]) = some w' ∧
        w.searching ⟨"kb", 1⟩ = 1 :=
    Reach.exists_decide_step [.loadFromDisk ⟨"kb", 1⟩ none 0 [], .acquire ⟨"kb", 1⟩ 1,
      .loadFromDisk ⟨"kb", 2⟩ none 2 [], .acquire ⟨"kb", 2⟩ 3, .release ⟨"kb", 2⟩,
      .evict ⟨"kb", 2⟩, .loadFromDisk ⟨"kb", 2⟩ none 5 []] (by decide +kernel)
  exact ⟨w, w', hreach, hstep, hsearched, evicts_unsearched hreach hstep (mem_singleton_self _)⟩

/-- A version that is searched is evicted by name and loaded again, now without a pin: when the
next one is loaded into the one place there is, it is dropped under the search. -/
theorem evicts_searched : ∃ w w', Reachable (World.step ⟨1, 0⟩) {} w ∧
    w.step ⟨1, 0⟩ (.loadFromDisk ⟨"kb", 2⟩ none 3 [⟨"kb", 1⟩]) = some w' ∧
      w.searching ⟨"kb", 1⟩ = 1 :=
  Reach.exists_decide_step [.loadFromDisk ⟨"kb", 1⟩ none 0 [], .acquire ⟨"kb", 1⟩ 1,
    .evict ⟨"kb", 1⟩, .loadFromDisk ⟨"kb", 1⟩ none 2 []] (by decide +kernel)

end World

end stratum.index.residency
