import Stratum.Sync.Leader

namespace stratum.sync

open stratum.coordinator stratum.docstore stratum.versiondoc stratum.chunkdoc List

structure PushVersionDataResponse where
  kbID : String
  versionID : Nat
  acceptorID : Int
deriving DecidableEq

/-- What the handler is wired with. The tombstone table tells the versions known to be deleted,
under version `0` a whole knowledge base; an entry that cannot be read counts as absent. -/
structure PushHandler where
  nodeID : Int := 0
  tombstones : Option (String → Nat → Bool) := none
  advanceVersion : Bool := true
  versionBloom : Bool := true
  watcher : Bool := true

/-- What the handler asks of, and tells, the rest of its node. -/
inductive Call
  | containsKB (kbID : String)
  | contains (kbID : String) (versionID : Nat)
  | markVersionContiguous (kbID : String) (versionID : Nat)
  | rebuildVersionBloom (kbID : String) (versionID : Nat)
  | watchVersionWrite (kbID : String) (versionID : Nat)
deriving DecidableEq

/-- The handler's locals while a stream is received, with the calls made so far. -/
structure Receiving where
  stores : Stores
  kbID : String := ""
  versionID : Nat := 0
  deletedHere : Bool := false
  calls : List Call := []

/-- The version of the stream once the entry is in: the last one an entry carried. -/
def SyncEntry.naming (entry : SyncEntry) (versionID : Nat) : Nat :=
  if entry.versionID ≠ 0 then entry.versionID else versionID

def Receiving.name (r : Receiving) (entry : SyncEntry) : Receiving :=
  { r with kbID := entry.kbID, versionID := entry.naming r.versionID }

namespace PushHandler

/-- The two looks at the tombstone table. Once the version is known to be deleted, and before
an entry has named one, there is none. -/
def lookup (h : PushHandler) (r : Receiving) : Receiving :=
  match h.tombstones with
  | none => r
  | some deleted =>
    if r.deletedHere = true ∨ r.versionID = 0 then r
    else if deleted r.kbID 0 = true then
      { r with deletedHere := true, calls := r.calls ++ [Call.containsKB r.kbID] }
    else
      { r with
        deletedHere := deleted r.kbID r.versionID
        calls := r.calls ++ [Call.containsKB r.kbID, .contains r.kbID r.versionID] }

/-- The receive loop: a deleted version's entries are drained, an entry that cannot be applied
ends the stream. -/
def receive (h : PushHandler) : Receiving → List SyncEntry → Receiving × Option Error
  | r, [] => (r, none)
  | r, entry :: entries =>
    let r := h.lookup (r.name entry)
    if r.deletedHere = true then h.receive r entries
    else
      match applyEntry r.stores entry with
      | .error e =>
        (r, some { e with
          detail := s!"sync: push apply ({entry.kbID} v{entry.versionID}): " ++ e.detail })
      | .ok stores => h.receive { r with stores } entries

/-- What a received version sets off on the node. -/
def landing (h : PushHandler) (kbID : String) (versionID : Nat) : List Call :=
  (if h.advanceVersion then [Call.markVersionContiguous kbID versionID] else [])
    ++ (if h.versionBloom then [Call.rebuildVersionBloom kbID versionID] else [])
    ++ (if h.watcher then [Call.watchVersionWrite kbID versionID] else [])

/-- `PushVersionData`; `broken` is the error that ended the stream in the place of its end. -/
def pushVersionData (h : PushHandler) (stores : Stores) (entries : List SyncEntry)
    (broken : Option Error) : Receiving × Except Error PushVersionDataResponse :=
  match h.receive { stores } entries with
  | (r, some e) => (r, .error e)
  | (r, none) =>
    match broken with
    | some e => (r, .error e)
    | none =>
      let response := { kbID := r.kbID, versionID := r.versionID, acceptorID := h.nodeID }
      if r.deletedHere = true ∨ r.kbID = "" then (r, .ok response)
      else ({ r with calls := r.calls ++ h.landing r.kbID r.versionID }, .ok response)

end PushHandler

namespace PushHandler

/-- Whether the table makes the handler drop an entry at a version the stream has named. -/
def refuses (h : PushHandler) (kbID : String) (versionID : Nat) : Bool :=
  match h.tombstones with
  | none => false
  | some deleted => versionID ≠ 0 && (deleted kbID 0 || deleted kbID versionID)

/-- The entries of a stream that reach the stores: those before the first one that is refused
or cannot be applied. -/
def accepted (h : PushHandler) : Nat → List SyncEntry → List SyncEntry
  | _, [] => []
  | versionID, entry :: entries =>
    if h.refuses entry.kbID (entry.naming versionID) = true ∨ entry.applies = false then []
    else entry :: h.accepted (entry.naming versionID) entries

variable {h : PushHandler} {r : Receiving} {entries : List SyncEntry}

@[simp]
lemma lookup_stores : (h.lookup r).stores = r.stores := by
  unfold lookup
  repeat' split
  all_goals rfl

@[simp]
lemma lookup_kbID : (h.lookup r).kbID = r.kbID := by
  unfold lookup
  repeat' split
  all_goals rfl

@[simp]
lemma lookup_versionID : (h.lookup r).versionID = r.versionID := by
  unfold lookup
  repeat' split
  all_goals rfl

lemma lookup_deletedHere (hlive : r.deletedHere = false) :
    (h.lookup r).deletedHere = h.refuses r.kbID r.versionID := by
  unfold lookup refuses
  cases h.tombstones with
  | none => exact hlive
  | some deleted =>
  dsimp only
  by_cases hzero : r.versionID = 0
  · simp [hzero, hlive]
  · rw [if_neg (by simp [hlive, hzero])]
    cases hkb : deleted r.kbID 0 <;> simp [hzero]

lemma lookup_of_deletedHere (hdeleted : r.deletedHere = true) : h.lookup r = r := by
  unfold lookup
  cases h.tombstones with
  | none => rfl
  | some deleted => simp [hdeleted]

/-- The version an exhausted stream has named last. -/
def lastVersion (versionID : Nat) (entries : List SyncEntry) : Nat :=
  entries.foldl (fun v entry => entry.naming v) versionID

/-- The knowledge base an exhausted stream has named last. -/
def lastKB (kbID : String) (entries : List SyncEntry) : String :=
  entries.foldl (fun _ entry => entry.kbID) kbID

lemma receive_of_deletedHere (hdeleted : r.deletedHere = true) :
    h.receive r entries = ({ r with
      kbID := lastKB r.kbID entries, versionID := lastVersion r.versionID entries }, none) := by
  induction entries generalizing r with
  | nil => rfl
  | cons entry entries ih =>
  have hname : (r.name entry).deletedHere = true := hdeleted
  unfold receive
  rw [lookup_of_deletedHere hname, if_pos hname, ih hname]
  rfl

variable (hlive : r.deletedHere = false)

include hlive

/-- What the loop does with an entry: from here on the stream is drained, or it ends here with
an error, or the entry is applied. -/
lemma receive_cons (entry : SyncEntry) (entries : List SyncEntry) :
    (h.refuses entry.kbID (entry.naming r.versionID) = true ∧ ∃ calls,
      h.receive r (entry :: entries) = ({ r with
        kbID := lastKB entry.kbID entries
        versionID := lastVersion (entry.naming r.versionID) entries
        deletedHere := true, calls }, none)) ∨
    (h.refuses entry.kbID (entry.naming r.versionID) = false ∧ entry.applies = false ∧
      ∃ r' e, h.receive r (entry :: entries) = (r', some e) ∧ r'.stores = r.stores) ∨
    (h.refuses entry.kbID (entry.naming r.versionID) = false ∧ entry.applies = true ∧ ∃ calls,
      h.receive r (entry :: entries) = h.receive { r with
        stores := entry.delivery.land r.stores
        kbID := entry.kbID, versionID := entry.naming r.versionID, calls } entries) := by
  have hname : (r.name entry).deletedHere = false := hlive
  have hlooked : h.lookup (r.name entry) =
      { r.name entry with
        deletedHere := h.refuses entry.kbID (entry.naming r.versionID)
        calls := (h.lookup (r.name entry)).calls } := by
    have hdeleted := lookup_deletedHere (h := h) hname
    cases hr : h.lookup (r.name entry) with
    | mk stores kbID versionID deletedHere calls =>
      have hstores := lookup_stores (h := h) (r := r.name entry)
      have hkb := lookup_kbID (h := h) (r := r.name entry)
      have hversion := lookup_versionID (h := h) (r := r.name entry)
      rw [hr] at hdeleted hstores hkb hversion
      dsimp only at hdeleted hstores hkb hversion
      rw [hdeleted, hstores, hkb, hversion]
      rfl
  rw [receive, hlooked]
  cases hrefused : h.refuses entry.kbID (entry.naming r.versionID) with
  | true =>
    refine .inl ⟨rfl, (h.lookup (r.name entry)).calls, ?_⟩
    rw [receive_of_deletedHere rfl]
    rfl
  | false =>
  refine .inr ?_
  cases happlies : entry.applies with
  | false =>
    obtain ⟨e, he⟩ := applyEntry_of_not_applies (r.name entry).stores happlies
    rw [he]
    exact .inl ⟨rfl, rfl, _, _, rfl, rfl⟩
  | true =>
  rw [applyEntry_of_applies _ happlies]
  refine .inr ⟨rfl, rfl, (h.lookup (r.name entry)).calls, ?_⟩
  rw [hlive]
  rfl

lemma receive_stores : (h.receive r entries).1.stores =
      (delivered (h.accepted r.versionID entries)).land r.stores := by
  induction entries generalizing r with
  | nil => exact (Delivery.land_empty _).symm
  | cons entry entries ih =>
  unfold accepted
  obtain ⟨hrefused, calls, heq⟩ | ⟨hrefused, happlies, r', e, heq, hstores⟩ |
      ⟨hrefused, happlies, calls, heq⟩ := receive_cons (h := h) hlive entry entries
  · rw [heq, if_pos (.inl hrefused)]
    exact (Delivery.land_empty _).symm
  · rw [heq, if_pos (.inr happlies), hstores]
    exact (Delivery.land_empty _).symm
  · rw [heq, if_neg (by simp [hrefused, happlies]), ih, delivered, Delivery.land_andThen]
    exact hlive

end PushHandler

namespace PushHandler

lemma pushVersionData_stores {h : PushHandler} {entries : List SyncEntry} (stores : Stores)
    (broken : Option Error) : (h.pushVersionData stores entries broken).1.stores =
      (delivered (h.accepted 0 entries)).land stores := by
  have hstores := @receive_stores h { stores } entries rfl
  unfold pushVersionData
  cases hreceive : h.receive { stores } entries with
  | mk r err =>
    rw [hreceive] at hstores
    cases err with
    | some e => exact hstores
    | none =>
    cases broken with
    | some e => exact hstores
    | none =>
      dsimp only
      split <;> exact hstores

end PushHandler

/-- A call about the version, or about its knowledge base as a whole. -/
def Call.Names (kbID : String) (versionID : Nat) : Call → Prop
  | .containsKB kb => kb = kbID
  | .contains kb v | .markVersionContiguous kb v | .rebuildVersionBloom kb v
  | .watchVersionWrite kb v => kb = kbID ∧ v = versionID

/-- So far the handler has taken the stream for the version's. -/
structure Receiving.Names (r : Receiving) (kbID : String) (v : Nat) : Prop where
  kb : r.kbID = kbID
  version : r.versionID = v
  calls : ∀ call ∈ r.calls, call.Names kbID v

variable {h : PushHandler} {r : Receiving} {kbID : String} {v : Nat}

lemma Receiving.Names.lookup (hr : r.Names kbID v) : (h.lookup r).Names kbID v := by
  unfold PushHandler.lookup
  cases h.tombstones with
  | none => exact hr
  | some deleted =>
  dsimp only
  split
  · exact hr
  have hkb : Call.Names kbID v (.containsKB r.kbID) := hr.kb
  have hversion : Call.Names kbID v (.contains r.kbID r.versionID) := ⟨hr.kb, hr.version⟩
  split
  · refine ⟨hr.kb, hr.version, fun call hcall => ?_⟩
    obtain hold | hnew := mem_append.mp hcall
    · exact hr.calls call hold
    · rw [mem_singleton.mp hnew]
      exact hkb
  refine ⟨hr.kb, hr.version, fun call hcall => ?_⟩
  obtain hold | hnew := mem_append.mp hcall
  · exact hr.calls call hold
  obtain rfl | rfl := mem_pair.mp hnew
  · exact hkb
  · exact hversion

variable {entries : List SyncEntry}

lemma Receiving.Names.receive (hr : r.Names kbID v)
    (hentries : ∀ entry ∈ entries, entry.kbID = kbID ∧ (entry.versionID = 0 ∨ entry.versionID = v)) :
    (h.receive r entries).1.Names kbID v := by
  induction entries generalizing r with
  | nil => exact hr
  | cons entry entries ih =>
  obtain ⟨hkb, hversion⟩ := hentries entry mem_cons_self
  have hrest := fun e he => hentries e (mem_cons_of_mem entry he)
  have hnamed : (r.name entry).Names kbID v := by
    refine ⟨hkb, ?_, hr.calls⟩
    unfold Receiving.name SyncEntry.naming
    split
    · next hne => exact hversion.resolve_left hne
    · exact hr.version
  have hlooked : (h.lookup (r.name entry)).Names kbID v := hnamed.lookup
  unfold PushHandler.receive
  dsimp only
  split
  · exact ih hlooked hrest
  split
  · exact hlooked
  · exact ih ⟨hlooked.kb, hlooked.version, hlooked.calls⟩ hrest

lemma Receiving.Names.pushVersionData {stores : Stores} {r : Receiving}
    {response : PushVersionDataResponse}
    (hpush : h.pushVersionData stores entries none = (r, .ok response))
    (hr : (h.receive { stores } entries).1.Names kbID v) :
    (∀ call ∈ r.calls, call.Names kbID v) ∧ response.versionID = v := by
  unfold PushHandler.pushVersionData at hpush
  cases hreceive : h.receive { stores } entries with
  | mk r' err =>
    rw [hreceive] at hpush hr
    cases err with
    | some e => cases hpush
    | none =>
    dsimp only at hpush hr
    split at hpush
    · cases hpush
      exact ⟨hr.calls, hr.version⟩
    cases hpush
    refine ⟨fun call hcall => ?_, hr.version⟩
    obtain hold | hnew := mem_append.mp hcall
    · exact hr.calls call hold
    · simp only [PushHandler.landing, mem_append, mem_ite_nil_right, mem_singleton] at hnew
      obtain (⟨-, rfl⟩ | ⟨-, rfl⟩) | ⟨-, rfl⟩ := hnew <;> exact ⟨hr.kb, hr.version⟩

/-- A handler whose table is empty applies every stream that can be applied, and looks up every
version an entry carries. -/
lemma receive_of_not_deleted (htable : h.tombstones = some fun _ _ => false)
    (hr : r.deletedHere = false) (happlies : ∀ entry ∈ entries, entry.applies = true) :
    ∃ r', h.receive r entries = (r', none) ∧ r'.deletedHere = false ∧
      (∀ call ∈ r.calls, call ∈ r'.calls) ∧
      ∀ entry ∈ entries, entry.versionID ≠ 0 → .contains entry.kbID entry.versionID ∈ r'.calls := by
  induction entries generalizing r with
  | nil => exact ⟨r, rfl, hr, fun _ hcall => hcall, by simp⟩
  | cons entry entries ih =>
  have hrest := fun e he => happlies e (mem_cons_of_mem entry he)
  have hlive : (h.lookup (r.name entry)).deletedHere = false := by
    unfold PushHandler.lookup
    rw [htable]
    dsimp only
    split <;> simp [Receiving.name, hr]
  have hcalls : ∀ call ∈ r.calls, call ∈ (h.lookup (r.name entry)).calls := by
    intro call hcall
    unfold PushHandler.lookup
    rw [htable]
    dsimp only
    split <;> simp [Receiving.name, hcall]
  have hlooked : entry.versionID ≠ 0 →
      .contains entry.kbID entry.versionID ∈ (h.lookup (r.name entry)).calls := by
    intro hne
    unfold PushHandler.lookup
    rw [htable]
    simp [Receiving.name, SyncEntry.naming, hr, hne]
  obtain ⟨r', hreceive, hlive', hkept, hseen⟩ :=
    @ih { h.lookup (r.name entry) with
      stores := entry.delivery.land (h.lookup (r.name entry)).stores } hlive hrest
  refine ⟨r', ?_, hlive', fun call hcall => hkept call (hcalls call hcall), ?_⟩
  · unfold PushHandler.receive
    rw [if_neg (by simp [hlive]), applyEntry_of_applies _ (happlies entry mem_cons_self)]
    exact hreceive
  intro e he hne
  obtain rfl | he := mem_cons.mp he
  · exact hkept _ (hlooked hne)
  · exact hseen e he hne

/-- The documents of the version are there, and each was last written at the version itself;
records at `0` carry no version on the wire. -/
def WrittenAt (src : Stores) (kbID : String) (v : Nat) : Prop :=
  (src.versionDocList.listDocIDs kbID v = ∅ → v = 0) ∧
    ∀ docID ∈ src.versionDocList.listDocIDs kbID v,
      src.docStore.visibleVersionOf kbID docID v = some v ∨
        src.docStore.visibleVersionOf kbID docID v = some 0

section Lands

variable {src : Stores} {scan range : Listing}

/-- A complete export of documents written at the version is taken for the version's. -/
lemma WrittenAt.receive (hok : (exportVersion src kbID v scan range).2 = none)
    (hwritten : WrittenAt src kbID v) (hne : (src.versionDocList.listDocIDs kbID v).Nonempty)
    (stores : Stores) :
    (h.receive { stores } (exportVersion src kbID v scan range).1).1.Names kbID v := by
  have hentries : ∀ entry ∈ (exportVersion src kbID v scan range).1,
      entry.kbID = kbID ∧ (entry.versionID = 0 ∨ entry.versionID = v) := by
    intro entry hentry
    obtain ⟨hkb, -, hzero | hself | ⟨docID, hdocID, hvisible⟩⟩ := of_mem_exportVersion hok hentry
    · exact ⟨hkb, .inl hzero⟩
    · exact ⟨hkb, .inr hself⟩
    refine ⟨hkb, ?_⟩
    rw [or_comm]
    simpa [hvisible] using hwritten.2 docID hdocID
  obtain ⟨entry, entries, heq, hkb, hversion⟩ := exportVersion_head hok hne
  rw [heq] at hentries ⊢
  -- The first entry names the version; from there on nothing changes the name.
  have hfirst : (h.receive { stores, kbID, versionID := v } (entry :: entries)) =
      h.receive { stores } (entry :: entries) := by
    have hname : Receiving.name { stores, kbID, versionID := v } entry =
        Receiving.name { stores } entry := by
      unfold Receiving.name SyncEntry.naming
      by_cases hv : v = 0 <;> simp [hversion]
    unfold PushHandler.receive
    rw [hname]
  rw [← hfirst]
  exact Receiving.Names.receive ⟨rfl, rfl, by simp⟩ hentries

/-- A receiver of a complete export checks, advances to, indexes, answers and watches exactly
the exported version, whatever it holds and knows to be deleted, if and only if the version has
documents and all of them were written at it. -/
theorem push_lands_iff (hok : (exportVersion src kbID v scan range).2 = none) :
    (∀ (h : PushHandler) (stores : Stores) (r : Receiving) (response : PushVersionDataResponse),
      h.pushVersionData stores (exportVersion src kbID v scan range).1 none = (r, .ok response) →
      (∀ call ∈ r.calls, call.Names kbID v) ∧ response.versionID = v) ↔
    WrittenAt src kbID v := by
  constructor
  · intro hlands
    -- A receiver that knows of no deletion looks every version of the stream up.
    obtain ⟨r, hreceive, hlive, -, hseen⟩ :=
      receive_of_not_deleted (h := { tombstones := some fun _ _ => false })
        (r := { stores := .empty }) rfl rfl
        fun entry hentry => (of_mem_exportVersion hok hentry).2.1
    obtain ⟨r', response, hpush, hcalls, hanswer⟩ : ∃ r' response,
        PushHandler.pushVersionData { tombstones := some fun _ _ => false } .empty
          (exportVersion src kbID v scan range).1 none = (r', .ok response) ∧
        (∀ call ∈ r.calls, call ∈ r'.calls) ∧ response.versionID = r.versionID := by
      unfold PushHandler.pushVersionData
      rw [hreceive]
      dsimp only
      split
      · exact ⟨_, _, rfl, fun _ hcall => hcall, rfl⟩
      · exact ⟨_, _, rfl, fun _ hcall => mem_append_left _ hcall, rfl⟩
    obtain ⟨hnames, hversion⟩ := hlands _ _ _ _ hpush
    constructor
    · intro hempty
      rw [exportVersion_of_empty hempty] at hreceive
      cases hreceive
      rw [← hversion, hanswer]
    · intro docID hdocID
      obtain ⟨entry, hentry, hkb, hvisible⟩ := exists_mem_exportVersion hok hdocID
      rw [hvisible, Option.some.injEq, Option.some.injEq]
      by_cases hzero : entry.versionID = 0
      · exact .inr hzero
      · exact .inl (hnames _ (hcalls _ (hseen entry hentry hzero))).2
  · intro hwritten h stores r response hpush
    by_cases hempty : src.versionDocList.listDocIDs kbID v = ∅
    · rw [exportVersion_of_empty hempty] at hpush
      cases hpush
      exact ⟨by simp, (hwritten.1 hempty).symm⟩
    · exact Receiving.Names.pushVersionData hpush
        (hwritten.receive hok (Finset.nonempty_of_ne_empty hempty) stores)

end Lands

/-- A node whose second version updates the one document of the first. -/
def updatedSource : Stores :=
  { Stores.empty with
    docStore := (DocStore.empty.write "kb" "a" 1 (some "x")).write "kb" "a" 2 (some "y")
    versionDocList := (VersionDocList.empty.writeMany "kb" 1 {"a"}).writeMany "kb" 2 {"a"} }

/-- A node whose second version takes one of the two documents of the first away. -/
def inheritingSource : Stores :=
  { Stores.empty with
    docStore := ((DocStore.empty.write "kb" "a" 1 (some "x")).write "kb" "d" 1 (some "y")).write
      "kb" "d" 2 none
    versionDocList := (VersionDocList.empty.writeMany "kb" 1 {"a", "d"}).writeMany "kb" 2 {"a"} }

lemma exportVersion_single (src : Stores) (v u : Nat) (x : Value) (scan range : Listing)
    (hdocs : src.versionDocList.listDocIDs "kb" v = {"a"})
    (hvisible : src.docStore.visibleVersionOf "kb" "a" v = some u)
    (hrecord : src.docStore.db "kb" "a" u = some x) (hpairs : src.chunkDocMapper.pairs "kb" = ∅) :
    exportVersion src "kb" v scan range =
      ([{ entryType := .versionDocList, kbID := "kb", docID := "a", versionID := v },
        { entryType := .docStore, kbID := "kb", docID := "a", versionID := u,
          payload := some (wirePayload x) }], none) := by
  simp [exportVersion, hdocs, scan.list_singleton, streamDocStore, docStoreEntry, hvisible, hrecord,
    streamVersionDocList, streamChunks, streamChunkDocReverse, streamChunkDocForward,
    streamChunkVectors, ChunkDocMapper.listChunkIDsByDocs, hpairs, scan.list_empty, range.list_empty]

theorem push_lands_updated : WrittenAt updatedSource "kb" 2 ∧
    ∀ (h : PushHandler) (stores : Stores) (r : Receiving) (response : PushVersionDataResponse),
      h.pushVersionData stores (exportVersion updatedSource "kb" 2 keyOrder keyOrder).1 none =
        (r, .ok response) →
      (∀ call ∈ r.calls, call.Names "kb" 2) ∧ response.versionID = 2 := by
  have hexport := exportVersion_single updatedSource 2 2 (.content "y") keyOrder keyOrder
    (by decide) (by decide) (by decide) (by decide)
  have hwritten : WrittenAt updatedSource "kb" 2 := ⟨by decide, by decide⟩
  exact ⟨hwritten, (push_lands_iff (by rw [hexport])).mpr hwritten⟩

/-- The receiver of the second version, whose document was written at the first, takes it for
the first. -/
theorem push_lands_inherited :
    (exportVersion inheritingSource "kb" 2 keyOrder keyOrder).2 = none ∧
    ∃ r response, PushHandler.pushVersionData { tombstones := some fun _ _ => false } .empty
        (exportVersion inheritingSource "kb" 2 keyOrder keyOrder).1 none = (r, .ok response) ∧
      r.calls = [.containsKB "kb", .contains "kb" 2, .containsKB "kb", .contains "kb" 1,
        .markVersionContiguous "kb" 1, .rebuildVersionBloom "kb" 1, .watchVersionWrite "kb" 1] ∧
      response.versionID = 1 := by
  have hexport := exportVersion_single inheritingSource 2 1 (.content "x") keyOrder keyOrder
    (by decide) (by decide) (by decide) (by decide)
  rw [hexport]
  exact ⟨rfl, _, _, rfl, rfl, rfl⟩

end stratum.sync
