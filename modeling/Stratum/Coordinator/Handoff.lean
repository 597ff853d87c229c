import Stratum.Coordinator.Dispatch

namespace stratum.coordinator.dispatch

open stratum.lib stratum.metadata Function List Option World

/-- The changes of a write are still to be handed over: parked while its `Execute`, which takes
them if nobody does, has not returned; or taken and being handed over. -/
def OnItsWay (w : World) (i : Nat) (write : Write) (v : Nat) : Prop :=
  w.pending write.kbID write.dispatchID = some i ∧ write.stage = .waiting ∨
    ∃ d ∈ w.inFlight i, d.versionID = v

/-- No applied write is forgotten: its changes are on their way, have been handed to a storage
writer for its version exactly once, or the version is reported as abandoned. -/
def Accounted (w : World) : Prop :=
  ∀ i write v, w.writes[i]? = some write → write.entry = .applied v →
    w.handed i = [] ∧ (OnItsWay w i write v ∨ v ∈ w.abandoned) ∨
      ∃ d, w.handed i = [d] ∧ d.versionID = v

def Entry.isApplied : Entry → Bool
  | .applied _ => true
  | _ => false

/-- The outcome `Execute` sees is the outcome of the entry, and giving up is reported: an entry is
applied only while its write waits for it, a write gives up only on an entry that has not been
applied, a dispatch fails only where that is reported. A request is not repeated while a callback
for it has to run, and not made elsewhere while its changes are parked here; the process restarts
only when nothing is on its way. -/
def Certain (w : World) : Action → Prop
  | .command _ cmd _ =>
    match cmd with
    | .createVersion kbID _ clientRequestID => w.pending kbID clientRequestID = none
    | _ => True
  | .start kbID _ _ clientRequestID generated =>
    ∀ h ∈ w.hooks, ¬(h.kbID = kbID ∧ h.clientRequestID = dispatchID clientRequestID generated)
  | .apply i _ _ => ∀ write ∈ (w.writes[i]?).toList, write.stage = .waiting
  | .giveUp i => ∀ write ∈ (w.writes[i]?).toList, write.entry.isApplied = false
  | .fail i j reported => ∀ d ∈ ((w.inFlight i)[j]?).toList, d.byHook = false ∧ reported = true
  | .restart => (∀ write ∈ w.writes, write.stage = .returned) ∧
      ∀ i ∈ range w.writes.length, w.inFlight i = []
  | _ => True

instance (w : World) (a : Action) : Decidable (Certain w a) := by
  induction a using Action.casesOn with
  | command now cmd reply =>
    induction cmd using Command.casesOn <;> dsimp only [Certain] <;> infer_instance
  | _ => dsimp only [Certain]; infer_instance

/-- The list of a write that was taken for a version: it is being handed over, was handed over
once, or the version was reported. -/
def Taken (w : World) (i v : Nat) : Prop :=
  (∃ d, w.inFlight i = [d] ∧ d.versionID = v ∧ w.handed i = []) ∨
    w.inFlight i = [] ∧ ((∃ d, w.handed i = [d] ∧ d.versionID = v) ∨
      w.handed i = [] ∧ v ∈ w.abandoned)

/-- Where the list of a write is: parked until `Execute` returns, or taken for the version of an
applied entry; without a version it is dropped when `Execute` returns. -/
def Placed (w : World) (i : Nat) (write : Write) : Prop :=
  w.pending write.kbID write.dispatchID = some i ∧ w.inFlight i = [] ∧ w.handed i = [] ∧
      (write.stage = .waiting ∨ write.stage = .parked ∧ write.entry = .missing) ∨
    w.pending write.kbID write.dispatchID ≠ some i ∧
      ((∃ v, write.entry = .applied v ∧ write.stage ≠ .parked ∧ Taken w i v) ∨
        write.entry.isApplied = false ∧ write.stage = .returned ∧ w.inFlight i = [] ∧
          w.handed i = [])

/-- Lists are parked by writes in progress, of which a knowledge base has one at a time, and a
callback that finds one finds that of its own entry. -/
structure Consistent (w : World) : Prop where
  parked : ∀ kbID id k, w.pending kbID id = some k → ∃ write, w.writes[k]? = some write ∧
    write.kbID = kbID ∧ write.dispatchID = id ∧ write.stage ≠ .returned
  locked : ∀ (i j : Nat) (write other : Write), w.writes[i]? = some write →
    w.writes[j]? = some other → write.kbID = other.kbID → write.stage ≠ .returned →
    other.stage ≠ .returned → i = j
  placed : ∀ i write, w.writes[i]? = some write → Placed w i write
  absent : ∀ i, w.writes[i]? = none → w.inFlight i = [] ∧ w.handed i = []
  hooks : ∀ h ∈ w.hooks, ∀ k write, w.pending h.kbID h.clientRequestID = some k →
    w.writes[k]? = some write → write.entry = .applied h.versionID

variable {w w' : World}

lemma Consistent.accounted (h : Consistent w) : Accounted w := by
  intro i write v hwrite hentry
  obtain ⟨hpending, -, hhanded, hstage⟩ | ⟨-, ⟨v', hentry', -, htaken⟩ | ⟨happlied, -⟩⟩ :=
    h.placed i write hwrite
  · refine .inl ⟨hhanded, .inl (.inl ⟨hpending, hstage.resolve_right ?_⟩)⟩
    rintro ⟨-, hmissing⟩
    rw [hentry] at hmissing
    cases hmissing
  · rw [hentry] at hentry'
    cases hentry'
    obtain ⟨d, hflight, hversion, hhanded⟩ | ⟨-, hhanded | ⟨hhanded, hreported⟩⟩ := htaken
    · exact .inl ⟨hhanded, .inl (.inr ⟨d, by simp [hflight], hversion⟩)⟩
    · exact .inr hhanded
    · exact .inl ⟨hhanded, .inr hreported⟩
  · rw [hentry] at happlied
    cases happlied

lemma consistent_init (sm : StateMachine) : Consistent (init sm) where
  parked _ _ _ hpending := by cases hpending
  locked _ _ _ _ hwrite := by cases hwrite
  placed _ _ hwrite := by cases hwrite
  absent _ _ := ⟨rfl, rfl⟩
  hooks _ hh := by cases hh

lemma setPending_pending (w : World) (kbID id : String) (x : Option Nat) (kbID' id' : String) :
    (w.setPending kbID id x).pending kbID' id' =
      if kbID' = kbID ∧ id' = id then x else w.pending kbID' id' := by
  unfold setPending
  dsimp only
  by_cases hkb : kbID' = kbID
  · subst hkb
    rw [update_self]
    by_cases hid : id' = id
    · subst hid
      rw [update_self, if_pos ⟨rfl, rfl⟩]
    · rw [update_of_ne hid, if_neg fun heq => hid heq.2]
  · rw [update_of_ne hkb, if_neg fun heq => hkb heq.1]

lemma Placed.congr {i : Nat} {write : Write} (h : Placed w i write)
    (hpending : w'.pending write.kbID write.dispatchID = some i ↔
      w.pending write.kbID write.dispatchID = some i)
    (hflight : w'.inFlight i = w.inFlight i) (hhanded : w'.handed i = w.handed i)
    (habandoned : ∀ v ∈ w.abandoned, v ∈ w'.abandoned) : Placed w' i write := by
  unfold Placed Taken at h ⊢
  rw [hflight, hhanded, Ne, hpending]
  refine h.imp_right fun hout => ⟨hout.1, hout.2.imp_left fun htaken => ?_⟩
  obtain ⟨v, hentry, hproposed, htaken⟩ := htaken
  refine ⟨v, hentry, hproposed, htaken.imp_right fun hdone => ⟨hdone.1, hdone.2.imp_right ?_⟩⟩
  exact fun hreported => ⟨hreported.1, habandoned v hreported.2⟩

/-- One write changes with its list, and lists are taken out of the registry only. -/
lemma Consistent.update (h : Consistent w) {i : Nat} {write : Write}
    (hi : w.writes[i]? = some write) (write' : Write)
    (hkb : write'.kbID = write.kbID) (hid : write'.dispatchID = write.dispatchID)
    (hstage : write'.stage = .returned ∨ write.stage ≠ .returned)
    (hat : w'.writes[i]? = some write') (helse : ∀ j, j ≠ i → w'.writes[j]? = w.writes[j]?)
    (hpending : ∀ kbID id k, w'.pending kbID id = some k → w.pending kbID id = some k ∧
      (k = i → write'.stage ≠ .returned))
    (hkeep : ∀ kbID id k, k ≠ i → w.pending kbID id = some k → w'.pending kbID id = some k)
    (hflight : ∀ j, j ≠ i → w'.inFlight j = w.inFlight j)
    (hhanded : ∀ j, j ≠ i → w'.handed j = w.handed j)
    (habandoned : ∀ v ∈ w.abandoned, v ∈ w'.abandoned) (hplaced : Placed w' i write')
    (hhooks : ∀ hook ∈ w'.hooks, ∀ k other,
      w'.pending hook.kbID hook.clientRequestID = some k → w'.writes[k]? = some other →
      other.entry = .applied hook.versionID) : Consistent w' := by
  have hcases {j : Nat} {other : Write} (hj : w'.writes[j]? = some other) :
      j = i ∧ other = write' ∨ j ≠ i ∧ w.writes[j]? = some other := by
    by_cases hji : j = i
    · subst hji
      rw [hat] at hj
      exact .inl ⟨rfl, (some.inj hj).symm⟩
    · exact .inr ⟨hji, helse j hji ▸ hj⟩
  refine ⟨fun kbID id k hk => ?_, fun j k first second hj hk hsame hfirst hsecond => ?_,
    fun j other hj => ?_, fun j hj => ?_, hhooks⟩
  · obtain ⟨hold, hnot⟩ := hpending kbID id k hk
    obtain ⟨parked, hparked, hkbID, hdispatchID, hreturned⟩ := h.parked kbID id k hold
    by_cases hki : k = i
    · subst hki
      rw [hi] at hparked
      cases hparked
      exact ⟨write', hat, hkb.trans hkbID, hid.trans hdispatchID, hnot rfl⟩
    · exact ⟨parked, (helse k hki).trans hparked, hkbID, hdispatchID, hreturned⟩
  · have hbefore {j : Nat} {first : Write} (hj : w'.writes[j]? = some first)
        (hfirst : first.stage ≠ .returned) : ∃ old, w.writes[j]? = some old ∧
          first.kbID = old.kbID ∧ old.stage ≠ .returned := by
      obtain ⟨rfl, rfl⟩ | ⟨-, hold⟩ := hcases hj
      · exact ⟨write, hi, hkb, hstage.resolve_left hfirst⟩
      · exact ⟨first, hold, rfl, hfirst⟩
    obtain ⟨old, hold, hkbID, hrunning⟩ := hbefore hj hfirst
    obtain ⟨old', hold', hkbID', hrunning'⟩ := hbefore hk hsecond
    exact h.locked j k old old' hold hold' (by rw [← hkbID, ← hkbID', hsame]) hrunning hrunning'
  · obtain ⟨rfl, rfl⟩ | ⟨hji, hold⟩ := hcases hj
    · exact hplaced
    refine (h.placed j other hold).congr ⟨fun hp => (hpending _ _ j hp).1, ?_⟩ (hflight j hji)
      (hhanded j hji) habandoned
    exact hkeep _ _ j hji
  have hji : j ≠ i := by
    rintro rfl
    rw [hat] at hj
    cases hj
  rw [hflight j hji, hhanded j hji]
  exact h.absent j ((helse j hji).symm.trans hj)

variable {id kbID : String} {j : Nat} {hooks : List Hook} {d : Dispatch}

section

variable {i : Nat} {write : Write}

section

variable (h : Consistent w) (hi : w.writes[i]? = some write)

include h hi

namespace Consistent

section

variable (hpending : w.pending kbID id = some i)

include hpending

lemma key_eq : kbID = write.kbID ∧ id = write.dispatchID := by
  obtain ⟨parked, hparked, hkbID, hid, -⟩ := h.parked kbID id i hpending
  rw [hi] at hparked
  cases hparked
  exact ⟨hkbID.symm, hid.symm⟩

lemma running_of_pending : write.stage ≠ .returned := by
  obtain ⟨parked, hparked, -, -, hrunning⟩ := h.parked kbID id i hpending
  rw [hi] at hparked
  cases hparked
  exact hrunning

end

lemma pending_of_running (hrunning : write.stage ≠ .returned)
    (hentry : write.entry.isApplied = false) :
    w.pending write.kbID write.dispatchID = some i ∧ w.inFlight i = [] ∧ w.handed i = [] := by
  obtain ⟨hpending, hflight, hhanded, -⟩ | ⟨-, ⟨v, happlied, -⟩ | ⟨-, hreturned, -⟩⟩ :=
    h.placed i write hi
  · exact ⟨hpending, hflight, hhanded⟩
  · rw [happlied] at hentry
    cases hentry
  · exact absurd hreturned hrunning

lemma entry_of_parked (hstage : write.stage = .parked) : write.entry = .missing := by
  obtain ⟨-, -, -, hwaiting | ⟨-, hmissing⟩⟩ | ⟨-, ⟨-, -, hproposed, -⟩ | ⟨-, hreturned, -⟩⟩ :=
    h.placed i write hi
  · rw [hstage] at hwaiting
    cases hwaiting
  · exact hmissing
  · exact absurd hstage hproposed
  · rw [hstage] at hreturned
    cases hreturned

end Consistent

end

lemma getElem?_setWrite_self (hi : w.writes[i]? = some write) (write' : Write) :
    (w.setWrite i write').writes[i]? = some write' := by
  obtain ⟨hlt, -⟩ := List.getElem?_eq_some_iff.mp hi
  exact List.getElem?_set_self hlt

lemma getElem?_setWrite_of_ne (w : World) (write' : Write) (hji : j ≠ i) :
    (w.setWrite i write').writes[j]? = w.writes[j]? :=
  getElem?_set_ne hji.symm

lemma Consistent.setPending_none (h : Consistent w) (hi : w.writes[i]? = some write) {k : Nat}
    (hpending : (w.setPending write.kbID write.dispatchID none).pending kbID id = some k) :
    w.pending kbID id = some k ∧ k ≠ i := by
  rw [setPending_pending] at hpending
  split at hpending
  · cases hpending
  rename_i hkey
  refine ⟨hpending, ?_⟩
  rintro rfl
  exact hkey (h.key_eq hi hpending)

lemma setPending_none_of_ne {kbID' id' : String} {k : Nat}
    (hold : ∀ j, w.pending kbID id = some j → j = i) (hki : k ≠ i)
    (hpending : w.pending kbID' id' = some k) :
    (w.setPending kbID id none).pending kbID' id' = some k := by
  rw [setPending_pending, if_neg]
  · exact hpending
  · rintro ⟨rfl, rfl⟩
    exact hki (hold k hpending)

variable (h : Consistent w)

include h

namespace Consistent

lemma drop (hi : w.writes[i]? = some write) (hrunning : write.stage ≠ .returned)
    (hentry : write.entry.isApplied = false) :
    Consistent ((w.setPending write.kbID write.dispatchID none).setWrite i
      { write with stage := .returned }) := by
  obtain ⟨hpending, hflight, hhanded⟩ := h.pending_of_running hi hrunning hentry
  refine h.update hi { write with stage := .returned } rfl rfl (.inl rfl)
    (getElem?_setWrite_self (w := w.setPending _ _ none) hi _)
    (fun j hji => getElem?_setWrite_of_ne _ _ hji) (fun kbID id k hk => ?_)
    (fun kbID id k hki hk => ?_) (fun _ _ => rfl) (fun _ _ => rfl) (fun _ hv => hv) (.inr ?_)
    (fun hook hhook k other hk hother => ?_)
  · obtain ⟨hold, hki⟩ := h.setPending_none hi hk
    exact ⟨hold, fun heq => absurd heq hki⟩
  · exact setPending_none_of_ne (fun j hj => some.inj (hj.symm.trans hpending)) hki hk
  · exact ⟨fun hk => (h.setPending_none hi hk).2 rfl, .inr ⟨hentry, rfl, hflight, hhanded⟩⟩
  obtain ⟨hold, hki⟩ := h.setPending_none hi hk
  rw [getElem?_setWrite_of_ne _ _ hki] at hother
  exact h.hooks hook hhook k other hold hother

/-- An entry that had no version moves on while its write waits, or comes to nothing. -/
lemma advance (hi : w.writes[i]? = some write) (hold : write.entry.isApplied = false)
    (sm : StateMachine) {stage : Stage} {entry : Entry}
    (hstage : write.stage ≠ .returned ∧ stage = .waiting ∨ write.stage = .returned ∧ stage =
      .returned ∧ entry.isApplied = false)
    (hhooks : ∀ hook ∈ hooks, hook ∈ w.hooks ∨ hook.kbID = write.kbID ∧ hook.clientRequestID =
      write.dispatchID ∧ entry = .applied hook.versionID) :
    Consistent { w.setWrite i { write with stage := stage, entry := entry } with
      sm := sm, hooks := hooks } := by
  refine h.update hi { write with stage := stage, entry := entry } rfl rfl ?_
    (getElem?_setWrite_self hi _)
    (fun j hji => getElem?_setWrite_of_ne _ _ hji) (fun kbID id k hk => ⟨hk, ?_⟩)
    (fun kbID id k _ hk => hk) (fun _ _ => rfl) (fun _ _ => rfl) (fun _ hv => hv) ?_
    (fun hook hhook k other hk hother => ?_)
  · exact hstage.symm.imp (fun hreturned => hreturned.2.1) fun hrunning => hrunning.1
  · rintro rfl
    obtain ⟨-, hwaiting⟩ | ⟨hreturned, -⟩ := hstage
    · rw [hwaiting]
      exact nofun
    · exact absurd hreturned (h.running_of_pending hi hk)
  · obtain ⟨hrunning, hwaiting⟩ | ⟨hreturned, hstill, hnone⟩ := hstage
    · obtain ⟨hpending, hflight, hhanded⟩ := h.pending_of_running hi hrunning hold
      exact .inl ⟨hpending, hflight, hhanded, .inl hwaiting⟩
    obtain ⟨hpending, -⟩ | ⟨hpending, ⟨v, happlied, -⟩ | ⟨-, -, hflight, hhanded⟩⟩ :=
      h.placed i write hi
    · exact absurd hreturned (h.running_of_pending hi hpending)
    · rw [happlied] at hold
      cases hold
    · exact .inr ⟨hpending, .inr ⟨hnone, hstill, hflight, hhanded⟩⟩
  by_cases hki : k = i
  · subst hki
    rw [getElem?_setWrite_self hi] at hother
    cases hother
    refine (hhooks hook hhook).elim (fun hbefore => ?_) fun hnew => hnew.2.2
    -- A callback from before would be one of an applied entry.
    rw [h.hooks hook hbefore k write hk hi] at hold
    cases hold
  rw [getElem?_setWrite_of_ne _ _ hki] at hother
  obtain hbefore | ⟨hkbID, hid, -⟩ := hhooks hook hhook
  · exact h.hooks hook hbefore k other hk hother
  -- The callback's key is that of the write that waits, so its list is the one parked.
  obtain ⟨hrunning, -⟩ | ⟨-, -, hnone⟩ := hstage
  · obtain ⟨hpending, -⟩ := h.pending_of_running hi hrunning hold
    dsimp only [setWrite] at hk
    rw [hkbID, hid, hpending] at hk
    exact absurd (some.inj hk).symm hki
  obtain ⟨-, -, happlied⟩ | hbefore := (hhooks hook hhook).symm
  · rw [happlied] at hnone
    cases hnone
  · exact h.hooks hook hbefore k other hk hother

lemma taken (hi : w.writes[i]? = some write)
    (hpending : w.pending write.kbID write.dispatchID = some i)
    (hentry : write.entry = .applied d.versionID) {stage : Stage}
    (hstage : stage = .returned ∨ stage = write.stage) {writes : List Write}
    (hat : writes[i]? = some { write with stage := stage })
    (helse : ∀ j, j ≠ i → writes[j]? = w.writes[j]?) (hhooks : ∀ hook ∈ hooks, hook ∈ w.hooks) :
    Consistent { w.setPending write.kbID write.dispatchID none with
      writes := writes
      inFlight := Function.update w.inFlight i (w.inFlight i ++ [d])
      hooks := hooks } := by
  have hrunning := h.running_of_pending hi hpending
  refine h.update hi { write with stage := stage } rfl rfl (.inr hrunning) hat helse
    (fun kbID id k hk => ?_) (fun kbID id k hki hk => ?_)
    (fun j hji => update_of_ne hji _ _) (fun _ _ => rfl) (fun _ hv => hv)
    (.inr ⟨?_, .inl ⟨d.versionID, hentry, ?_, .inl ⟨d, ?_, rfl, ?_⟩⟩⟩)
    (fun hook hhook k other hk hother => ?_)
  · obtain ⟨hold, hki⟩ := h.setPending_none hi hk
    exact ⟨hold, fun heq => absurd heq hki⟩
  · exact setPending_none_of_ne (fun j hj => some.inj (hj.symm.trans hpending)) hki hk
  · exact fun hk => (h.setPending_none hi hk).2 rfl
  · obtain rfl | rfl := hstage
    · exact nofun
    intro hparked
    have hmissing := h.entry_of_parked hi hparked
    rw [hentry] at hmissing
    cases hmissing
  · obtain ⟨-, hflight, -⟩ | ⟨hnot, -⟩ := h.placed i write hi
    · dsimp only
      rw [Function.update_self, hflight, nil_append]
    · exact absurd hpending hnot
  · obtain ⟨-, -, hhanded, -⟩ | ⟨hnot, -⟩ := h.placed i write hi
    · exact hhanded
    · exact absurd hpending hnot
  · obtain ⟨hold, hki⟩ := h.setPending_none hi hk
    exact h.hooks hook (hhooks hook hhook) k other hold (helse k hki ▸ hother)

/-- A list being handed over is the only one of its write, taken for the version of its entry. -/
lemma of_inFlight (hd : (w.inFlight i)[j]? = some d) : ∃ write, w.writes[i]? = some write ∧
      write.entry = .applied d.versionID ∧ write.stage ≠ .parked ∧
      w.pending write.kbID write.dispatchID ≠ some i ∧ w.handed i = [] ∧
      (w.inFlight i).eraseIdx j = [] := by
  have hne : w.inFlight i ≠ [] := by
    intro hnil
    rw [hnil] at hd
    cases hd
  cases hwrite : w.writes[i]? with
  | none => exact absurd (h.absent i hwrite).1 hne
  | some write =>
  obtain ⟨-, hnil, -⟩ | ⟨hpending, ⟨v, hentry, hstage, htaken⟩ | ⟨-, -, hnil, -⟩⟩ :=
    h.placed i write hwrite
  · exact absurd hnil hne
  · obtain ⟨d', hflight, rfl, hhanded⟩ | ⟨hnil, -⟩ := htaken
    · rw [hflight] at hd ⊢
      rw [getElem?_singleton] at hd
      obtain ⟨rfl, ⟨⟩⟩ := ite_none_right_eq_some.mp hd
      exact ⟨write, rfl, hentry, hstage, hpending, hhanded, rfl⟩
    · exact absurd hnil hne
  · exact absurd hnil hne

lemma settle (hd : (w.inFlight i)[j]? = some d) (handed : List Dispatch)
    (abandoned : List Nat) (habandoned : ∀ v ∈ w.abandoned, v ∈ abandoned)
    (hsettled : handed = w.handed i ++ [d] ∨ handed = w.handed i ∧ d.versionID ∈ abandoned) :
    Consistent { w with
      inFlight := Function.update w.inFlight i ((w.inFlight i).eraseIdx j)
      handed := Function.update w.handed i handed
      abandoned := abandoned } := by
  obtain ⟨write, hi, hentry, hstage, hpending, hhanded, hempty⟩ := h.of_inFlight hd
  rw [hhanded] at hsettled
  refine h.update hi write rfl rfl ?_ hi (fun _ _ => rfl) (fun kbID id k hk => ⟨hk, ?_⟩)
    (fun _ _ _ _ hk => hk) (fun j hji => update_of_ne hji _ _)
    (fun j hji => update_of_ne hji _ _) habandoned
    (.inr ⟨hpending, .inl ⟨d.versionID, hentry, hstage, .inr ⟨?_, ?_⟩⟩⟩)
    h.hooks
  · exact (em _)
  · rintro rfl
    exact h.running_of_pending hi hk
  · exact (Function.update_self ..).trans hempty
  dsimp only
  rw [Function.update_self]
  exact hsettled.imp_left fun heq => ⟨d, heq, rfl⟩

lemma start (new : Write) (hstage : new.stage = .parked) (hentry : new.entry = .missing)
    (hlock : ∀ write ∈ w.writes, write.kbID = new.kbID → write.stage = .returned)
    (hhooks : ∀ hook ∈ w.hooks, ¬(hook.kbID = new.kbID ∧ hook.clientRequestID = new.dispatchID)) :
    Consistent { w.setPending new.kbID new.dispatchID (some w.writes.length) with
      writes := w.writes ++ [new] } := by
  have hfree (id : String) : w.pending new.kbID id = none := by
    cases hpending : w.pending new.kbID id with
    | none => rfl
    | some k =>
      obtain ⟨write, hwrite, hkbID, -, hrunning⟩ := h.parked _ _ k hpending
      exact absurd (hlock write (mem_of_getElem? hwrite) hkbID) hrunning
  have hcases {j : Nat} {other : Write} (hj : (w.writes ++ [new])[j]? = some other) :
      w.writes[j]? = some other ∨ j = w.writes.length ∧ other = new := by
    obtain hlt | hge := Nat.lt_or_ge j w.writes.length
    · rw [List.getElem?_append_left hlt] at hj
      exact .inl hj
    rw [getElem?_append_right hge, getElem?_singleton] at hj
    obtain ⟨hzero, ⟨⟩⟩ := ite_none_right_eq_some.mp hj
    exact .inr ⟨by omega, rfl⟩
  have hkept {j : Nat} {other : Write} (hj : w.writes[j]? = some other) :
      (w.writes ++ [new])[j]? = some other := by
    rw [List.getElem?_append_left (List.getElem?_eq_some_iff.mp hj).1]
    exact hj
  refine ⟨fun kbID id k hk => ?_, fun j k first second hj hk hsame hfirst hsecond => ?_,
    fun j other hj => ?_, fun j hj => ?_, fun hook hhook k other hk hother => ?_⟩
  · rw [setPending_pending] at hk
    split at hk
    · rename_i hkey
      cases hk
      refine ⟨new, by simp, hkey.1.symm, hkey.2.symm, ?_⟩
      rw [hstage]
      exact nofun
    · obtain ⟨write, hwrite, hrest⟩ := h.parked kbID id k hk
      exact ⟨write, hkept hwrite, hrest⟩
  · obtain hold | ⟨rfl, rfl⟩ := hcases hj <;> obtain hold' | ⟨rfl, rfl⟩ := hcases hk
    · exact h.locked j k first second hold hold' hsame hfirst hsecond
    · exact absurd (hlock first (mem_of_getElem? hold) hsame) hfirst
    · exact absurd (hlock second (mem_of_getElem? hold') hsame.symm) hsecond
    · rfl
  · obtain hold | ⟨rfl, rfl⟩ := hcases hj
    · refine (h.placed j other hold).congr ?_ rfl rfl fun _ hv => hv
      rw [setPending_pending]
      split
      · rename_i hkey
        rw [hkey.1, hfree, some_inj]
        have hlt := (List.getElem?_eq_some_iff.mp hold).1
        exact ⟨fun heq => absurd heq (by omega), fun heq => (by cases heq)⟩
      · rfl
    · obtain ⟨hflight, hhanded⟩ := h.absent w.writes.length (getElem?_eq_none (by omega))
      refine .inl ⟨?_, hflight, hhanded, .inr ⟨hstage, hentry⟩⟩
      rw [setPending_pending, if_pos ⟨rfl, rfl⟩]
  · refine h.absent j (getElem?_eq_none ?_)
    have hlen := getElem?_eq_none_iff.mp hj
    rw [length_append] at hlen
    omega
  rw [setPending_pending, if_neg (hhooks hook hhook)] at hk
  obtain ⟨write, hwrite, -⟩ := h.parked _ _ k hk
  obtain rfl : write = other := some.inj ((hkept hwrite).symm.trans hother)
  exact h.hooks hook hhook k write hk hwrite

lemma command {now : Int} {cmd : Command} {leader : Bool}
    (hok : Certain w (.command now cmd leader)) : Consistent (w.applyCommand now cmd leader) := by
  refine ⟨h.parked, h.locked, fun i write hi => ?_, h.absent,
    fun hook hhook k write hk hwrite => ?_⟩
  · exact (h.placed i write hi).congr Iff.rfl rfl rfl fun _ hv => hv
  have hbefore : hook ∈ w.hooks := by
    dsimp only [applyCommand, hooksAfter] at hhook
    split at hhook
    · split at hhook
      · obtain hbefore | hnew := mem_append.mp hhook
        · exact hbefore
        -- The request is parked nowhere here, so its callback finds nothing.
        obtain rfl := mem_singleton.mp hnew
        have hnone : w.pending _ _ = none := hok
        dsimp only [applyCommand] at hk
        rw [hnone] at hk
        cases hk
      · exact hhook
    · exact hhook
  exact h.hooks hook hbefore k write hk hwrite

lemma restart (hok : Certain w .restart) (hstep : w.step .restart = some w') : Consistent w' := by
  obtain ⟨⟩ := hstep
  obtain ⟨hreturned, hidle⟩ := hok
  have hsame {j : Nat} {other : Write}
      (hj : (w.writes.map fun write => { write with stage := .returned })[j]? = some other) :
      w.writes[j]? = some other := by
    rw [getElem?_map] at hj
    obtain ⟨write, hwrite, rfl⟩ := map_eq_some_iff.mp hj
    rw [hwrite, ← hreturned write (mem_of_getElem? hwrite)]
  have hflight (j : Nat) : w.inFlight j = [] := by
    obtain hlt | hge := Nat.lt_or_ge j w.writes.length
    · exact hidle j (mem_range.mpr hlt)
    · exact (h.absent j (getElem?_eq_none hge)).1
  refine ⟨fun _ _ _ hk => (by cases hk), fun j k first second hj hk => ?_,
    fun j other hj => ?_, fun j hj => ⟨rfl, ?_⟩, fun hook hhook => (by cases hhook)⟩
  · exact h.locked j k first second (hsame hj) (hsame hk)
  · have hold := hsame hj
    refine (h.placed j other hold).congr ⟨fun hk => (by cases hk), fun hk => ?_⟩ (hflight j).symm
      rfl fun _ hv => hv
    exact absurd (hreturned other (mem_of_getElem? hold)) (h.running_of_pending hold hk)
  · refine (h.absent j ?_).2
    rw [getElem?_map, map_eq_none_iff] at hj
    exact hj

lemma receive (hi : w.writes[i]? = some write) (hstage : write.stage = .waiting)
    {v : Nat} (hentry : write.entry = .applied v) :
    Consistent ((w.take write.kbID write.dispatchID v none).setWrite i
      { write with stage := .returned }) := by
  have hrunning : write.stage ≠ .returned := by
    rw [hstage]
    exact fun heq => (by cases heq)
  unfold World.take
  split
  · rename_i hnone
    refine h.update hi { write with stage := .returned } rfl rfl (.inl rfl)
      (getElem?_setWrite_self hi _) (fun j hji => getElem?_setWrite_of_ne _ _ hji)
      (fun kbID id k hk => ⟨hk, ?_⟩) (fun _ _ _ _ hk => hk) (fun _ _ => rfl) (fun _ _ => rfl)
      (fun _ hv => hv) ?_ (fun hook hhook k other hk hother => ?_)
    · rintro rfl
      obtain ⟨hkb, hid⟩ := h.key_eq hi hk
      dsimp only [setWrite] at hk
      rw [hkb, hid, hnone] at hk
      cases hk
    · obtain ⟨hpending, -⟩ | ⟨hpending, ⟨v', hentry', hproposed, htaken⟩ | ⟨-, hreturned, -⟩⟩ :=
        h.placed i write hi
      · rw [hnone] at hpending
        cases hpending
      · exact .inr ⟨hpending, .inl ⟨v', hentry', fun heq => (by cases heq), htaken⟩⟩
      · exact absurd hreturned hrunning
    by_cases hki : k = i
    · subst hki
      rw [getElem?_setWrite_self hi] at hother
      cases hother
      exact h.hooks hook hhook k write hk hi
    · rw [getElem?_setWrite_of_ne _ _ hki] at hother
      exact h.hooks hook hhook k other hk hother
  · rename_i k hpending
    -- The lock leaves one write of the knowledge base in progress, and the list is its own.
    obtain ⟨parked, hparked, hkb, -, hrunning'⟩ := h.parked _ _ k hpending
    obtain rfl : k = i := h.locked k i parked write hparked hi hkb hrunning' hrunning
    exact h.taken hi hpending (d := ⟨v, _, _⟩) hentry (.inl rfl)
      (getElem?_setWrite_self hi _) (fun j hji => getElem?_setWrite_of_ne w _ hji)
      fun _ hhook => hhook

lemma hook {hook : Hook} (hj : w.hooks[j]? = some hook) :
    Consistent { w.take hook.kbID hook.clientRequestID hook.versionID
        (some hook.parentVersionID) with hooks := w.hooks.eraseIdx j } := by
  have hmem {other : Hook} (hother : other ∈ w.hooks.eraseIdx j) : other ∈ w.hooks :=
    mem_of_mem_eraseIdx hother
  unfold World.take
  split
  · refine ⟨h.parked, h.locked, fun i write hi => ?_, h.absent, fun other hother k write => ?_⟩
    · exact (h.placed i write hi).congr Iff.rfl rfl rfl fun _ hv => hv
    · exact h.hooks other (hmem hother) k write
  rename_i k hpending
  obtain ⟨write, hwrite, hkb, hid, -⟩ := h.parked _ _ k hpending
  have hentry := h.hooks hook (mem_of_getElem? hj) k write hpending hwrite
  rw [← hkb, ← hid] at hpending ⊢
  exact h.taken hwrite hpending (d := ⟨hook.versionID, _, _⟩) hentry (.inr rfl) hwrite
    (fun _ _ => rfl) fun other hother => hmem hother

end Consistent

end

lemma Consistent.step (h : Consistent w) {a : Action} (hok : Certain w a)
    (hstep : w.step a = some w') : Consistent w' := by
  cases a with
  | command now cmd leader =>
    obtain ⟨⟩ := hstep
    exact h.command hok
  | start kbID parentVersionID changes clientRequestID generated =>
    obtain ⟨⟨-, hlock⟩, ⟨⟩⟩ := ite_none_right_eq_some.mp hstep
    exact h.start ⟨_, _, _, _, _, _⟩ rfl rfl hlock hok
  | notProposed i =>
    obtain ⟨write, hi, hstep⟩ := bind_eq_some_iff.mp hstep
    obtain ⟨hparked, ⟨⟩⟩ := ite_none_right_eq_some.mp hstep
    refine h.drop hi (ne_of_eq_of_ne hparked (by decide)) ?_
    rw [h.entry_of_parked hi hparked]
    rfl
  | propose i =>
    obtain ⟨write, hi, hstep⟩ := bind_eq_some_iff.mp hstep
    obtain ⟨hparked, ⟨⟩⟩ := ite_none_right_eq_some.mp hstep
    refine h.advance hi ?_ w.sm (.inl ⟨ne_of_eq_of_ne hparked (by decide), rfl⟩) fun _ => .inl
    rw [h.entry_of_parked hi hparked]
    rfl
  | lose i =>
    obtain ⟨write, hi, hstep⟩ := bind_eq_some_iff.mp hstep
    obtain ⟨hlog, ⟨⟩⟩ := ite_none_right_eq_some.mp hstep
    refine h.advance hi (by rw [hlog]; rfl) w.sm ?_ fun _ => .inl
    cases hstage : write.stage with
    | parked =>
      rw [h.entry_of_parked hi hstage] at hlog
      cases hlog
    | waiting => exact .inl ⟨by decide, rfl⟩
    | returned => exact .inr ⟨rfl, rfl, rfl⟩
  | apply i now leader =>
    obtain ⟨write, hi, hstep⟩ := bind_eq_some_iff.mp hstep
    obtain ⟨hlog, ⟨⟩⟩ := ite_none_right_eq_some.mp hstep
    have hwaiting : write.stage = .waiting := hok write (by simp [hi])
    refine h.advance hi (by rw [hlog]; rfl) _
      (.inl ⟨ne_of_eq_of_ne hwaiting (by decide), hwaiting⟩) fun hook hhook => ?_
    dsimp only [applyCommand, hooksAfter] at hhook
    split at hhook
    · rename_i hled
      obtain hbefore | hnew := mem_append.mp hhook
      · exact .inl hbefore
      · obtain rfl := mem_singleton.mp hnew
        exact .inr ⟨rfl, rfl, if_pos hled.1⟩
    · exact .inl hhook
  | receive i =>
    obtain ⟨write, hi, hstep⟩ := bind_eq_some_iff.mp hstep
    obtain ⟨hwaiting, hstep⟩ := ite_none_right_eq_some.mp hstep
    cases hentry : write.entry with
    | applied v =>
      rw [hentry] at hstep
      obtain ⟨⟩ := hstep
      rw [← hentry]
      exact h.receive hi hwaiting hentry
    | refused =>
      rw [hentry] at hstep
      obtain ⟨⟩ := hstep
      rw [← hentry]
      exact h.drop hi (ne_of_eq_of_ne hwaiting (by decide)) (by rw [hentry]; rfl)
    | missing | inLog | lost =>
      rw [hentry] at hstep
      cases hstep
  | giveUp i =>
    obtain ⟨write, hi, hstep⟩ := bind_eq_some_iff.mp hstep
    obtain ⟨hwaiting, ⟨⟩⟩ := ite_none_right_eq_some.mp hstep
    exact h.drop hi (ne_of_eq_of_ne hwaiting (by decide)) (hok write (by simp [hi]))
  | hook j =>
    obtain ⟨hook, hj, rfl⟩ := map_eq_some_iff.mp hstep
    exact h.hook hj
  | accept i j =>
    obtain ⟨d, hd, rfl⟩ := map_eq_some_iff.mp hstep
    exact h.settle hd _ _ (fun _ hv => hv) (.inl rfl)
  | fail i j reported =>
    obtain ⟨d, hd, rfl⟩ := map_eq_some_iff.mp hstep
    obtain ⟨hbackground, rfl⟩ := hok d (by simp [hd])
    rw [hbackground]
    have hsettled := h.settle hd (w.handed i) (d.versionID :: w.abandoned)
      (fun _ hv => mem_cons_of_mem _ hv) (.inr ⟨rfl, mem_cons_self⟩)
    rw [Function.update_eq_self] at hsettled
    exact hsettled
  | restart => exact h.restart hok hstep

/-- However its entry ends, a write whose outcome `Execute` is certain of is accounted for: its
change list goes to a storage writer once, or its version is reported. -/
theorem accounted_of_certain {sm : StateMachine}
    (hreach : Reach step Certain (init sm) w) : Accounted w := by
  have hconsistent : Consistent w := hreach.invariant Consistent (consistent_init sm)
    fun _ _ _ _ h hok hstep => h.step hok hstep
  exact hconsistent.accounted

/-- A knowledge base, and a write to it that has proposed its version. -/
def proposed : List Action :=
  [.command 0 (.createKB { kbID := "kb" }) true,
    .start "kb" 0 [{ op := .add, docID := "doc", content := "text" }] "request" "", .propose 0]

/-- The callback takes the list of one write, whose `Execute` then finds nothing to take; that of
the next is taken in the background, and the failed dispatch reported. -/
theorem accounted_both_takers : ∃ w,
    Reach step Certain (init (newStateMachine 8 "epoch")) w ∧
      w.handed 0 = [⟨1, 0, true⟩] ∧ w.abandoned = [2] ∧ Accounted w := by
  obtain ⟨w, hreach, hhanded, habandoned⟩ : ∃ w : World,
      Reach step Certain (init (newStateMachine 8 "epoch")) w ∧
        w.handed 0 = [⟨1, 0, true⟩] ∧ w.abandoned = [2] :=
    Reach.exists_decide (proposed ++ [Action.apply 0 0 true, .hook 0, .receive 0, .accept 0 0,
      .command 0 (.createKB { kbID := "other" }) true,
      .start "other" 0 [{ op := .add, docID := "doc" }] "" "generated", .propose 1,
      .apply 1 0 false, .receive 1, .fail 1 0 true]) (by decide +kernel)
  exact ⟨w, hreach, hhanded, habandoned, accounted_of_certain hreach⟩

/-- `Execute` gives up and forgets the list; the entry commits all the same, and its callback finds
nothing: nothing is on its way, and nobody is told. -/
theorem not_accounted_given_up : ∃ w write,
    Reachable step (init (newStateMachine 8 "epoch")) w ∧ w.writes = [write] ∧
      write.entry = .applied 1 ∧ w.pending "kb" "request" = none ∧ w.hooks = [] ∧
      w.inFlight 0 = [] ∧ w.handed 0 = [] ∧ w.abandoned = [] ∧ ¬Accounted w := by
  obtain ⟨w, hreach, hwrites, hpending, hhooks, hflight, hhanded, habandoned⟩ : ∃ w : World,
      Reachable step (init (newStateMachine 8 "epoch")) w ∧
        (w.writes.map fun write => (write.stage, write.entry)) = [(.returned, .applied 1)] ∧
          w.pending "kb" "request" = none ∧ w.hooks = [] ∧ w.inFlight 0 = [] ∧ w.handed 0 = [] ∧
          w.abandoned = [] :=
    Reach.exists_decide (proposed ++ [Action.giveUp 0, .apply 0 0 true, .hook 0]) (by decide +kernel)
  obtain ⟨write, hwrite, hends⟩ := map_eq_singleton_iff.mp hwrites
  obtain ⟨hstage, hentry⟩ := Prod.mk.inj hends
  refine ⟨w, write, hreach, hwrite, hentry, hpending, hhooks, hflight, hhanded, habandoned,
    fun haccounted => ?_⟩
  obtain ⟨-, (⟨-, hwaiting⟩ | ⟨d, hd, -⟩) | hreported⟩ | ⟨d, hd, -⟩ :=
    haccounted 0 write 1 (by rw [hwrite]; rfl) hentry
  · rw [hstage] at hwaiting
    cases hwaiting
  · rw [hflight] at hd
    cases hd
  · rw [habandoned] at hreported
    cases hreported
  · rw [hhanded] at hd
    cases hd

end stratum.coordinator.dispatch
