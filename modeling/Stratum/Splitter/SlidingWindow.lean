import Stratum.Splitter.Cdc

namespace stratum.splitter.SlidingWindow

open stratum.lib.utf8 List

/-- The overlap, kept below the window. -/
def effectiveOverlap (params : ChunkParams) : Int :=
  let overlap := if params.overlapSize < 0 then 0 else params.overlapSize
  if params.windowSize ≤ overlap then params.windowSize - 1 else overlap

/-- The loop of `Split` from `start`, or nothing if it has not ended after `fuel` turns. -/
def windowsFrom (text : List Char) (windowSize step : Nat) : Nat → Nat → Option (List (List Char))
  | 0, _ => none
  | fuel + 1, start =>
    if start < text.length then
      let stop := if text.length < start + windowSize then text.length else start + windowSize
      let window := (text.drop start).take (stop - start)
      if stop = text.length then some [window]
      else (windowsFrom text windowSize step fuel (start + step)).map (window :: ·)
    else some []

/-- `SlidingWindowSplitter.Split`, its loop given a turn for each character. -/
def split (sum256 : List UInt8 → String) (content : List UInt8) (params : ChunkParams)
    (embedConfigID : List UInt8) : Option (List Chunk) :=
  let text := runes content
  if text.length = 0 then some []
  else if params.windowSize ≤ 0 then some [newChunk sum256 content embedConfigID]
  else if text.length ≤ params.windowSize then some [newChunk sum256 content embedConfigID]
  else
    let step := params.windowSize - effectiveOverlap params
    (windowsFrom text params.windowSize.toNat step.toNat text.length 0).map
      (·.map fun window => newChunk sum256 (encode window) embedConfigID)

/-- What each chunk adds: the first is taken whole, the others without their first characters. -/
def pieces (overlap : Nat) : List Chunk → List (List UInt8)
  | [] => []
  | first :: chunks =>
    first.content :: chunks.map fun chunk => encode ((runes chunk.content).drop overlap)

lemma effectiveOverlap_bounds {params : ChunkParams} (hwindow : 0 < params.windowSize) :
    0 ≤ effectiveOverlap params ∧ effectiveOverlap params < params.windowSize := by
  dsimp only [effectiveOverlap]
  split_ifs <;> omega

variable {text : List Char} {windowSize step overlap start fuel : Nat}

lemma windowsFrom_last (hlt : start < text.length) (hlast : text.length ≤ start + windowSize) :
    windowsFrom text windowSize step (fuel + 1) start = some [text.drop start] := by
  have hstop : (if text.length < start + windowSize then text.length else start + windowSize) =
      text.length := by
    split <;> omega
  simp only [windowsFrom, if_pos hlt, hstop, if_true, ← length_drop, take_length]

lemma windowsFrom_next (hnext : start + windowSize < text.length) :
    windowsFrom text windowSize step (fuel + 1) start =
      (windowsFrom text windowSize step fuel (start + step)).map
        ((text.drop start).take windowSize :: ·) := by
  simp only [windowsFrom, if_pos (Nat.lt_of_add_right_lt hnext), if_neg (Nat.not_lt_of_gt hnext),
    if_neg (Nat.ne_of_lt hnext), Nat.add_sub_cancel_left]

/-- From each start more than the overlap is left, so that no window is overlap only, and the next
window begins with the last characters of this one. -/
lemma windowsFrom_spec (hstep : 0 < step) (hwindow : windowSize = step + overlap)
    (hstart : start + overlap < text.length) (hfuel : text.length ≤ start + fuel) :
    ∃ first rest, windowsFrom text windowSize step fuel start = some (first :: rest) ∧
      (∀ window ∈ first :: rest, overlap < window.length) ∧
      first ++ rest.flatMap (drop overlap) = text.drop start := by
  induction fuel generalizing start with
  | zero => omega
  | succ fuel ih =>
  by_cases hlast : text.length ≤ start + windowSize
  · refine ⟨text.drop start, [], windowsFrom_last (by omega) hlast, ?_, append_nil _⟩
    intro window hin
    rw [mem_singleton.mp hin, length_drop]
    omega
  obtain ⟨first, rest, hrest, hlonger, hcover⟩ := @ih (start + step) (by omega) (by omega)
  refine ⟨(text.drop start).take windowSize, first :: rest, ?_, ?_, ?_⟩
  · rw [windowsFrom_next (Nat.lt_of_not_le hlast), hrest]
    rfl
  · refine forall_mem_cons.mpr ⟨?_, hlonger⟩
    rw [length_take, length_drop]
    omega
  have hdrop : first.drop overlap ++ rest.flatMap (drop overlap) =
      (text.drop start).drop windowSize := by
    rw [← drop_append_of_le_length (Nat.le_of_lt (hlonger first mem_cons_self)), hcover,
      drop_drop, drop_drop, hwindow, Nat.add_assoc]
  rw [flatMap_cons, hdrop, take_append_drop]

/-- The sliding window covers a text: whatever the window and the overlap, the loop ends, and what
each chunk adds is not empty and is together the text. -/
theorem split_covers (sum256 : List UInt8 → String) {content : List UInt8} (hvalid : Valid content)
    (params : ChunkParams) (embedConfigID : List UInt8) :
    ∃ chunks, split sum256 content params embedConfigID = some chunks ∧
      (∀ piece ∈ pieces (effectiveOverlap params).toNat chunks, piece ≠ []) ∧
      (pieces (effectiveOverlap params).toNat chunks).flatten = content := by
  obtain ⟨text, rfl⟩ := valid_iff.mp hvalid
  have hrunes (cs : List Char) : runes (encode cs) = cs := runesFrom_encode cs (Nat.le_refl _)
  unfold split
  rw [hrunes]
  by_cases hempty : text.length = 0
  · refine ⟨[], if_pos hempty, nofun, ?_⟩
    rw [length_eq_zero_iff.mp hempty]
    rfl
  have hwhole : (∀ piece ∈ [encode text], piece ≠ []) ∧ [encode text].flatten = encode text := by
    simpa using encode_ne_nil (hempty ∘ length_eq_zero_iff.mpr)
  rw [if_neg hempty]
  by_cases hwindow : params.windowSize ≤ 0
  · exact ⟨_, if_pos hwindow, hwhole⟩
  rw [if_neg hwindow]
  by_cases hshort : text.length ≤ params.windowSize
  · exact ⟨_, if_pos hshort, hwhole⟩
  rw [if_neg hshort]
  have hoverlap := effectiveOverlap_bounds (Int.not_le.mp hwindow)
  have hsum : params.windowSize.toNat =
      (params.windowSize - effectiveOverlap params).toNat + (effectiveOverlap params).toNat := by
    omega
  obtain ⟨first, rest, hwindows, hlonger, hcover⟩ := windowsFrom_spec (by omega) hsum (by omega)
    (Nat.le_of_eq (Nat.zero_add text.length).symm)
  dsimp only
  rw [hwindows]
  have hpieces : pieces (effectiveOverlap params).toNat
      ((first :: rest).map fun window => newChunk sum256 (encode window) embedConfigID) =
        (first :: rest.map (drop (effectiveOverlap params).toNat)).map encode := by
    simp [pieces, newChunk, hrunes]
  refine ⟨_, rfl, ?_, ?_⟩
  · rw [hpieces]
    refine forall_mem_map.mpr (forall_mem_cons.mpr ⟨?_, forall_mem_map.mpr fun window hin => ?_⟩)
    · exact encode_ne_nil (ne_nil_of_length_pos (Nat.zero_lt_of_lt (hlonger first mem_cons_self)))
    · refine encode_ne_nil (ne_nil_of_length_pos ?_)
      rw [length_drop]
      exact Nat.sub_pos_of_lt (hlonger window (mem_cons_of_mem _ hin))
  · rw [hpieces, flatten_map_encode, flatten_cons, ← flatMap_def, hcover, drop_zero]

theorem split_covers_clamped : ∃ chunks,
    split (fun _ => "") (encode ['a', '你', 'b', 'c'])
      { mode := chunkModeWindow, windowSize := 2, overlapSize := 5 } [] = some chunks ∧
    (∀ piece ∈ pieces 1 chunks, piece ≠ []) ∧
    (pieces 1 chunks).flatten = encode ['a', '你', 'b', 'c'] :=
  split_covers _ (valid_iff.mpr ⟨_, rfl⟩) _ _

end stratum.splitter.SlidingWindow
