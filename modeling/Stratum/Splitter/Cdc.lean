import Mathlib.Data.List.Chain
import Stratum.Lib.Utf8
import Stratum.Types

namespace stratum.splitter

open stratum.lib.utf8 List Option

/-- A chunk of a text, whose bytes need not be a text themselves. -/
structure Chunk where
  chunkID : String
  content : List UInt8
deriving DecidableEq

/-- The chunk of a text under an embedding configuration; `sum256` is the hexadecimal SHA-256. -/
def newChunk (sum256 : List UInt8 → String) (text embedConfigID : List UInt8) : Chunk where
  chunkID := sum256 (text ++ embedConfigID)
  content := text

def cdcRollingWindow : Int := 64

def cdcSentenceSlack : Nat := 64

/-- The pieces, each a start and a length, follow one another from an offset to the end, and
none is longer than the maximum. -/
def Contiguous (size maxSize : Nat) : Nat → List (Nat × Nat) → Prop
  | start, [] => start = size
  | start, (from_, length) :: pieces =>
    from_ = start ∧ length ≤ maxSize ∧ Contiguous size maxSize (start + length) pieces

/-- The rolling-hash chunker: the pieces its `Next` yields until the end of the stream. -/
structure Chunker where
  pieces : List UInt8 → (minSize maxSize avgBits : Nat) → List (Nat × Nat)
  contiguous : ∀ data minSize maxSize avgBits, minSize < maxSize →
    Contiguous data.length maxSize 0 (pieces data minSize maxSize avgBits)

/-- The ends of the pieces before the end of the data, and the end. -/
def rawBounds (size : Nat) : List (Nat × Nat) → List Nat
  | [] => [size]
  | (start, length) :: pieces =>
    if size ≤ start + length then [size] else (start + length) :: rawBounds size pieces

def cdcRawBounds (chunker : Chunker) (data : List UInt8) (minSize maxSize avgBits : Nat) :
    List Nat :=
  0 :: rawBounds data.length (chunker.pieces data minSize maxSize avgBits)

/-- The loop of `runeStartOffsets`, at offset `i` with `data` still to come. -/
def runeStartsFrom : Nat → Nat → List UInt8 → List Nat
  | 0, i, _ => [i]
  | fuel + 1, i, data =>
    if data = [] then [i]
    else
      let size := (decodeRune data).2
      let size := if size = 0 then 1 else size
      i :: runeStartsFrom fuel (i + size) (data.drop size)

/-- Every turn of the loop consumes a byte. -/
def runeStartOffsets (data : List UInt8) : List Nat := runeStartsFrom data.length 0 data

/-- The first of the ascending offsets at or after `b`, or the last one. -/
def snapToRuneStart (offsets : List Nat) (b : Nat) : Nat :=
  (offsets.find? (b ≤ ·)).getD (offsets.getLastD 0)

def isSentenceEnd (r : Char) : Bool :=
  r ∈ ['。', '！', '？', '；', '\n', '.', '!', '?', ';']

/-- The loop of `snapToSentenceEnd` at offset `i`. -/
def sentenceEndFrom (data : List UInt8) (start limit : Nat) : Nat → Nat → Nat
  | 0, _ => start
  | fuel + 1, i =>
    if limit ≤ i then start
    else
      let (r, size) := decodeRune (data.drop i)
      if size = 0 then start
      else if limit < i + size then start
      else if isSentenceEnd r then i + size
      else sentenceEndFrom data start limit fuel (i + size)

/-- Every turn of the loop moves by a byte. -/
def snapToSentenceEnd (data : List UInt8) (start limit : Nat) : Nat :=
  sentenceEndFrom data start limit (limit - start + 1) start

/-- The loop of `cdcEdges` over the edges after the first: each but the last moves to a sentence
end short of its neighbour, which has not moved yet. -/
def nudge (data : List UInt8) : List Nat → List Nat
  | edge :: next :: edges =>
    let limit := if next < edge + cdcSentenceSlack then next else edge + cdcSentenceSlack
    snapToSentenceEnd data edge limit :: nudge data (next :: edges)
  | edges => edges

def cdcEdges (chunker : Chunker) (data : List UInt8) (minSize maxSize avgBits : Nat) : List Nat :=
  match (cdcRawBounds chunker data minSize maxSize avgBits).map
      (snapToRuneStart (runeStartOffsets data)) with
  | [] => []
  | first :: edges => first :: nudge data edges

def slice (data : List UInt8) (a b : Nat) : List UInt8 := (data.drop a).take (b - a)

/-- The chunks between the edges; two edges on one byte have none between them. -/
def cutAt (sum256 : List UInt8 → String) (data embedConfigID : List UInt8) :
    List Nat → List Chunk
  | a :: b :: edges =>
    if b ≤ a then cutAt sum256 data embedConfigID (b :: edges)
    else newChunk sum256 (slice data a b) embedConfigID :: cutAt sum256 data embedConfigID (b :: edges)
  | _ => []

def effectiveMinSize (params : ChunkParams) : Int :=
  let minSize := if params.minSize ≤ 0 then defaultChunkMinSize else params.minSize
  if minSize < cdcRollingWindow then cdcRollingWindow else minSize

def effectiveMaxSize (params : ChunkParams) : Int :=
  if params.maxSize ≤ 0 then defaultChunkMaxSize else params.maxSize

def effectiveAvgBits (params : ChunkParams) : Int :=
  if params.avgBits ≤ 0 ∨ 30 < params.avgBits then defaultChunkAvgBits else params.avgBits

/-- The edges `Split` cuts at. -/
def edgesFor (chunker : Chunker) (data : List UInt8) (params : ChunkParams) : List Nat :=
  cdcEdges chunker data (effectiveMinSize params).toNat (effectiveMaxSize params).toNat
    (effectiveAvgBits params).toNat

def split (chunker : Chunker) (sum256 : List UInt8 → String) (content : List UInt8)
    (params : ChunkParams) (embedConfigID : List UInt8) : List Chunk :=
  if content = [] then []
  else if effectiveMaxSize params ≤ effectiveMinSize params then
    [newChunk sum256 content embedConfigID]
  else
    let chunks := cutAt sum256 content embedConfigID (edgesFor chunker content params)
    if chunks = [] then [newChunk sum256 content embedConfigID] else chunks

/-! Where the raw bounds and the character starts lie. -/

variable {b i fuel start maxSize : Nat} {data : List UInt8}

lemma rawBounds_chain {size : Nat} {pieces : List (Nat × Nat)}
    (hcontiguous : Contiguous size maxSize start pieces) (hstart : start ≤ size) :
    (start :: rawBounds size pieces).IsChain (fun a b => a ≤ b ∧ b ≤ a + maxSize ∧ b ≤ size) ∧
      (rawBounds size pieces).getLast? = some size := by
  induction pieces generalizing start with
  | nil =>
    rw [Contiguous] at hcontiguous
    exact ⟨isChain_pair.mpr ⟨hstart, by omega, le_rfl⟩, rfl⟩
  | cons piece pieces ih =>
  obtain ⟨rfl, hlength, hrest⟩ := hcontiguous
  unfold rawBounds
  split
  · exact ⟨isChain_pair.mpr ⟨hstart, by omega, le_rfl⟩, rfl⟩
  obtain ⟨hchain, hlast⟩ := ih hrest (by omega)
  refine ⟨isChain_cons_cons.mpr ⟨⟨by omega, by omega, by omega⟩, hchain⟩, ?_⟩
  rw [getLast?_cons, hlast]
  rfl

/-- The offsets ascend by a character each, from the first byte to the end. -/
lemma runeStartsFrom_chain (hfuel : data.length ≤ fuel) :
    ∃ rest, runeStartsFrom fuel i data = i :: rest ∧
      (i :: rest).IsChain (fun a b => a < b ∧ b ≤ a + 4) ∧
      (i :: rest).getLast? = some (i + data.length) := by
  induction fuel generalizing i data with
  | zero =>
    have hnil : data = [] := length_eq_zero_iff.mp (Nat.le_zero.mp hfuel)
    subst hnil
    exact ⟨[], rfl, isChain_singleton _, rfl⟩
  | succ fuel ih =>
  unfold runeStartsFrom
  by_cases hnil : data = []
  · subst hnil
    exact ⟨[], rfl, isChain_singleton _, rfl⟩
  rw [if_neg hnil]
  have hpos := width_pos hnil
  have hfour := width_le_four data
  have hle := width_le_length data
  dsimp only
  rw [if_neg (by omega)]
  obtain ⟨rest, heq, hchain, hlast⟩ := @ih (i + (decodeRune data).2)
    (data.drop (decodeRune data).2) (by rw [length_drop]; omega)
  refine ⟨_, rfl, ?_, ?_⟩
  · rw [heq]
    exact isChain_cons_cons.mpr ⟨⟨by omega, by omega⟩, hchain⟩
  rw [heq, getLast?_cons, hlast, length_drop]
  simp only [getD_some, some.injEq]
  omega

lemma runeStart_of_mem_from {whole : List UInt8} {x : Nat} (hdata : data = whole.drop i)
    (hi : RuneStart whole i) (hx : x ∈ runeStartsFrom fuel i data) : RuneStart whole x := by
  induction fuel generalizing i data with
  | zero =>
    rw [mem_singleton.mp hx]
    exact hi
  | succ fuel ih =>
  unfold runeStartsFrom at hx
  by_cases hnil : data = []
  · rw [if_pos hnil] at hx
    rw [mem_singleton.mp hx]
    exact hi
  rw [if_neg hnil] at hx
  have hpos := width_pos hnil
  dsimp only at hx
  rw [if_neg (by omega)] at hx
  obtain rfl | hx := mem_cons.mp hx
  · exact hi
  have hlt : i < whole.length := by
    by_contra hge
    exact hnil (hdata.trans (drop_eq_nil_of_le (not_lt.mp hge)))
  have hnext := hi.next hlt
  rw [← hdata] at hnext
  refine ih ?_ hnext hx
  rw [hdata, drop_drop]

/-- In a list that ascends by at most four, the first element at or after a bound is the least
one, and less than four after it. -/
lemma find?_ascending {last : Nat} {rest : List Nat}
    (hchain : (i :: rest).IsChain (fun a b => a < b ∧ b ≤ a + 4))
    (hlast : (i :: rest).getLast? = some last) (hb : b ≤ last) :
    ∃ e, (i :: rest).find? (b ≤ ·) = some e ∧ (e ≤ i ∨ e ≤ b + 3) ∧
      ∀ x ∈ i :: rest, b ≤ x → e ≤ x := by
  induction rest generalizing i with
  | nil =>
    rw [getLast?_singleton, some.injEq] at hlast
    subst hlast
    refine ⟨i, by simp [hb], .inl (le_refl i), fun x hx _ => ?_⟩
    rw [mem_singleton.mp hx]
  | cons j rest ih =>
    obtain ⟨⟨hij, hji⟩, hrest⟩ := isChain_cons_cons.mp hchain
    have hlater : ∀ x ∈ j :: rest, i < x := by
      have hasc : (i :: j :: rest).Pairwise (· < ·) :=
        isChain_iff_pairwise.mp (hchain.imp fun _ _ h => h.1)
      exact (pairwise_cons.mp hasc).1
    by_cases hbi : b ≤ i
    · refine ⟨i, by simp [hbi], .inl (le_refl i), fun x hx _ => ?_⟩
      obtain rfl | hx := mem_cons.mp hx
      · exact le_refl x
      · exact le_of_lt (hlater x hx)
    obtain ⟨e, hfind, hnear, hleast⟩ := ih hrest hlast
    refine ⟨e, ?_, .inr (by omega), fun x hx hbx => ?_⟩
    · rw [find?_cons_of_neg (by simpa using hbi), hfind]
    obtain rfl | hx := mem_cons.mp hx
    · exact absurd hbx hbi
    · exact hleast x hx hbx

section Snap

variable {data : List UInt8} {b b' : Nat}

/-- The edge a bound is moved to is the first character start at or after it. -/
lemma snap_spec (hb : b ≤ data.length) :
    snapToRuneStart (runeStartOffsets data) b ∈ runeStartOffsets data ∧
      b ≤ snapToRuneStart (runeStartOffsets data) b ∧
      snapToRuneStart (runeStartOffsets data) b ≤ b + 3 ∧
      ∀ x ∈ runeStartOffsets data, b ≤ x → snapToRuneStart (runeStartOffsets data) b ≤ x := by
  obtain ⟨rest, heq, hchain, hlast⟩ := runeStartsFrom_chain (i := 0) (le_refl data.length)
  obtain ⟨e, hfind, hnear, hleast⟩ := find?_ascending (b := b) hchain hlast (by omega)
  have hsnap : snapToRuneStart (runeStartOffsets data) b = e := by
    rw [snapToRuneStart, runeStartOffsets, heq, hfind]
    rfl
  have hmem := mem_of_find?_eq_some hfind
  have hbe := find?_some hfind
  rw [hsnap, runeStartOffsets, heq]
  exact ⟨hmem, of_decide_eq_true hbe, by omega, hleast⟩

lemma runeStart_snap (hb : b ≤ data.length) :
    RuneStart data (snapToRuneStart (runeStartOffsets data) b) :=
  runeStart_of_mem_from rfl .zero (snap_spec hb).1

lemma snap_mono (hle : b ≤ b') (hb' : b' ≤ data.length) :
    snapToRuneStart (runeStartOffsets data) b ≤ snapToRuneStart (runeStartOffsets data) b' := by
  obtain ⟨hmem, hb'e, -, -⟩ := snap_spec hb'
  exact (snap_spec (hle.trans hb')).2.2.2 _ hmem (hle.trans hb'e)

lemma snap_zero (data : List UInt8) : snapToRuneStart (runeStartOffsets data) 0 = 0 := by
  obtain ⟨rest, heq, -, -⟩ := runeStartsFrom_chain (i := 0) (le_refl data.length)
  rw [runeStartOffsets, heq]
  rfl

lemma snap_length (data : List UInt8) :
    snapToRuneStart (runeStartOffsets data) data.length = data.length := by
  have hle := (runeStart_snap (le_refl data.length)).le_length
  have hge := (snap_spec (le_refl data.length)).2.1
  omega

variable {limit : Nat}

/-- The search for a sentence end stays within its limit, and on character starts. -/
lemma sentenceEndFrom_spec (hlimit : limit ≤ data.length) (hi : RuneStart data i) :
    sentenceEndFrom data start limit fuel i = start ∨
      RuneStart data (sentenceEndFrom data start limit fuel i) ∧
        i ≤ sentenceEndFrom data start limit fuel i ∧
        sentenceEndFrom data start limit fuel i ≤ limit := by
  induction fuel generalizing i with
  | zero => exact .inl rfl
  | succ fuel ih =>
  unfold sentenceEndFrom
  by_cases hend : limit ≤ i
  · rw [if_pos hend]
    exact .inl rfl
  rw [if_neg hend]
  have hnext := hi.next (show i < data.length by omega)
  dsimp only
  split
  · exact .inl rfl
  split
  · exact .inl rfl
  split
  · exact .inr ⟨hnext, by omega, by omega⟩
  obtain hstart | ⟨hrune, hle, hle'⟩ := ih hnext
  · exact .inl hstart
  · exact .inr ⟨hrune, by omega, hle'⟩

lemma snapToSentenceEnd_spec (hstart : RuneStart data start) (hle : start ≤ limit)
    (hlimit : limit ≤ data.length) : RuneStart data (snapToSentenceEnd data start limit) ∧
      start ≤ snapToSentenceEnd data start limit ∧
      snapToSentenceEnd data start limit ≤ limit := by
  unfold snapToSentenceEnd
  cases sentenceEndFrom_spec hlimit hstart with
  | inl heq =>
    rw [heq]
    exact ⟨hstart, le_rfl, hle⟩
  | inr hspec => exact hspec

end Snap

/-- Edges that do not decrease and are at most `gap` apart. -/
def Spaced (gap : Nat) (edges : List Nat) : Prop :=
  edges.IsChain (fun a b => a ≤ b ∧ b ≤ a + gap)

section Edges

variable {data : List UInt8} {gap edge : Nat} {edges : List Nat}

/-- An edge moves by no more than the slack, and not over the place its neighbour had. -/
lemma nudge_spaced (hspaced : Spaced gap (edge :: edges))
    (hrune : ∀ e ∈ edge :: edges, RuneStart data e) :
    ∃ edge' edges', nudge data (edge :: edges) = edge' :: edges' ∧
      edge ≤ edge' ∧ edge' ≤ edge + cdcSentenceSlack ∧ (∀ next ∈ edges.head?, edge' ≤ next) ∧
      Spaced (gap + cdcSentenceSlack) (edge' :: edges') ∧
      (∀ e ∈ edge' :: edges', RuneStart data e) ∧
      (edge' :: edges').getLast? = (edge :: edges).getLast? := by
  induction edges generalizing edge with
  | nil =>
    exact ⟨edge, [], rfl, le_rfl, Nat.le_add_right _ _, by simp, isChain_singleton _, hrune, rfl⟩
  | cons next edges ih =>
  obtain ⟨⟨hle, hgap⟩, hrest⟩ := isChain_cons_cons.mp hspaced
  obtain ⟨hedge, hruneRest⟩ := forall_mem_cons.mp hrune
  obtain ⟨next', edges', heq, hge, hslack, -, hspaced', hrune', hlast⟩ := ih hrest hruneRest
  have hnext := (hruneRest next mem_cons_self).le_length
  unfold nudge
  generalize hlimit : (if next < edge + cdcSentenceSlack then next
    else edge + cdcSentenceSlack) = limit
  have hlimitNext : limit ≤ next := by split at hlimit <;> omega
  have hlimitSlack : limit ≤ edge + cdcSentenceSlack := by split at hlimit <;> omega
  have hlimitEdge : edge ≤ limit := by split at hlimit <;> omega
  obtain ⟨hruneEdge, hfrom, hto⟩ :=
    snapToSentenceEnd_spec hedge hlimitEdge (hlimitNext.trans hnext)
  refine ⟨_, _, by rw [heq], hfrom, by omega, ?_, ?_, ?_, ?_⟩
  · intro n hn
    cases hn
    omega
  · exact isChain_cons_cons.mpr ⟨⟨by omega, by omega⟩, hspaced'⟩
  · exact forall_mem_cons.mpr ⟨hruneEdge, hrune'⟩
  · rw [getLast?_cons, hlast, getLast?_cons_cons, getLast?_cons]
    simp

lemma slice_append {a c : Nat} (hab : a ≤ b) (hbc : b ≤ c) :
    slice data a b ++ slice data b c = slice data a c := by
  unfold slice
  have hsplit : c - a = (b - a) + (c - b) := by omega
  rw [hsplit, take_add, drop_drop, Nat.add_sub_cancel' hab]

variable {sum256 : List UInt8 → String} {embedConfigID : List UInt8}

/-- The chunks between edges that do not decrease are what lies between the first and the
last. -/
lemma flatMap_cutAt {last : Nat} (hspaced : Spaced gap (edge :: edges))
    (hlast : (edge :: edges).getLast? = some last) :
    (cutAt sum256 data embedConfigID (edge :: edges)).flatMap (·.content) = slice data edge last ∧
      edge ≤ last := by
  induction edges generalizing edge with
  | nil =>
    cases hlast
    simp [cutAt, slice]
  | cons next edges ih =>
  obtain ⟨⟨hle, -⟩, hrest⟩ := isChain_cons_cons.mp hspaced
  obtain ⟨hcut, hnext⟩ := ih hrest hlast
  refine ⟨?_, hle.trans hnext⟩
  unfold cutAt
  split
  · next heq => rw [hcut, le_antisymm heq hle]
  · rw [flatMap_cons, hcut]
    exact slice_append hle hnext

lemma exists_of_mem_cutAt {c : Chunk} (hspaced : Spaced gap edges)
    (hc : c ∈ cutAt sum256 data embedConfigID edges) :
    ∃ a ∈ edges, ∃ b ∈ edges, a < b ∧ b ≤ a + gap ∧ c.content = slice data a b := by
  induction edges with
  | nil => exact absurd hc not_mem_nil
  | cons a edges ih =>
  cases edges with
  | nil => exact absurd hc not_mem_nil
  | cons b edges =>
  obtain ⟨⟨-, hgap⟩, hrest⟩ := isChain_cons_cons.mp hspaced
  have hlater (hc : c ∈ cutAt sum256 data embedConfigID (b :: edges)) :
      ∃ x ∈ a :: b :: edges, ∃ y ∈ a :: b :: edges, x < y ∧ y ≤ x + gap ∧
        c.content = slice data x y := by
    obtain ⟨x, hx, y, hy, h⟩ := ih hrest hc
    exact ⟨x, mem_cons_of_mem a hx, y, mem_cons_of_mem a hy, h⟩
  unfold cutAt at hc
  split at hc
  · exact hlater hc
  next hlt =>
  obtain rfl | hc := mem_cons.mp hc
  · exact ⟨a, mem_cons_self, b, mem_cons_of_mem a mem_cons_self, not_le.mp hlt, hgap, rfl⟩
  · exact hlater hc

end Edges

/-- Moving bounds to character starts spreads them by the width of a character at most. -/
lemma map_snap_spaced {raw : List Nat}
    (hchain : (b :: raw).IsChain (fun a b => a ≤ b ∧ b ≤ a + maxSize ∧ b ≤ data.length))
    (hb : b ≤ data.length) :
    Spaced (maxSize + 3) ((b :: raw).map (snapToRuneStart (runeStartOffsets data))) ∧
      ∀ e ∈ (b :: raw).map (snapToRuneStart (runeStartOffsets data)), RuneStart data e := by
  induction raw generalizing b with
  | nil => exact ⟨isChain_singleton _, by simpa using runeStart_snap hb⟩
  | cons b' raw ih =>
  obtain ⟨⟨hle, hmax, hb'⟩, hrest⟩ := isChain_cons_cons.mp hchain
  obtain ⟨hspaced, hrune⟩ := ih hrest hb'
  obtain ⟨-, hfrom, -, -⟩ := snap_spec hb
  obtain ⟨-, -, hto, -⟩ := snap_spec hb'
  refine ⟨isChain_cons_cons.mpr ⟨⟨snap_mono hle hb', by omega⟩, hspaced⟩, ?_⟩
  exact forall_mem_cons.mpr ⟨runeStart_snap hb, hrune⟩

/-- The edges run from the first byte to the end, on character starts, and neighbours are at most
the maximum, the width of a character and the slack apart. -/
lemma cdcEdges_spec (chunker : Chunker) (data : List UInt8) {minSize : Nat} (avgBits : Nat)
    (hsize : minSize < maxSize) :
    ∃ edges, cdcEdges chunker data minSize maxSize avgBits = 0 :: edges ∧
      Spaced (maxSize + 3 + cdcSentenceSlack) (0 :: edges) ∧
      (∀ e ∈ 0 :: edges, RuneStart data e) ∧ (0 :: edges).getLast? = some data.length := by
  obtain ⟨hchain, hlast⟩ :=
    rawBounds_chain (chunker.contiguous data minSize maxSize avgBits hsize) (Nat.zero_le _)
  unfold cdcEdges cdcRawBounds
  generalize rawBounds data.length (chunker.pieces data minSize maxSize avgBits) = raw
    at hchain hlast
  cases raw with
  | nil => cases hlast
  | cons bound raw =>
  obtain ⟨hspaced, hrune⟩ := map_snap_spaced hchain (Nat.zero_le _)
  have hend := congrArg (Option.map (snapToRuneStart (runeStartOffsets data))) hlast
  rw [← getLast?_map, Option.map_some, snap_length] at hend
  rw [map_cons, snap_zero] at hspaced hrune
  rw [map_cons] at hend
  rw [map_cons, map_cons, snap_zero]
  obtain ⟨⟨-, hgap⟩, hrest⟩ := isChain_cons_cons.mp hspaced
  obtain ⟨edge, edges, heq, hge, hslack, -, hspaced', hrune', hlast'⟩ :=
    nudge_spaced hrest (forall_mem_cons.mp hrune).2
  refine ⟨edge :: edges, by rw [← heq], ?_, ?_, ?_⟩
  · exact isChain_cons_cons.mpr ⟨⟨Nat.zero_le _, by omega⟩, hspaced'⟩
  · exact forall_mem_cons.mpr ⟨.zero, hrune'⟩
  · rw [getLast?_cons_cons, hlast', hend]

lemma length_slice {a : Nat} (hb : b ≤ data.length) : (slice data a b).length = b - a := by
  rw [slice, length_take, length_drop]
  omega

lemma slice_zero_length (data : List UInt8) : slice data 0 data.length = data := by
  simp [slice]

lemma rollingWindow_le_effectiveMinSize (params : ChunkParams) :
    cdcRollingWindow ≤ effectiveMinSize params := by
  unfold effectiveMinSize
  dsimp only
  split <;> omega

/-- What `Split` returns: nothing, the whole content, or what lies between the edges. -/
inductive Cuts (chunker : Chunker) (sum256 : List UInt8 → String) (content : List UInt8)
    (params : ChunkParams) (embedConfigID : List UInt8) (chunks : List Chunk) : Prop
  | empty (hcontent : content = []) (hchunks : chunks = [])
  | whole (hcontent : content ≠ []) (hsize : effectiveMaxSize params ≤ effectiveMinSize params)
      (hchunks : chunks = [newChunk sum256 content embedConfigID])
  | between (edges : List Nat) (hsize : effectiveMinSize params < effectiveMaxSize params)
      (hspaced : Spaced ((effectiveMaxSize params).toNat + 3 + cdcSentenceSlack) (0 :: edges))
      (hrune : ∀ e ∈ 0 :: edges, RuneStart content e)
      (hlast : (0 :: edges).getLast? = some content.length)
      (hchunks : chunks = cutAt sum256 content embedConfigID (0 :: edges))

variable (chunker : Chunker)

lemma edgesFor_spec (content : List UInt8) {params : ChunkParams}
    (hsize : effectiveMinSize params < effectiveMaxSize params) :
    ∃ edges, edgesFor chunker content params = 0 :: edges ∧
      Spaced ((effectiveMaxSize params).toNat + 3 + cdcSentenceSlack) (0 :: edges) ∧
      (∀ e ∈ 0 :: edges, RuneStart content e) ∧
      (0 :: edges).getLast? = some content.length := by
  have hwindow := rollingWindow_le_effectiveMinSize params
  unfold cdcRollingWindow at hwindow
  exact cdcEdges_spec chunker content _ (by omega)

lemma split_cuts (sum256 : List UInt8 → String) (content : List UInt8) (params : ChunkParams)
    (embedConfigID : List UInt8) : Cuts chunker sum256 content params embedConfigID
      (split chunker sum256 content params embedConfigID) := by
  unfold split
  by_cases hcontent : content = []
  · rw [if_pos hcontent]
    exact .empty hcontent rfl
  rw [if_neg hcontent]
  by_cases hsize : effectiveMaxSize params ≤ effectiveMinSize params
  · rw [if_pos hsize]
    exact .whole hcontent hsize rfl
  rw [if_neg hsize]
  obtain ⟨edges, heq, hspaced, hrune, hlast⟩ :=
    edgesFor_spec chunker content (Int.not_le.mp hsize)
  refine .between edges (Int.not_le.mp hsize) hspaced hrune hlast ?_
  rw [heq]
  -- With something between the edges the fallback to one chunk is not taken.
  refine if_neg fun hnone => hcontent ?_
  have hcut : (cutAt sum256 content embedConfigID (0 :: edges)).flatMap (·.content) =
      slice content 0 content.length := (flatMap_cutAt hspaced hlast).1
  rw [hnone, slice_zero_length] at hcut
  exact hcut.symm

/-- Content-defined splitting loses nothing: the chunks put together are the content, the edges
they are cut at do not decrease, no chunk is empty, the chunks of a text are texts, and none is
longer than the maximum by more than the slack and three bytes. -/
theorem split_lossless (chunker : Chunker) (sum256 : List UInt8 → String) (content : List UInt8)
    (params : ChunkParams) (embedConfigID : List UInt8) :
    (split chunker sum256 content params embedConfigID).flatMap (·.content) = content ∧
    (effectiveMinSize params < effectiveMaxSize params →
      (edgesFor chunker content params).Pairwise (· ≤ ·)) ∧
    (∀ c ∈ split chunker sum256 content params embedConfigID, c.content ≠ []) ∧
    (Valid content → ∀ c ∈ split chunker sum256 content params embedConfigID, Valid c.content) ∧
    (effectiveMinSize params < effectiveMaxSize params →
      ∀ c ∈ split chunker sum256 content params embedConfigID,
        (c.content.length : Int) ≤ effectiveMaxSize params + cdcSentenceSlack + 3) := by
  have hedges (hsize : effectiveMinSize params < effectiveMaxSize params) :
      (edgesFor chunker content params).Pairwise (· ≤ ·) := by
    obtain ⟨edges, heq, hspaced, -, -⟩ := edgesFor_spec chunker content hsize
    rw [heq]
    exact isChain_iff_pairwise.mp (hspaced.imp fun _ _ h => h.1)
  cases split_cuts chunker sum256 content params embedConfigID with
  | empty hcontent hchunks =>
    rw [hchunks]
    exact ⟨hcontent.symm, hedges, by simp, by simp, by simp⟩
  | whole hcontent hsize hchunks =>
    rw [hchunks]
    refine ⟨by simp [newChunk], hedges, ?_, ?_, fun hlt => absurd hlt (Int.not_lt.mpr hsize)⟩
    · intro c hc
      rw [mem_singleton.mp hc]
      exact hcontent
    · intro hvalid c hc
      rw [mem_singleton.mp hc]
      exact hvalid
  | between edges hsize hspaced hrune hlast hchunks =>
    rw [hchunks]
    have hlength {b : Nat} (hb : b ∈ 0 :: edges) : b ≤ content.length := (hrune b hb).le_length
    refine ⟨?_, hedges, ?_, ?_, ?_⟩
    · rw [(flatMap_cutAt hspaced hlast).1, slice_zero_length]
    · intro c hc hnil
      obtain ⟨a, -, b, hb, hlt, -, hcontent⟩ := exists_of_mem_cutAt hspaced hc
      have hlen := length_slice (a := a) (hlength hb)
      rw [← hcontent, hnil, length_nil] at hlen
      omega
    · intro hvalid c hc
      obtain ⟨a, ha, b, hb, -, -, hcontent⟩ := exists_of_mem_cutAt hspaced hc
      rw [hcontent]
      exact hvalid.slice (hrune a ha) (hrune b hb)
    intro _ c hc
    obtain ⟨a, -, b, hb, -, hgap, hcontent⟩ := exists_of_mem_cutAt hspaced hc
    have hwindow := rollingWindow_le_effectiveMinSize params
    unfold cdcRollingWindow at hwindow
    rw [hcontent, length_slice (hlength hb)]
    omega

lemma contiguous_single {size count : Nat} (hmax : 0 < maxSize) (hsize : start + count = size) :
    Contiguous size maxSize start ((range' start count).map fun i => (i, 1)) := by
  induction count generalizing start with
  | zero => exact hsize
  | succ count ih => exact ⟨rfl, hmax, ih (by omega)⟩

def singleBytes : Chunker where
  pieces data _ _ _ := (range' 0 data.length).map fun i => (i, 1)
  contiguous _ _ _ _ h := contiguous_single (Nat.zero_lt_of_lt h) (Nat.zero_add _)

-- The cuts within the three-byte character move behind it.
example : (split singleBytes (fun _ => "") [0xE4, 0xBD, 0xA0, 0x2E, 0x61]
    { mode := "cdc", minSize := 0, maxSize := 0 } []).map (·.content) =
      [[0xE4, 0xBD, 0xA0], [0x2E], [0x61]] := by decide +kernel

end stratum.splitter
