import Mathlib.Init

namespace stratum.lib.utf8

open List

def runeError : Char := '�'

/-- The first character of a byte string and its width. A byte that begins no character is an
error of width one, the end of the string an error of width zero. -/
def decodeRune (data : List UInt8) : Char × Nat :=
  match data.toByteArray.utf8DecodeChar? 0 with
  | some c => (c, c.utf8Size)
  | none => (runeError, if data = [] then 0 else 1)

lemma decodeRune_eq_or (data : List UInt8) :
    (∃ c, data.toByteArray.utf8DecodeChar? 0 = some c ∧ decodeRune data = (c, c.utf8Size)) ∨
      decodeRune data = (runeError, if data = [] then 0 else 1) := by
  unfold decodeRune
  cases data.toByteArray.utf8DecodeChar? 0 with
  | none => exact .inr rfl
  | some c => exact .inl ⟨c, rfl, rfl⟩

variable {data : List UInt8} {i : Nat}

lemma width_pos (hne : data ≠ []) : 0 < (decodeRune data).2 := by
  obtain ⟨c, -, heq⟩ | heq := decodeRune_eq_or data
  · rw [heq]
    exact c.utf8Size_pos
  · rw [heq, if_neg hne]
    exact Nat.one_pos

lemma width_le_four (data : List UInt8) : (decodeRune data).2 ≤ 4 := by
  obtain ⟨c, -, heq⟩ | heq := decodeRune_eq_or data
  · rw [heq]
    exact c.utf8Size_le_four
  · rw [heq]
    split <;> decide

lemma width_le_length (data : List UInt8) : (decodeRune data).2 ≤ data.length := by
  obtain ⟨c, hc, heq⟩ | heq := decodeRune_eq_or data
  · rw [heq]
    have hle := ByteArray.le_size_of_utf8DecodeChar?_eq_some hc
    rwa [Nat.zero_add, size_toByteArray] at hle
  rw [heq]
  cases data with
  | nil => exact Nat.le_refl 0
  | cons b data => exact Nat.succ_le_of_lt (Nat.succ_pos _)

def encode (cs : List Char) : List UInt8 := cs.flatMap String.utf8EncodeChar

/-- The byte string is the encoding of a text. -/
def Valid (data : List UInt8) : Prop := data.toByteArray.IsValidUTF8

lemma valid_iff : Valid data ↔ ∃ cs, data = encode cs := by
  constructor
  · rintro ⟨cs, hcs⟩
    refine ⟨cs, ?_⟩
    have hdata := congrArg (fun b => b.data.toList) hcs
    simpa [encode, utf8Encode] using hdata
  · rintro ⟨cs, rfl⟩
    exact ⟨cs, rfl⟩

lemma encode_append (cs cs' : List Char) : encode (cs ++ cs') = encode cs ++ encode cs' :=
  flatMap_append

variable (c : Char)

lemma decodeRune_encode (cs : List Char) : decodeRune (encode (c :: cs)) = (c, c.utf8Size) := by
  have hdecode : (encode (c :: cs)).toByteArray.utf8DecodeChar? 0 = some c :=
    utf8DecodeChar?_utf8Encode_cons
  simp [decodeRune, hdecode]

/-- The offsets at which decoding from the left begins a character, or ends. -/
inductive RuneStart (data : List UInt8) : Nat → Prop
  | zero : RuneStart data 0
  | next {i : Nat} (h : RuneStart data i) (hlt : i < data.length) :
      RuneStart data (i + (decodeRune (data.drop i)).2)

lemma RuneStart.le_length (h : RuneStart data i) : i ≤ data.length := by
  induction h with
  | zero => exact Nat.zero_le _
  | @next i h hlt ih =>
    have := width_le_length (data.drop i)
    rw [length_drop] at this
    omega

variable {cs : List Char}

/-- In a text the offsets are the ends of its initial parts. -/
lemma RuneStart.exists_split (h : RuneStart (encode cs) i) :
    ∃ pre post, cs = pre ++ post ∧ i = (encode pre).length := by
  induction h with
  | zero => exact ⟨[], cs, rfl, rfl⟩
  | next h hlt ih =>
  obtain ⟨pre, post, rfl, rfl⟩ := ih
  rw [encode_append, drop_left]
  cases post with
  | nil =>
    rw [encode_append, length_append] at hlt
    exact absurd hlt (Nat.lt_irrefl _)
  | cons c post =>
    refine ⟨pre ++ [c], post, by simp, ?_⟩
    rw [decodeRune_encode, encode_append]
    simp [encode]

lemma Valid.slice (hvalid : Valid data) {j : Nat} (hi : RuneStart data i)
    (hj : RuneStart data j) : Valid ((data.drop i).take (j - i)) := by
  obtain ⟨cs, rfl⟩ := valid_iff.mp hvalid
  obtain ⟨pre, post, rfl, rfl⟩ := hi.exists_split
  obtain ⟨pre', post', heq, rfl⟩ := hj.exists_split
  rw [valid_iff, encode_append, drop_left]
  obtain ⟨mid, rfl, rfl⟩ | ⟨mid, rfl, rfl⟩ := append_eq_append_iff.mp heq
  · refine ⟨mid, ?_⟩
    rw [encode_append, encode_append, length_append, Nat.add_sub_cancel_left, take_left]
  refine ⟨[], ?_⟩
  rw [encode_append pre' mid, length_append, Nat.sub_add_eq, Nat.sub_self, Nat.zero_sub]
  rfl

/-- The characters of a byte string, an error for each byte that begins none. Every turn consumes
a byte. -/
def runesFrom : Nat → List UInt8 → List Char
  | 0, _ => []
  | fuel + 1, data =>
    if data = [] then []
    else (decodeRune data).1 :: runesFrom fuel (data.drop (decodeRune data).2)

def runes (data : List UInt8) : List Char := runesFrom data.length data

lemma length_encode_cons (cs : List Char) :
    (encode (c :: cs)).length = c.utf8Size + (encode cs).length := by
  rw [encode, flatMap_cons, length_append, String.length_utf8EncodeChar, encode]

lemma encode_ne_nil (hne : cs ≠ []) : encode cs ≠ [] := by
  obtain ⟨c, cs, rfl⟩ := exists_cons_of_ne_nil hne
  refine ne_nil_of_length_pos ?_
  rw [length_encode_cons]
  exact Nat.add_pos_left c.utf8Size_pos _

lemma flatten_map_encode (css : List (List Char)) :
    (css.map encode).flatten = encode css.flatten := by
  rw [← flatMap_def, ← flatMap_id, encode, flatMap_assoc]
  rfl

lemma runesFrom_encode (cs : List Char) {fuel : Nat} (hfuel : (encode cs).length ≤ fuel) :
    runesFrom fuel (encode cs) = cs := by
  induction cs generalizing fuel with
  | nil => cases fuel <;> rfl
  | cons c cs ih =>
    have hpos := c.utf8Size_pos
    have hdrop : (encode (c :: cs)).drop c.utf8Size = encode cs := by
      rw [← String.length_utf8EncodeChar c]
      exact drop_left
    rw [length_encode_cons] at hfuel
    obtain ⟨fuel, rfl⟩ := Nat.exists_eq_add_of_lt (show 0 < fuel by omega)
    rw [Nat.zero_add, runesFrom, if_neg (encode_ne_nil (cons_ne_nil c cs)), decodeRune_encode,
      hdrop, ih (by omega)]

end stratum.lib.utf8
