import Mathlib.Algebra.Group.Nat.Defs
import Mathlib.Data.List.Induction

namespace stratum.lib

open List

/-- The low `w` bytes of a number, most significant byte first. -/
def bigEndian : Nat → Nat → List UInt8
  | 0, _ => []
  | w + 1, n => UInt8.ofNat (n / 256 ^ w) :: bigEndian w n

/-- The number a byte string spells, most significant byte first. -/
def ofBigEndian (bs : List UInt8) : Nat := bs.foldl (fun acc b => acc * 256 + b.toNat) 0

@[simp] lemma length_bigEndian (w n : Nat) : (bigEndian w n).length = w := by
  induction w with
  | zero => rfl
  | succ w ih => simp [bigEndian, ih]

lemma foldl_bigEndian (w n acc : Nat) :
    (bigEndian w n).foldl (fun acc b => acc * 256 + b.toNat) acc = acc * 256 ^ w + n % 256 ^ w := by
  induction w generalizing acc with
  | zero => simp [bigEndian, Nat.mod_one]
  | succ w ih =>
  have hbyte : (UInt8.ofNat (n / 256 ^ w)).toNat = n / 256 ^ w % 256 := by simp
  rw [bigEndian, foldl_cons, ih, hbyte, Nat.mod_pow_succ, Nat.pow_succ, Nat.add_mul,
    Nat.mul_assoc, mul_comm 256, mul_comm (n / 256 ^ w % 256)]
  omega

/-- Reading back what was written keeps the low bytes. -/
@[simp] lemma ofBigEndian_bigEndian (w n : Nat) : ofBigEndian (bigEndian w n) = n % 256 ^ w := by
  rw [ofBigEndian, foldl_bigEndian, Nat.zero_mul, zero_add]

lemma ofBigEndian_bigEndian_of_lt {w n : Nat} (hlt : n < 256 ^ w) :
    ofBigEndian (bigEndian w n) = n := by
  rw [ofBigEndian_bigEndian, Nat.mod_eq_of_lt hlt]

lemma ofBigEndian_lt (bs : List UInt8) : ofBigEndian bs < 256 ^ bs.length := by
  induction bs using reverseRecOn with
  | nil => simp [ofBigEndian]
  | append_singleton bs b ih =>
  have hbyte := b.toNat_lt
  simp only [ofBigEndian, foldl_append, foldl_cons, foldl_nil, length_append,
    length_singleton, Nat.pow_succ] at ih ⊢
  omega

end stratum.lib
