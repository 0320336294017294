import Mathlib.Data.List.Basic
import Mathlib.Algebra.Order.Ring.Nat
import Mathlib.Data.List.Induction
import Mathlib.Tactic.NormNum
import Mathlib.Algebra.Order.Ring.Int

/-!
# Big-endian numbers

The value of a list of bytes, most significant first, and the bytes of a given
width of a number. Reading inverts writing on the numbers which fit. Machine words
that are put together from shifted bytes have that value, and the low bytes of a
shifted integer are the bytes of its residue.
-/

namespace Foundation

/-- The number whose base-256 digits are the bytes, most significant first. -/
def bigEndian (bytes : List UInt8) : Nat :=
  bytes.foldl (fun value byte => value * 256 + byte.toNat) 0

/-- The `width` low bytes of a number, most significant first. -/
def bigEndianBytes : Nat → Nat → List UInt8
  | 0, _ => []
  | width + 1, value => bigEndianBytes width (value / 256) ++ [UInt8.ofNat value]

@[simp] theorem length_bigEndianBytes (width value : Nat) :
    (bigEndianBytes width value).length = width := by
  induction width generalizing value with
  | zero => rfl
  | succ width ih => simp only [bigEndianBytes, List.length_append, ih, List.length_singleton]

theorem bigEndian_concat (bytes : List UInt8) (byte : UInt8) :
    bigEndian (bytes ++ [byte]) = bigEndian bytes * 256 + byte.toNat := by
  simp only [bigEndian, List.foldl_append, List.foldl_cons, List.foldl_nil]

theorem bigEndian_cons (byte : UInt8) (bytes : List UInt8) :
    bigEndian (byte :: bytes) = byte.toNat * 256 ^ bytes.length + bigEndian bytes := by
  induction bytes using List.reverseRecOn with
  | nil => simp [bigEndian]
  | append_singleton bytes last ih =>
      rw [← List.cons_append, bigEndian_concat, bigEndian_concat, ih, List.length_append,
        List.length_singleton, pow_succ, add_mul, mul_assoc, add_assoc]

theorem bigEndian_lt (bytes : List UInt8) : bigEndian bytes < 256 ^ bytes.length := by
  induction bytes using List.reverseRecOn with
  | nil => exact Nat.one_pos
  | append_singleton bytes byte ih =>
      rw [bigEndian_concat, List.length_append, List.length_singleton, Nat.pow_succ]
      have small := byte.toNat_lt
      omega

/-- Reading inverts writing on the numbers of the width. -/
theorem bigEndian_bigEndianBytes {width value : Nat} (fits : value < 256 ^ width) :
    bigEndian (bigEndianBytes width value) = value := by
  induction width generalizing value with
  | zero =>
      have zero : value = 0 := by simpa using fits
      rw [zero]
      rfl
  | succ width ih =>
      have quotient : value / 256 < 256 ^ width := by
        rw [Nat.div_lt_iff_lt_mul (by decide)]
        rwa [Nat.pow_succ] at fits
      rw [bigEndianBytes, bigEndian_concat, ih quotient, UInt8.toNat_ofNat']
      omega

/-! ## Words of shifted bytes -/

/-- One more byte in front of the bits from position `shift` on. -/
private theorem shiftLeft_or_byte (value : Nat) (byte : UInt8) (shift : Nat) :
    value <<< (8 + shift) ||| byte.toNat <<< shift = (value * 256 + byte.toNat) <<< shift := by
  rw [Nat.shiftLeft_add, ← Nat.shiftLeft_or_distrib,
    ← Nat.shiftLeft_add_eq_or_of_lt (i := 8) byte.toNat_lt value, Nat.shiftLeft_eq value 8]

theorem toNat_uint16_of_bytes (a b : UInt8) :
    (a.toUInt16 <<< 8 ||| b.toUInt16).toNat = bigEndian [a, b] := by
  have first := a.toNat_lt
  have shifted : a.toNat <<< 8 < 2 ^ 16 := by
    rw [Nat.shiftLeft_eq]
    omega
  have value : (a.toUInt16 <<< 8 ||| b.toUInt16).toNat =
      a.toNat <<< (8 + 0) ||| b.toNat <<< 0 := by
    simp only [UInt16.toNat_or, UInt16.toNat_shiftLeft, UInt8.toNat_toUInt16]
    rw [show (8 : UInt16).toNat % 16 = 8 from rfl, Nat.mod_eq_of_lt shifted]
    rfl
  rw [value, shiftLeft_or_byte]
  simp [bigEndian]

theorem toNat_uint32_of_bytes (a b c d : UInt8) :
    (a.toUInt32 <<< 24 ||| b.toUInt32 <<< 16 ||| c.toUInt32 <<< 8 ||| d.toUInt32).toNat =
      bigEndian [a, b, c, d] := by
  have first := a.toNat_lt
  have second := b.toNat_lt
  have third := c.toNat_lt
  have shifted : a.toNat <<< 24 < 2 ^ 32 ∧ b.toNat <<< 16 < 2 ^ 32 ∧ c.toNat <<< 8 < 2 ^ 32 := by
    simp only [Nat.shiftLeft_eq]
    omega
  have value : (a.toUInt32 <<< 24 ||| b.toUInt32 <<< 16 ||| c.toUInt32 <<< 8 |||
      d.toUInt32).toNat =
        a.toNat <<< (8 + 16) ||| b.toNat <<< 16 ||| c.toNat <<< 8 ||| d.toNat <<< 0 := by
    simp only [UInt32.toNat_or, UInt32.toNat_shiftLeft, UInt8.toNat_toUInt32]
    rw [show (24 : UInt32).toNat % 32 = 24 from rfl, show (16 : UInt32).toNat % 32 = 16 from rfl,
      show (8 : UInt32).toNat % 32 = 8 from rfl, Nat.mod_eq_of_lt shifted.1,
      Nat.mod_eq_of_lt shifted.2.1, Nat.mod_eq_of_lt shifted.2.2]
    rfl
  rw [value, shiftLeft_or_byte, shiftLeft_or_byte _ _ 8, shiftLeft_or_byte _ _ 0]
  simp [bigEndian]

/-- One more byte behind a word that leaves room for it. -/
theorem toNat_uint64_shiftLeft_add {value : UInt64} {bytes : List UInt8} (byte : UInt8)
    (room : bytes.length < 8) (same : value.toNat = bigEndian bytes) :
    (value <<< 8 + byte.toUInt64).toNat = bigEndian (bytes ++ [byte]) := by
  have small := byte.toNat_lt
  have fits : value.toNat < 2 ^ 56 :=
    calc value.toNat
      _ < 256 ^ bytes.length := same ▸ bigEndian_lt bytes
      _ ≤ 256 ^ 7 := Nat.pow_le_pow_right (by decide) (by omega)
  rw [UInt64.toNat_add, UInt64.toNat_shiftLeft, UInt8.toNat_toUInt64,
    show (8 : UInt64).toNat % 64 = 8 from rfl, Nat.shiftLeft_eq, bigEndian_concat, ← same]
  omega

theorem toNat_uint64_of_sums (a b c d e f g h : UInt8) :
    (((((((a.toUInt64 <<< 8 + b.toUInt64) <<< 8 + c.toUInt64) <<< 8 + d.toUInt64) <<< 8 +
      e.toUInt64) <<< 8 + f.toUInt64) <<< 8 + g.toUInt64) <<< 8 + h.toUInt64).toNat =
      bigEndian [a, b, c, d, e, f, g, h] := by
  have highest : a.toUInt64.toNat = bigEndian [a] := by simp [bigEndian]
  have second := toNat_uint64_shiftLeft_add b (by simp) highest
  have third := toNat_uint64_shiftLeft_add c (by simp) second
  have fourth := toNat_uint64_shiftLeft_add d (by simp) third
  have fifth := toNat_uint64_shiftLeft_add e (by simp) fourth
  have sixth := toNat_uint64_shiftLeft_add f (by simp) fifth
  have seventh := toNat_uint64_shiftLeft_add g (by simp) sixth
  exact toNat_uint64_shiftLeft_add h (by simp) seventh

/-- One more byte in front of a word that is below it. -/
theorem toNat_uint64_or_shiftLeft {value : UInt64} {bytes : List UInt8} (byte : UInt8)
    {shift : UInt64} (room : bytes.length < 8) (position : shift.toNat = 8 * bytes.length)
    (same : value.toNat = bigEndian bytes) :
    (value ||| byte.toUInt64 <<< shift).toNat = bigEndian (byte :: bytes) := by
  have power : 2 ^ shift.toNat = 256 ^ bytes.length := by
    rw [position, pow_mul]
    norm_num
  have fits : value.toNat < 2 ^ shift.toNat := by
    rw [same, power]
    exact bigEndian_lt bytes
  have below : byte.toNat * 2 ^ shift.toNat < 2 ^ 64 :=
    calc byte.toNat * 2 ^ shift.toNat
      _ < 2 ^ 8 * 2 ^ shift.toNat := Nat.mul_lt_mul_of_pos_right byte.toNat_lt (Nat.two_pow_pos _)
      _ ≤ 2 ^ 8 * 2 ^ 56 := Nat.mul_le_mul_left _ (Nat.pow_le_pow_right (by decide) (by omega))
  rw [UInt64.toNat_or, UInt64.toNat_shiftLeft, UInt8.toNat_toUInt64,
    Nat.mod_eq_of_lt (by omega : shift.toNat < 64), Nat.shiftLeft_eq, Nat.mod_eq_of_lt below,
    Nat.or_comm, ← Nat.shiftLeft_eq, ← Nat.shiftLeft_add_eq_or_of_lt fits, Nat.shiftLeft_eq, power,
    same, bigEndian_cons]

/-- The bytes of the memory of a word, from the last one on. -/
theorem toNat_uint64_of_bytes (a b c d e f g h : UInt8) :
    (h.toUInt64 ||| g.toUInt64 <<< 8 ||| f.toUInt64 <<< 16 ||| e.toUInt64 <<< 24 |||
      d.toUInt64 <<< 32 ||| c.toUInt64 <<< 40 ||| b.toUInt64 <<< 48 ||| a.toUInt64 <<< 56).toNat =
      bigEndian [a, b, c, d, e, f, g, h] := by
  have lowest : h.toUInt64.toNat = bigEndian [h] := by simp [bigEndian]
  iterate 7 apply toNat_uint64_or_shiftLeft _ (by simp) rfl
  exact lowest

/-- The bytes of an integer, most significant first, as shifting and masking with
`0xFF` takes them. -/
def shiftedBytes : Nat → Int → List UInt8
  | 0, _ => []
  | width + 1, value => UInt8.ofInt (value >>> (8 * width)) :: shiftedBytes width value

/-- The most significant byte comes first. -/
theorem bigEndianBytes_succ_eq_cons (width value : Nat) :
    bigEndianBytes (width + 1) value =
      UInt8.ofNat (value / 256 ^ width) :: bigEndianBytes width value := by
  induction width generalizing value with
  | zero => simp only [bigEndianBytes, List.nil_append, pow_zero, Nat.div_one]
  | succ width ih =>
      rw [bigEndianBytes, ih, List.cons_append, Nat.div_div_eq_div_mul, ← Nat.pow_succ']
      rfl

/-- Shifting sees nothing of what is beyond the width. -/
theorem shiftedBytes_eq {width : Nat} {value : Int} {residue : Nat} (turns : Int)
    (same : value = residue + 256 ^ width * turns) :
    shiftedBytes width value = bigEndianBytes width residue := by
  induction width generalizing turns with
  | zero => rfl
  | succ width ih =>
      have finer : value = residue + 256 ^ width * (256 * turns) := by
        rw [same, pow_succ, mul_assoc]
      have power : (2 : Int) ^ (8 * width) = 256 ^ width := by
        rw [pow_mul]
        norm_num
      have positive : (256 : Int) ^ width ≠ 0 := pow_ne_zero width (by decide)
      have shifted : value >>> (8 * width) = (residue / 256 ^ width : Nat) + 256 * turns := by
        rw [Int.shiftRight_eq_div_pow, Nat.cast_pow, Nat.cast_ofNat, power, finer,
          Int.add_mul_ediv_left _ _ positive, Int.natCast_ediv, Nat.cast_pow, Nat.cast_ofNat]
      rw [shiftedBytes, ih (256 * turns) finer, bigEndianBytes_succ_eq_cons, shifted]
      congr 1
      generalize residue / 256 ^ width = quotient
      rw [← UInt8.toNat_inj, UInt8.ofInt, UInt8.toNat_ofNat', UInt8.toNat_ofNat']
      omega

/-- A signed word is its unsigned value up to full turns. -/
theorem shiftedBytes_toInt {width : Nat} (word : BitVec (8 * width)) :
    shiftedBytes width word.toInt = bigEndianBytes width word.toNat := by
  have power : (2 : Int) ^ (8 * width) = 256 ^ width := by
    rw [pow_mul]
    norm_num
  rw [BitVec.toInt_eq_toNat_cond]
  split
  · apply shiftedBytes_eq 0
    rw [mul_zero, add_zero]
  · apply shiftedBytes_eq (-1)
    rw [mul_neg_one, ← sub_eq_add_neg, Nat.cast_pow, Nat.cast_ofNat, power]

end Foundation
