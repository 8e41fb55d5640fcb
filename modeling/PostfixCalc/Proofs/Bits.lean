import Mathlib
import PostfixCalc.Decimal.Binary64

/-!
# The bits of a number

Below the sign bit stand the bits of the exponent and of the mantissa, which
together are the word. The words of finite numbers come first, then that of
infinity, then those that are no number; of the last kind only one is left, as
all others are replaced by it. Hence a number is given by its word and its sign.

Results:
* `Binary64.isFinite_iff`, `Binary64.isNaN_iff`: the kinds of numbers by their
  words.
* `Binary64.toBits_ofBits`, `Binary64.isFinite_ofBits_iff`: a word is the word
  of a number.
* `Binary64.eq_ofBits_word`: a number is rebuilt from its word and its sign.
-/

namespace PostfixCalc

namespace Binary64

open Float.Model (Format UnpackedFloat)
open Float.Model.UnpackedFloat (unpackExponent unpackMantissa unpackSign isNaNBits pack_unpack)

theorem leadingBit_eq : leadingBit = 2 ^ 52 := by decide

theorem infinityWord_eq : infinityWord = 2047 * 2 ^ 52 := by decide

theorem signBit_eq : signBit = 2 ^ 63 := by decide

/-! ## Fields of the bits -/

variable (b : BitVec 64)

theorem toNat_unpackExponent :
    (@unpackExponent Format.binary64 b).toNat = b.toNat % 2 ^ 63 / 2 ^ 52 := by
  unfold unpackExponent
  simp only [Nat.reduceAdd, Nat.add_one_sub_one, Nat.reduceSub, BitVec.cast_eq,
    BitVec.extractLsb_toNat, Nat.reducePow]
  omega

theorem toNat_unpackMantissa :
    (@unpackMantissa Format.binary64 b).toNat = b.toNat % 2 ^ 63 % 2 ^ 52 := by
  unfold unpackMantissa
  simp only [Nat.add_one_sub_one, BitVec.cast_eq,
    BitVec.extractLsb_toNat]
  omega

theorem toNat_unpackSign :
    (@unpackSign Format.binary64 b).toNat = b.toNat / 2 ^ 63 := by
  have hb := b.isLt
  unfold unpackSign
  simp only [Nat.reduceAdd, Nat.reduceSub, BitVec.cast_eq, BitVec.extractLsb_toNat,
    Nat.reducePow]
  omega

/-- All bits of the exponent are set in the words from that of infinity on. -/
theorem unpackExponent_eq_iff :
    @unpackExponent Format.binary64 b = -1#11 ↔ infinityWord ≤ b.toNat % 2 ^ 63 := by
  have hb := b.isLt
  have hall : (-1#11).toNat = 2047 := rfl
  rw [← BitVec.toNat_inj, toNat_unpackExponent, hall, infinityWord_eq]
  omega

/-- Infinity is the first of these words, and the mantissa tells it from the others. -/
theorem unpackMantissa_eq_iff (h : @unpackExponent Format.binary64 b = -1#11) :
    @unpackMantissa Format.binary64 b = 0#52 ↔ b.toNat % 2 ^ 63 ≤ infinityWord := by
  have hb := b.isLt
  rw [unpackExponent_eq_iff] at h
  rw [← BitVec.toNat_inj, toNat_unpackMantissa, infinityWord_eq] at *
  simp only [BitVec.toNat_ofNat, Nat.zero_mod]
  omega

/-- A number is finite unless its exponent has all bits set. -/
theorem isFinite_unpack_iff :
    (UnpackedFloat.unpack Format.binary64 b).isFinite = true ↔
      b.toNat % 2 ^ 63 < infinityWord := by
  rw [← Nat.not_le, ← unpackExponent_eq_iff]
  unfold UnpackedFloat.unpack
  dsimp only
  by_cases hall : @unpackExponent Format.binary64 b = -1#11
  · rw [if_pos hall]
    split_ifs <;> exact iff_of_false Bool.false_ne_true (not_not.mpr hall)
  · rw [if_neg hall]
    split_ifs <;> exact iff_of_true rfl hall

theorem isNaN_unpack_iff :
    (UnpackedFloat.unpack Format.binary64 b).isNaN = true ↔
      infinityWord < b.toNat % 2 ^ 63 := by
  unfold UnpackedFloat.unpack
  dsimp only
  by_cases hall : @unpackExponent Format.binary64 b = -1#11
  · rw [if_pos hall, ← Nat.not_le, ← unpackMantissa_eq_iff b hall]
    split_ifs with h
    · exact iff_of_false Bool.false_ne_true (not_not.mpr h)
    · exact iff_of_true rfl h
  · have hle : b.toNat % 2 ^ 63 < infinityWord := by
      rwa [← Nat.not_le, ← unpackExponent_eq_iff]
    rw [if_neg hall]
    split_ifs <;> exact iff_of_false Bool.false_ne_true hle.le.not_gt

/-- Only what is no number changes when it is unpacked and packed again. -/
theorem pack_unpack_of_le (h : b.toNat % 2 ^ 63 ≤ infinityWord) :
    UnpackedFloat.pack Format.binary64 (UnpackedFloat.unpack Format.binary64 b) = b := by
  have hnan : ¬ @isNaNBits Format.binary64 b = true := by
    intro hnan
    obtain ⟨hexponent, hmantissa⟩ := of_decide_eq_true hnan
    exact hmantissa ((unpackMantissa_eq_iff b hexponent).mpr h)
  rw [@pack_unpack Format.binary64 b (by decide), if_neg hnan]

/-- A negative number is the negation of what its word encodes. -/
theorem neg_unpack {b b' : BitVec 64} (hsign : 2 ^ 63 ≤ b.toNat) (h : b'.toNat = b.toNat % 2 ^ 63) :
    (UnpackedFloat.unpack Format.binary64 b').neg = UnpackedFloat.unpack Format.binary64 b := by
  have hb := b.isLt
  have hexponent : @unpackExponent Format.binary64 b' = @unpackExponent Format.binary64 b := by
    rw [← BitVec.toNat_inj, toNat_unpackExponent, toNat_unpackExponent, h, Nat.mod_mod]
  have hmantissa : @unpackMantissa Format.binary64 b' = @unpackMantissa Format.binary64 b := by
    rw [← BitVec.toNat_inj, toNat_unpackMantissa, toNat_unpackMantissa, h, Nat.mod_mod]
  have hone : @unpackSign Format.binary64 b = 1#1 := by
    rw [← BitVec.toNat_inj, toNat_unpackSign]
    simp only [BitVec.toNat_ofNat, Nat.reducePow, Nat.one_mod]
    omega
  have hzero : @unpackSign Format.binary64 b' = 0#1 := by
    rw [← BitVec.toNat_inj, toNat_unpackSign]
    simp only [BitVec.toNat_ofNat, Nat.zero_mod]
    omega
  unfold UnpackedFloat.unpack
  simp only [hexponent, hmantissa, hone, hzero]
  split_ifs <;> rfl

/-! ## Numbers and their words -/

variable (x : Float)

theorem word_eq : word x = x.toBits.toBitVec.toNat % 2 ^ 63 := by
  rw [word, signBit_eq]
  rfl

theorem isFinite_iff : x.isFinite = true ↔ word x < infinityWord := by
  rw [word_eq]
  exact isFinite_unpack_iff _

theorem isNaN_iff : x.isNaN = true ↔ infinityWord < word x := by
  rw [word_eq]
  exact isNaN_unpack_iff _

theorem isNaN_eq_false_iff : x.isNaN = false ↔ word x ≤ infinityWord := by
  rw [← Bool.not_eq_true, isNaN_iff, Nat.not_lt]

theorem toNat_toBitVec_ofNat {w : ℕ} (hw : w ≤ infinityWord) :
    (UInt64.ofNat w).toBitVec.toNat = w := by
  rw [infinityWord_eq] at hw
  simp only [UInt64.toBitVec_ofNat', BitVec.toNat_ofNat]
  omega

theorem toBits_ofBits {w : ℕ} (hw : w ≤ infinityWord) :
    (Float.ofBits (UInt64.ofNat w)).toBits = UInt64.ofNat w := by
  have hnat := toNat_toBitVec_ofNat hw
  rw [← UInt64.toBitVec_inj]
  refine pack_unpack_of_le _ ?_
  rw [hnat]
  exact le_trans (Nat.mod_le _ _) hw

/-- The words of finite numbers are those below the word of infinity. -/
theorem isFinite_ofBits_iff {w : ℕ} (hw : w ≤ infinityWord) :
    (Float.ofBits (UInt64.ofNat w)).isFinite = true ↔ w < infinityWord := by
  have hnat := toNat_toBitVec_ofNat hw
  have hlt : w < 2 ^ 63 := by rw [infinityWord_eq] at hw; omega
  rw [isFinite_iff, word_eq, toBits_ofBits hw, hnat, Nat.mod_eq_of_lt hlt]

/-- A number is given by its word and its sign. -/
theorem eq_ofBits_word {x : Float} (hnan : x.isNaN = false) :
    x = if isNegative x then -Float.ofBits (UInt64.ofNat (word x))
      else Float.ofBits (UInt64.ofNat (word x)) := by
  have hle := (isNaN_eq_false_iff x).mp hnan
  have hnat := toNat_toBitVec_ofNat hle
  have hbits := toBits_ofBits hle
  have hsign : isNegative x = true ↔ 2 ^ 63 ≤ x.toBits.toBitVec.toNat := by
    rw [isNegative, signBit_eq, decide_eq_true_eq]
    rfl
  rw [word_eq] at hnat
  split_ifs with h
  · rw [← Float.toBits_inj, ← UInt64.toBitVec_inj]
    rw [hsign] at h
    show _ = UnpackedFloat.pack Format.binary64 (UnpackedFloat.unpack Format.binary64
      (Float.ofBits (UInt64.ofNat (word x))).toBits.toBitVec).neg
    rw [hbits, word_eq, neg_unpack h hnat]
    exact (congrArg (·.toBits.toBitVec) (Float.ofBits_toBits x)).symm
  · have hlt : x.toBits.toBitVec.toNat < 2 ^ 63 := by rwa [hsign, not_le] at h
    have heq : UInt64.ofNat (word x) = x.toBits := by
      rw [← UInt64.toBitVec_inj, ← BitVec.toNat_inj, word_eq, hnat, Nat.mod_eq_of_lt hlt]
    rw [heq, Float.ofBits_toBits]

end Binary64

end PostfixCalc
