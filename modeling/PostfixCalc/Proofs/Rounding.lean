import PostfixCalc.Proofs.Bits
import PostfixCalc.Scalar

/-!
# To which word a decimal rounds

Between the numbers of two words in a row there is a half-way point. What lies
below it rounds to the first word or a smaller one, what lies above it to a
larger one, and the point itself to the even word of the two. Half-way between
the largest finite number, `2^1024 - 2^971`, and `2^1024` lies
`2^1024 - 2^970`, so a decimal is read as a finite number exactly if its value
is below this bound.

Results:
* `Binary64.roundHalfEven_le_iff`: rounding to a natural number, with its ties.
* `Binary64.floorLog2_spec`: the leading bit of a quotient.
* `Binary64.nearestWord_le_iff`, `Decimal.nearestWord_le_iff`: which numbers
  round to a word or a smaller one.
* `Decimal.isFinite_toFloat_iff`: when a decimal is read as a finite number.
-/

namespace PostfixCalc

/-- The exact value of a decimal. -/
def Decimal.value (d : Decimal) : ℚ := d.digits * 10 ^ d.exponent

namespace Binary64

/-- The least number that rounds to infinity. -/
def overflow : ℚ := 2 ^ 1024 - 2 ^ 970

theorem overflow_eq : overflow = (2 ^ 54 - 1) * 2 ^ 970 := by
  have h : (2 : ℚ) ^ 1024 = 2 ^ 54 * 2 ^ 970 := by rw [← pow_add]
  rw [overflow, h, sub_mul, one_mul]

theorem overflow_le_two_pow_1024 : overflow ≤ (2 : ℚ) ^ (1024 : ℤ) := by
  have h : (2 : ℚ) ^ (1024 : ℤ) = 2 ^ 1024 := rfl
  rw [overflow, h, sub_le_self_iff]
  positivity

/-! ## Powers with integer exponents -/

theorem zpow_eq_toNat_div (b : ℚ) (e : ℤ) :
    b ^ e = b ^ e.toNat / b ^ (-e).toNat := by
  rcases le_total 0 e with h | h
  · obtain ⟨n, rfl⟩ := Int.eq_ofNat_of_zero_le h
    simp
  · obtain ⟨n, hn⟩ := Int.eq_ofNat_of_zero_le (by omega : 0 ≤ -e)
    obtain rfl : e = -(n : ℤ) := by omega
    simp

/-- Both members of a quotient are scaled by whole numbers, to divide it by `2 ^ q`. -/
theorem scaled_div (num den : ℕ) (q : ℤ) :
    ((num * 2 ^ (-q).toNat : ℕ) : ℚ) / (den * 2 ^ q.toNat : ℕ) = num / den / 2 ^ q := by
  rw [zpow_eq_toNat_div 2 q]
  push_cast
  field_simp

/-! ## Rounding to a natural number -/

theorem roundHalfEven_le_iff {num den : ℕ} (hden : 0 < den) (m : ℕ) :
    roundHalfEven num den ≤ m ↔
      (num : ℚ) / den < m + 1 / 2 ∨ (num : ℚ) / den = m + 1 / 2 ∧ m % 2 = 0 := by
  have hd : (0 : ℚ) < den := by exact_mod_cast hden
  have hdiv : den * (num / den) + num % den = num := Nat.div_add_mod num den
  have hmod : num % den < den := Nat.mod_lt num hden
  -- both sides in natural numbers, over the denominator `2 * den`
  have hlt : (num : ℚ) / den < m + 1 / 2 ↔ 2 * num < 2 * (den * m) + den := by
    rw [div_lt_iff₀ hd, ← Nat.cast_lt (α := ℚ)]
    push_cast
    constructor <;> intro h <;> linarith
  have heq : (num : ℚ) / den = m + 1 / 2 ↔ 2 * num = 2 * (den * m) + den := by
    rw [div_eq_iff hd.ne', ← Nat.cast_inj (R := ℚ)]
    push_cast
    constructor <;> intro h <;> linarith
  rw [hlt, heq]
  unfold roundHalfEven
  dsimp only
  generalize num / den = k at *
  generalize num % den = r at *
  rcases Nat.lt_trichotomy m k with hm | rfl | hm
  · have hmul : den * m + den ≤ den * k := by
      rw [← Nat.mul_succ]; exact Nat.mul_le_mul_left den hm
    split_ifs <;> omega
  · split_ifs <;> omega
  · have hmul : den * k + den ≤ den * m := by
      rw [← Nat.mul_succ]; exact Nat.mul_le_mul_left den hm
    split_ifs <;> omega

theorem roundHalfEven_le_of_div_le {num den m : ℕ} (hden : 0 < den) (h : (num : ℚ) / den ≤ m) :
    roundHalfEven num den ≤ m :=
  (roundHalfEven_le_iff hden m).mpr (Or.inl (by linarith))

theorem le_roundHalfEven_of_le_div {num den m : ℕ} (hden : 0 < den) (h : (m : ℚ) ≤ num / den) :
    m ≤ roundHalfEven num den := by
  rcases m with _ | m
  · exact Nat.zero_le _
  · by_contra hlt
    have hle : roundHalfEven num den ≤ m := by omega
    push_cast at h
    rcases (roundHalfEven_le_iff hden m).mp hle with h' | ⟨h', -⟩ <;> linarith

/-! ## The leading bit -/

theorem two_pow_log2_le {n : ℕ} (h : 0 < n) : (2 : ℚ) ^ (n.log2 : ℤ) ≤ n := by
  rw [zpow_natCast]
  exact_mod_cast Nat.log2_self_le h.ne'

theorem lt_two_pow_log2_add_one (n : ℕ) : (n : ℚ) < 2 ^ ((n.log2 : ℤ) + 1) := by
  have h : n < 2 ^ (n.log2 + 1) := Nat.lt_log2_self
  have hcast : ((n.log2 : ℤ) + 1) = ((n.log2 + 1 : ℕ) : ℤ) := by push_cast; ring
  rw [hcast, zpow_natCast]
  exact_mod_cast h

/-- The quotient lies in the binade of its `floorLog2`. -/
theorem floorLog2_spec {num den : ℕ} (hnum : 0 < num) (hden : 0 < den) :
    (2 : ℚ) ^ floorLog2 num den ≤ num / den ∧
      (num : ℚ) / den < 2 ^ (floorLog2 num den + 1) := by
  have hd : (0 : ℚ) < den := by exact_mod_cast hden
  -- the logarithms of the members leave two binades, of which one comparison picks the right one
  have hlow : (2 : ℚ) ^ ((num.log2 : ℤ) - den.log2 - 1) ≤ num / den := by
    rw [le_div_iff₀ hd]
    calc (2 : ℚ) ^ ((num.log2 : ℤ) - den.log2 - 1) * den
        ≤ 2 ^ ((num.log2 : ℤ) - den.log2 - 1) * 2 ^ ((den.log2 : ℤ) + 1) := by
          gcongr; exact (lt_two_pow_log2_add_one den).le
      _ = 2 ^ (num.log2 : ℤ) := by rw [← zpow_add₀ two_ne_zero]; congr 1; ring
      _ ≤ num := two_pow_log2_le hnum
  have hhigh : (num : ℚ) / den < 2 ^ ((num.log2 : ℤ) - den.log2 + 1) := by
    rw [div_lt_iff₀ hd]
    calc (num : ℚ) < 2 ^ ((num.log2 : ℤ) + 1) := lt_two_pow_log2_add_one num
      _ = 2 ^ ((num.log2 : ℤ) - den.log2 + 1) * 2 ^ (den.log2 : ℤ) := by
          rw [← zpow_add₀ two_ne_zero]; congr 1; ring
      _ ≤ 2 ^ ((num.log2 : ℤ) - den.log2 + 1) * den := by gcongr; exact two_pow_log2_le hden
  unfold floorLog2
  dsimp only
  generalize (num.log2 : ℤ) - den.log2 = e at *
  have hcmp : num * 2 ^ (-e).toNat < den * 2 ^ e.toNat ↔ (num : ℚ) / den < 2 ^ e := by
    have hpos : (0 : ℚ) < (den * 2 ^ e.toNat : ℕ) := by positivity
    have hone := div_lt_one (a := ((num * 2 ^ (-e).toNat : ℕ) : ℚ)) hpos
    rw [scaled_div, div_lt_one (by positivity)] at hone
    rw [hone]
    exact Nat.cast_lt.symm
  split_ifs with h
  · exact ⟨hlow, by rw [sub_add_cancel]; exact hcmp.mp h⟩
  · exact ⟨not_lt.mp (mt hcmp.mpr h), hhigh⟩

end Binary64

/-! ## The number of a word -/

namespace Dyadic

open Binary64

/-- A word is its mantissa, with the exponent counted in front of it. -/
theorem ofWord_eq (w : ℕ) :
    w = ((ofWord w).exponent - minExponent).toNat * leadingBit + (ofWord w).mantissa := by
  have hmin : minExponent = -1074 := rfl
  rw [leadingBit_eq]
  rcases Nat.lt_or_ge w leadingBit with h | h
  · simp [ofWord_subnormal h]
  · rw [ofWord_normal h, leadingBit_eq] at *
    simp only
    omega

/-- A mantissa has 53 bits, and all of them are needed except at the least exponent. -/
theorem mantissa_ofWord (w : ℕ) : (ofWord w).mantissa < 2 ^ 53 ∧ minExponent ≤ (ofWord w).exponent ∧
    (minExponent < (ofWord w).exponent → 2 ^ 52 ≤ (ofWord w).mantissa) := by
  rcases Nat.lt_or_ge w leadingBit with h | h
  · rw [ofWord_subnormal h, leadingBit_eq] at *
    refine ⟨?_, le_rfl, fun h => absurd h (lt_irrefl _)⟩
    show w < 2 ^ 53
    omega
  · rw [ofWord_normal h, leadingBit_eq] at *
    refine ⟨?_, ?_, fun _ => ?_⟩ <;> simp only <;> omega

theorem exponent_ofWord_le {w : ℕ} (hw : w < infinityWord) : (ofWord w).exponent ≤ 971 := by
  obtain ⟨-, hexponent, hlead⟩ := mantissa_ofWord w
  have hword := ofWord_eq w
  have hmin : minExponent = -1074 := rfl
  rw [infinityWord_eq] at hw
  rw [leadingBit_eq] at hword
  by_contra hgt
  have hm := hlead (by omega)
  omega

end Dyadic

namespace Binary64

/-- Half-way between the number of a word and the next larger one. -/
def upperEnd (w : ℕ) : ℚ :=
  ((Dyadic.ofWord w).mantissa + 1 / 2) * 2 ^ (Dyadic.ofWord w).exponent

theorem upperEnd_pos (w : ℕ) : 0 < upperEnd w := by
  unfold upperEnd
  positivity

/-- Overflow begins at the half-way point after the last finite word. -/
theorem overflow_eq_upperEnd : overflow = upperEnd (infinityWord - 1) := by
  have hdyadic : Dyadic.ofWord (infinityWord - 1) = ⟨2 ^ 53 - 1, 971⟩ := by decide
  have hpow : (2 : ℚ) ^ (971 : ℤ) = 2 * 2 ^ 970 := by rw [← pow_succ']; rfl
  rw [upperEnd, hdyadic, overflow_eq, hpow]
  push_cast
  generalize (2 : ℚ) ^ 970 = p
  ring

theorem le_upperEnd (w : ℕ) : 2 ^ (-1075 : ℤ) ≤ upperEnd w := by
  obtain ⟨-, hexponent, -⟩ := Dyadic.mantissa_ofWord w
  have hmantissa : (0 : ℚ) ≤ (Dyadic.ofWord w).mantissa := Nat.cast_nonneg _
  calc (2 : ℚ) ^ (-1075 : ℤ) = 1 / 2 * 2 ^ minExponent := by
        rw [show (-1075 : ℤ) = -1 + minExponent from rfl, zpow_add₀ two_ne_zero]; norm_num
    _ ≤ ((Dyadic.ofWord w).mantissa + 1 / 2) * 2 ^ (Dyadic.ofWord w).exponent := by
        gcongr
        · linarith
        · norm_num

theorem upperEnd_le_overflow {w : ℕ} (hw : w < infinityWord) : upperEnd w ≤ overflow := by
  have hdyadic : Dyadic.ofWord (infinityWord - 1) = ⟨2 ^ 53 - 1, 971⟩ := by decide
  have hmantissa : ((Dyadic.ofWord w).mantissa : ℚ) ≤ (2 ^ 53 - 1 : ℕ) := by
    exact_mod_cast Nat.le_sub_one_of_lt (Dyadic.mantissa_ofWord w).1
  have hexponent := Dyadic.exponent_ofWord_le hw
  rw [overflow_eq_upperEnd, upperEnd, upperEnd, hdyadic]
  gcongr
  norm_num

/-! ## The nearest word -/

/-- The unit in the last place of the quotient is compared with that of `w`. Only if they are equal
    does it depend on the mantissas. -/
theorem nearestWord_le_iff {num den w : ℕ} (hden : 0 < den) (hw : w < infinityWord) :
    nearestWord num den ≤ w ↔
      (num : ℚ) / den < upperEnd w ∨ (num : ℚ) / den = upperEnd w ∧ w % 2 = 0 := by
  rcases Nat.eq_zero_or_pos num with rfl | hnum
  · simpa [nearestWord] using Or.inl (upperEnd_pos w)
  obtain ⟨hlow, hhigh⟩ := floorLog2_spec hnum hden
  obtain ⟨hmantissa, hexponent, hlead⟩ := Dyadic.mantissa_ofWord w
  have hword := Dyadic.ofWord_eq w
  have hmin : minExponent = -1074 := rfl
  unfold nearestWord upperEnd
  rw [if_neg hnum.ne', min_le_iff, or_iff_right (Nat.not_le.mpr hw)]
  generalize floorLog2 num den = e at *
  generalize (Dyadic.ofWord w).mantissa = m at *
  generalize (Dyadic.ofWord w).exponent = k at *
  set q := max (e - 52) minExponent with hq
  have hden' : 0 < den * 2 ^ q.toNat := Nat.mul_pos hden (Nat.two_pow_pos _)
  have hratio := scaled_div num den q
  generalize num * 2 ^ (-q).toNat = num' at *
  generalize den * 2 ^ q.toNat = den' at *
  generalize (num : ℚ) / den = x at *
  have hpos : (0 : ℚ) < 2 ^ q := by positivity
  rw [leadingBit_eq] at *
  rcases lt_trichotomy q k with h | h | h
  · -- `w` is in a higher binade, which the mantissa reaches by its carry at most
    have hr : roundHalfEven num' den' ≤ 2 ^ 53 := by
      apply roundHalfEven_le_of_div_le hden'
      rw [hratio, div_le_iff₀ hpos]
      have hle : (2 : ℚ) ^ (e + 1) ≤ 2 ^ (53 + q) := zpow_le_zpow_right₀ one_le_two (by omega)
      rw [zpow_add₀ two_ne_zero 53] at hle
      exact le_trans hhigh.le hle
    have hm : 2 ^ 52 ≤ m := hlead (by omega)
    have hsmall : x < (m + 1 / 2) * 2 ^ k := by
      have hle : (2 : ℚ) ^ (e + 1) ≤ 2 ^ (52 + k) := zpow_le_zpow_right₀ one_le_two (by omega)
      have hm' : (2 : ℚ) ^ (52 : ℤ) ≤ m := by exact_mod_cast hm
      calc x < 2 ^ (52 + k) := lt_of_lt_of_le hhigh hle
        _ = 2 ^ (52 : ℤ) * 2 ^ k := zpow_add₀ two_ne_zero 52 k
        _ ≤ (m + 1 / 2) * 2 ^ k := by gcongr; linarith
    exact ⟨fun _ => .inl hsmall, fun _ => by omega⟩
  · -- the same unit in the last place: the mantissas are compared
    have hle : (q - minExponent).toNat * 2 ^ 52 + roundHalfEven num' den' ≤ w ↔
        roundHalfEven num' den' ≤ m := by omega
    have hparity : w % 2 = 0 ↔ m % 2 = 0 := by omega
    rw [hle, roundHalfEven_le_iff hden', hratio, hparity, ← h, div_lt_iff₀ hpos, div_eq_iff hpos.ne']
  · -- `w` is in a lower binade, below the leading bit of the mantissa
    have hr : 2 ^ 52 ≤ roundHalfEven num' den' := by
      apply le_roundHalfEven_of_le_div hden'
      rw [hratio, le_div_iff₀ hpos]
      have hle : (2 : ℚ) ^ (52 + q) ≤ 2 ^ e := zpow_le_zpow_right₀ one_le_two (by omega)
      rw [zpow_add₀ two_ne_zero 52] at hle
      exact le_trans hle hlow
    have hlarge : (m + 1 / 2) * 2 ^ k < x := by
      have hle : (2 : ℚ) ^ (53 + k) ≤ 2 ^ e := zpow_le_zpow_right₀ one_le_two (by omega)
      have hm' : (m : ℚ) + 1 ≤ 2 ^ (53 : ℤ) := by exact_mod_cast hmantissa
      calc (m + 1 / 2) * (2 : ℚ) ^ k < 2 ^ (53 : ℤ) * 2 ^ k := by gcongr; linarith
        _ = 2 ^ (53 + k) := (zpow_add₀ two_ne_zero 53 k).symm
        _ ≤ x := le_trans hle hlow
    have hnot : ¬ (x < (m + 1 / 2) * 2 ^ k ∨ x = (m + 1 / 2) * 2 ^ k ∧ w % 2 = 0) := by
      rintro (h | ⟨h, -⟩) <;> linarith
    exact ⟨fun _ => by omega, fun h => absurd h hnot⟩

end Binary64

/-! ## Decimals -/

namespace Decimal

open Binary64

/-- Above the range that is computed, every decimal overflows. -/
theorem overflow_lt_value {d : Decimal} (hd : d.digits ≠ 0) (h : 400 < d.exponent) :
    overflow < d.value := by
  have hone : (1 : ℚ) ≤ d.digits := by exact_mod_cast Nat.one_le_iff_ne_zero.mpr hd
  have hpow : (10 : ℚ) ^ (400 : ℤ) ≤ 10 ^ d.exponent :=
    zpow_le_zpow_right₀ (by norm_num) h.le
  calc overflow ≤ 2 ^ (1024 : ℤ) := overflow_le_two_pow_1024
    _ < 2 ^ (3 * 400 : ℤ) := zpow_lt_zpow_right₀ one_lt_two (by norm_num)
    _ = 8 ^ (400 : ℤ) := by rw [zpow_mul]; norm_num
    _ ≤ 10 ^ (400 : ℤ) := zpow_le_zpow_left₀ (by norm_num) (by norm_num) (by norm_num)
    _ ≤ 10 ^ d.exponent := hpow
    _ ≤ d.value := le_mul_of_one_le_left (by positivity) hone

/-- Below the range that is computed, every decimal is nearest to zero. -/
theorem value_lt {d : Decimal} (h : d.exponent < -(400 + (d.digits.log2 : ℤ))) :
    d.value < 2 ^ (-1075 : ℤ) := by
  have hdigits := lt_two_pow_log2_add_one d.digits
  have hten : (2 : ℚ) ^ ((d.digits.log2 : ℤ) + 1) ≤ 10 ^ ((d.digits.log2 : ℤ) + 1) :=
    zpow_le_zpow_left₀ (by omega) (by norm_num) (by norm_num)
  calc d.value < 10 ^ ((d.digits.log2 : ℤ) + 1) * 10 ^ d.exponent := by
        unfold value
        gcongr
        exact lt_of_lt_of_le hdigits hten
    _ = 10 ^ ((d.digits.log2 : ℤ) + 1 + d.exponent) := by
        rw [← zpow_add₀ (by norm_num : (10 : ℚ) ≠ 0)]
    _ ≤ 10 ^ (-400 : ℤ) := zpow_le_zpow_right₀ (by norm_num) (by omega)
    _ ≤ 8 ^ (-400 : ℤ) := by
        rw [zpow_neg, zpow_neg]
        exact inv_anti₀ (by positivity) (zpow_le_zpow_left₀ (by norm_num) (by norm_num) (by norm_num))
    _ = 2 ^ (3 * (-400) : ℤ) := by rw [zpow_mul]; norm_num
    _ ≤ 2 ^ (-1075 : ℤ) := zpow_le_zpow_right₀ one_le_two (by norm_num)

/-- A decimal rounds to `w` or a smaller word exactly below the half-way point after `w`. -/
theorem nearestWord_le_iff (d : Decimal) {w : ℕ} (hw : w < infinityWord) :
    d.nearestWord ≤ w ↔ d.value < upperEnd w ∨ d.value = upperEnd w ∧ w % 2 = 0 := by
  unfold nearestWord
  split_ifs with hzero hhigh hlow
  · have hvalue : d.value = 0 := by simp [value, hzero]
    rw [hvalue]
    exact iff_of_true (Nat.zero_le w) (.inl (upperEnd_pos w))
  · have hlt : upperEnd w < d.value :=
      lt_of_le_of_lt (upperEnd_le_overflow hw) (overflow_lt_value hzero hhigh)
    refine iff_of_false (Nat.not_le.mpr hw) ?_
    rintro (h | ⟨h, -⟩) <;> linarith
  · exact iff_of_true (Nat.zero_le w) (.inl (lt_of_lt_of_le (value_lt hlow) (le_upperEnd w)))
  · have hvalue : d.value =
        ((d.digits * 10 ^ d.exponent.toNat : ℕ) : ℚ) / (10 ^ (-d.exponent).toNat : ℕ) := by
      rw [value, zpow_eq_toNat_div 10 d.exponent]
      push_cast
      rw [mul_div_assoc]
    rw [hvalue]
    exact Binary64.nearestWord_le_iff (Nat.pow_pos (by decide)) hw

theorem nearestWord_lt_infinityWord_iff (d : Decimal) :
    d.nearestWord < infinityWord ↔ d.value < overflow := by
  have hlast : infinityWord - 1 < infinityWord := by decide
  have hodd : ¬ (infinityWord - 1) % 2 = 0 := by decide
  rw [← Nat.le_sub_one_iff_lt (by decide), nearestWord_le_iff d hlast, ← overflow_eq_upperEnd]
  exact or_iff_left fun h => hodd h.2

theorem nearestWord_le_infinityWord (d : Decimal) : d.nearestWord ≤ infinityWord := by
  unfold nearestWord Binary64.nearestWord
  split_ifs
  · exact Nat.zero_le _
  · exact le_rfl
  · exact Nat.zero_le _
  · exact Nat.zero_le _
  · exact Nat.min_le_left _ _

end Decimal

/-- A decimal is read as a finite number exactly if it does not overflow. -/
theorem Decimal.isFinite_toFloat_iff (d : Decimal) :
    d.toFloat.isFinite = true ↔ d.value < Binary64.overflow := by
  rw [Decimal.toFloat, Binary64.isFinite_ofBits_iff d.nearestWord_le_infinityWord,
    d.nearestWord_lt_infinityWord_iff]

end PostfixCalc
