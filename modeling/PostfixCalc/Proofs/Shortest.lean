import PostfixCalc.Proofs.Rounding

/-!
# The shortest decimal reads back

The interval of a word reaches from the half-way point before it to the one
after it, and its ends count exactly if the word is even, as ties go to even
words. So it holds just the decimals that round to the word. The search for the
shortest of them goes down the powers of ten until one has a multiple in the
interval. It cannot fail: the twentieth power is less than half a unit in the
last place, so that the multiple next above the center is in the interval.

Results:
* `Interval.contains_iff`: the test in natural numbers, in exact numbers.
* `Interval.contains_ofWord_iff`: the interval of a word holds exactly the
  decimals that round to it.
* `Decimal.ten_zpow_lt`: how fine the powers of ten get that are tried.
* `Decimal.nearestWord_shortest`: the shortest decimal of a word rounds to it.
-/

namespace PostfixCalc

namespace Interval

/-! ## Exact comparisons -/

variable (i : Interval) {p : ℤ}

/-- The common denominator of the ends and the multiples of `10 ^ p`. -/
def scale (p : ℤ) : ℚ := 10 ^ (-p).toNat * 2 ^ (-i.unit).toNat

theorem scale_pos (p : ℤ) : 0 < i.scale p := by
  unfold scale
  positivity

theorem cast_mul_decimalScale (c : ℕ) (p : ℤ) :
    ((c * i.decimalScale p : ℕ) : ℚ) = c * 10 ^ p * i.scale p := by
  show ((c * (10 ^ p.toNat * 2 ^ (-i.unit).toNat) : ℕ) : ℚ) = _
  rw [scale, Binary64.zpow_eq_toNat_div 10 p]
  push_cast
  field_simp

theorem cast_mul_binaryScale (y : ℕ) (p : ℤ) :
    ((y * i.binaryScale p : ℕ) : ℚ) = y * 2 ^ i.unit * i.scale p := by
  show ((y * (2 ^ i.unit.toNat * 10 ^ (-p).toNat) : ℕ) : ℚ) = _
  rw [scale, Binary64.zpow_eq_toNat_div 2 i.unit]
  push_cast
  field_simp

/-- The comparisons in natural numbers are those of the exact values. -/
theorem mul_binaryScale_lt_iff {y c : ℕ} :
    y * i.binaryScale p < c * i.decimalScale p ↔ (y : ℚ) * 2 ^ i.unit < c * 10 ^ p := by
  rw [← Nat.cast_lt (α := ℚ), cast_mul_decimalScale, cast_mul_binaryScale,
    mul_lt_mul_iff_of_pos_right (i.scale_pos p)]

theorem mul_decimalScale_lt_iff {y c : ℕ} :
    c * i.decimalScale p < y * i.binaryScale p ↔ (c : ℚ) * 10 ^ p < y * 2 ^ i.unit := by
  rw [← Nat.cast_lt (α := ℚ), cast_mul_decimalScale, cast_mul_binaryScale,
    mul_lt_mul_iff_of_pos_right (i.scale_pos p)]

/-- Membership in exact numbers. -/
theorem contains_iff {c : ℕ} : i.contains c p = true ↔
    if i.closed then (i.low : ℚ) * 2 ^ i.unit ≤ c * 10 ^ p ∧ (c : ℚ) * 10 ^ p ≤ i.high * 2 ^ i.unit
    else (i.low : ℚ) * 2 ^ i.unit < c * 10 ^ p ∧ (c : ℚ) * 10 ^ p < i.high * 2 ^ i.unit := by
  unfold contains
  dsimp only
  split_ifs
  · rw [Bool.and_eq_true, decide_eq_true_eq, decide_eq_true_eq, ← Nat.not_lt, ← Nat.not_lt,
      mul_decimalScale_lt_iff, mul_binaryScale_lt_iff, not_lt, not_lt]
  · rw [Bool.and_eq_true, decide_eq_true_eq, decide_eq_true_eq, mul_binaryScale_lt_iff,
      mul_decimalScale_lt_iff]

/-- Between the ends it does not matter whether they count. -/
theorem contains_of_lt {c : ℕ} (hlow : (i.low : ℚ) * 2 ^ i.unit < c * 10 ^ p)
    (hhigh : (c : ℚ) * 10 ^ p < i.high * 2 ^ i.unit) : i.contains c p = true := by
  rw [contains_iff]
  split_ifs
  · exact ⟨hlow.le, hhigh.le⟩
  · exact ⟨hlow, hhigh⟩

/-! ## What is picked -/

/-- The multiple next above the center is picked at the latest, if it is in the interval. -/
theorem pick_ne_none (hlow : i.low < i.center)
    (hp : (i.center : ℚ) * 2 ^ i.unit + 10 ^ p < i.high * 2 ^ i.unit) : i.pick p ≠ none := by
  intro hnone
  have hmiss := (pick_eq_none_iff.mp hnone).2
  have hpos : 0 < i.decimalScale p := Nat.mul_pos (Nat.pow_pos (by decide)) (Nat.pow_pos (by decide))
  have hdiv := Nat.div_add_mod (i.center * i.binaryScale p) (i.decimalScale p)
  have hmod := Nat.mod_lt (i.center * i.binaryScale p) hpos
  set c := i.floorMultiple p with hc
  -- the multiple below is not above the center, and the next one is above it
  have hbelow : ¬ i.center * i.binaryScale p < c * i.decimalScale p := by
    rw [hc, floorMultiple, Nat.mul_comm (_ / _)]
    omega
  have habove : i.center * i.binaryScale p < (c + 1) * i.decimalScale p := by
    rw [hc, floorMultiple, Nat.add_mul, Nat.mul_comm (_ / _)]
    omega
  rw [mul_binaryScale_lt_iff, not_lt] at hbelow
  rw [mul_binaryScale_lt_iff] at habove
  have hlow' : (i.low : ℚ) * 2 ^ i.unit < i.center * 2 ^ i.unit := by
    have hcast : (i.low : ℚ) < i.center := by exact_mod_cast hlow
    gcongr
  have hnext : ((c + 1 : ℕ) : ℚ) * 10 ^ p = c * 10 ^ p + 10 ^ p := by push_cast; ring
  have hcontains : i.contains (c + 1) p = true := by
    apply i.contains_of_lt (lt_trans hlow' habove)
    rw [hnext]
    linarith
  rw [hcontains] at hmiss
  cases hmiss

/-! ## The interval of a word -/

open Binary64

variable {w : ℕ}

theorem unit_ofWord (w : ℕ) : (ofWord w).unit = (Dyadic.ofWord w).exponent - 2 := rfl

theorem two_zpow_unit (w : ℕ) :
    (2 : ℚ) ^ (ofWord w).unit = 2 ^ (Dyadic.ofWord w).exponent / 4 := by
  rw [unit_ofWord, zpow_sub₀ two_ne_zero]
  norm_num

/-- The interval is closed exactly if ties go to its word. -/
theorem closed_ofWord (w : ℕ) : (ofWord w).closed = true ↔ w % 2 = 0 := by
  have hword := Dyadic.ofWord_eq w
  rw [leadingBit_eq] at hword
  show ((Dyadic.ofWord w).mantissa % 2 == 0) = true ↔ _
  rw [beq_iff_eq]
  omega

/-- The upper end is the half-way point after the word. -/
theorem high_ofWord (w : ℕ) : ((ofWord w).high : ℚ) * 2 ^ (ofWord w).unit = upperEnd w := by
  rw [two_zpow_unit, upperEnd]
  show ((4 * (Dyadic.ofWord w).mantissa + 2 : ℕ) : ℚ) * _ = _
  push_cast
  ring

/-- The word before a carry has the largest mantissa and the exponent below, any other one the same
    exponent. -/
theorem ofWord_pred (hw : 0 < w) :
    ((Dyadic.ofWord w).mantissa = leadingBit ∧ minExponent < (Dyadic.ofWord w).exponent ∧
      Dyadic.ofWord (w - 1) = ⟨2 * leadingBit - 1, (Dyadic.ofWord w).exponent - 1⟩) ∨
    (¬ ((Dyadic.ofWord w).mantissa = leadingBit ∧ minExponent < (Dyadic.ofWord w).exponent) ∧
      0 < (Dyadic.ofWord w).mantissa ∧
      Dyadic.ofWord (w - 1) = ⟨(Dyadic.ofWord w).mantissa - 1, (Dyadic.ofWord w).exponent⟩) := by
  have hmin : minExponent = -1074 := rfl
  rcases Nat.lt_or_ge w leadingBit with hsub | hnormal
  · right
    rw [Dyadic.ofWord_subnormal hsub, Dyadic.ofWord_subnormal (by omega)]
    exact ⟨fun h => lt_irrefl _ h.2, hw, rfl⟩
  · rw [Dyadic.ofWord_normal hnormal]
    rcases Nat.lt_or_ge (w - 1) leadingBit with hfirst | hnormal'
    · right
      rw [Dyadic.ofWord_subnormal hfirst]
      rw [leadingBit_eq] at *
      simp only [Dyadic.mk.injEq]
      omega
    · rw [Dyadic.ofWord_normal hnormal']
      rw [leadingBit_eq] at *
      simp only [Dyadic.mk.injEq]
      omega

theorem low_eq (w : ℕ) : (ofWord w).low =
    if (Dyadic.ofWord w).mantissa = leadingBit ∧ minExponent < (Dyadic.ofWord w).exponent then
      4 * (Dyadic.ofWord w).mantissa - 1
    else 4 * (Dyadic.ofWord w).mantissa - 2 := rfl

/-- The lower end is the half-way point after the word before. -/
theorem low_ofWord (hw : 0 < w) :
    ((ofWord w).low : ℚ) * 2 ^ (ofWord w).unit = upperEnd (w - 1) := by
  rw [two_zpow_unit, upperEnd, low_eq]
  rcases ofWord_pred hw with ⟨hmantissa, hexponent, hpred⟩ | ⟨hcarry, hpos, hpred⟩
  · rw [if_pos ⟨hmantissa, hexponent⟩, hpred, hmantissa, leadingBit_eq, zpow_sub₀ two_ne_zero]
    push_cast
    ring
  · rw [if_neg hcarry, hpred]
    generalize (Dyadic.ofWord w).mantissa = m at *
    obtain ⟨n, rfl⟩ : ∃ n, m = n + 1 := ⟨m - 1, by omega⟩
    have hcast : 4 * (n + 1) - 2 = 4 * n + 2 := by omega
    rw [hcast, Nat.add_sub_cancel]
    push_cast
    ring

theorem low_lt_center (hw : 0 < w) : (ofWord w).low < (ofWord w).center := by
  have hpos : 0 < (Dyadic.ofWord w).mantissa := by
    rcases ofWord_pred hw with ⟨hmantissa, -⟩ | ⟨-, hpos, -⟩
    · rw [hmantissa, leadingBit_eq]
      norm_num
    · exact hpos
  rw [low_eq]
  show _ < 4 * (Dyadic.ofWord w).mantissa
  split_ifs <;> omega

/-- **The interval of a word** holds exactly the decimals to which it is nearest. -/
theorem contains_ofWord_iff (hw : 0 < w) (hfinite : w < infinityWord) {c : ℕ} {p : ℤ} :
    (ofWord w).contains c p = true ↔ (Decimal.mk c p).nearestWord = w := by
  have hle := Decimal.nearestWord_le_iff ⟨c, p⟩ hfinite
  have hpred := Decimal.nearestWord_le_iff ⟨c, p⟩ (w := w - 1) (by omega)
  have heq : (Decimal.mk c p).nearestWord = w ↔
      (Decimal.mk c p).nearestWord ≤ w ∧ ¬ (Decimal.mk c p).nearestWord ≤ w - 1 := by omega
  have hvalue : (Decimal.mk c p).value = c * 10 ^ p := rfl
  rw [heq, hle, hpred, contains_iff, low_ofWord hw, high_ofWord, hvalue]
  generalize (c : ℚ) * 10 ^ p = x
  split_ifs with hclosed
  · rw [closed_ofWord] at hclosed
    have hodd : ¬ (w - 1) % 2 = 0 := by omega
    simp only [hclosed, hodd, and_true, and_false, or_false, not_lt, ← le_iff_lt_or_eq]
    exact and_comm
  · rw [closed_ofWord] at hclosed
    have heven : (w - 1) % 2 = 0 := by omega
    simp only [hclosed, heven, and_true, and_false, or_false, ← le_iff_lt_or_eq, not_le]
    exact and_comm

end Interval

/-! ## The search -/

namespace Decimal

open Binary64

/-- The twentieth power of ten is less than half a unit in the last place. The factor of the
    logarithm is good enough for both signs, as `10 ^ 3 ≤ 2 ^ 10` and `2 ^ 83 ≤ 10 ^ 25`. -/
theorem ten_zpow_lt {e : ℤ} (hmin : minExponent ≤ e) (hmax : e ≤ 971) :
    (10 : ℚ) ^ (topPower e - 19) < 2 ^ (e - 1) := by
  have hconst : minExponent = -1074 := rfl
  unfold topPower
  generalize hp : (e + 53) * 30103 / 100000 + 1 - 19 = p
  rcases le_total 0 p with hsign | hsign
  · refine lt_of_pow_lt_pow_left₀ 3 (by positivity) ?_
    calc ((10 : ℚ) ^ p) ^ 3 = (10 ^ 3) ^ p := by rw [← zpow_natCast, ← zpow_natCast, zpow_comm]
      _ ≤ (2 ^ 10) ^ p := zpow_le_zpow_left₀ hsign (by norm_num) (by norm_num)
      _ = 2 ^ (10 * p) := by rw [zpow_mul]; norm_cast
      _ < 2 ^ ((e - 1) * 3) := zpow_lt_zpow_right₀ one_lt_two (by omega)
      _ = (2 ^ (e - 1)) ^ 3 := by rw [zpow_mul]; norm_cast
  · refine lt_of_pow_lt_pow_left₀ 25 (by positivity) ?_
    calc ((10 : ℚ) ^ p) ^ 25 = (10 ^ 25) ^ p := by rw [← zpow_natCast, ← zpow_natCast, zpow_comm]
      _ ≤ (2 ^ 83) ^ p := by
        rw [← neg_neg p, zpow_neg _ (-p), zpow_neg _ (-p)]
        exact inv_anti₀ (by positivity)
          (zpow_le_zpow_left₀ (by omega) (by norm_num) (by norm_num))
      _ = 2 ^ (83 * p) := by rw [zpow_mul]; norm_cast
      _ < 2 ^ ((e - 1) * 25) := zpow_lt_zpow_right₀ one_lt_two (by omega)
      _ = (2 ^ (e - 1)) ^ 25 := by rw [zpow_mul]; norm_cast

/-- Some power of ten that is tried has a multiple in the interval. -/
theorem exists_pick_ofWord {w : ℕ} (hw : 0 < w) (hfinite : w < infinityWord) :
    ∃ k ∈ List.range 20,
      (Interval.ofWord w).pick (topPower (Dyadic.ofWord w).exponent - (k : ℕ)) ≠ none := by
  obtain ⟨-, hmin, -⟩ := Dyadic.mantissa_ofWord w
  have hpower := ten_zpow_lt hmin (Dyadic.exponent_ofWord_le hfinite)
  have hhalf : (2 : ℚ) ^ ((Dyadic.ofWord w).exponent - 1) = 2 * 2 ^ (Interval.ofWord w).unit := by
    rw [Interval.two_zpow_unit, zpow_sub₀ two_ne_zero]
    ring
  have hhigh : (((Interval.ofWord w).high : ℕ) : ℚ) = (Interval.ofWord w).center + 2 := by
    exact_mod_cast rfl
  refine ⟨19, by simp, Interval.pick_ne_none _ (Interval.low_lt_center hw) ?_⟩
  rw [hhigh, add_mul, ← hhalf]
  exact add_lt_add_right hpower _

/-- **The shortest decimal of a word reads back to the word.** -/
theorem nearestWord_shortest {w : ℕ} (hw : 0 < w) (hfinite : w < infinityWord) :
    (shortest w).nearestWord = w := by
  unfold shortest
  dsimp only
  cases hfound : (((List.range 20).map fun (k : ℕ) =>
      topPower (Dyadic.ofWord w).exponent - (k : ℤ)).findSome? fun p =>
        ((Interval.ofWord w).pick p).map fun c => Decimal.mk c p) with
  | none =>
    obtain ⟨k, hk, hpick⟩ := exists_pick_ofWord hw hfinite
    rw [List.findSome?_eq_none_iff] at hfound
    have hnone := hfound _ (List.mem_map_of_mem hk)
    exact absurd (Option.map_eq_none_iff.mp hnone) hpick
  | some d =>
    obtain ⟨p, -, hp⟩ := List.exists_of_findSome?_eq_some hfound
    obtain ⟨c, hpick, rfl⟩ := Option.map_eq_some_iff.mp hp
    exact (Interval.contains_ofWord_iff hw hfinite).mp (Interval.contains_of_pick_eq_some hpick)

end Decimal

end PostfixCalc
