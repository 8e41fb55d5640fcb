import PostfixCalc.Proofs.Lexing
import PostfixCalc.Proofs.Shortest

/-!
# Numbers read back

A number is written with the digits of its shortest decimal. What is written is
a well-formed numeral of the same value, and rounding sees only the value, so
reading gives the word again. The sign is written apart from the digits, and a
minus negates what is read: also the zero of sign minus comes back. In the
logic two floats are equal exactly if their bits are, up to the payload of what
is no number.

Results:
* `Decimal.wellFormed_positional`, `Decimal.value_positional`: positional
  notation is a numeral of the same value.
* `Decimal.nearestWord_eq_of_value_eq`: rounding depends on the value only.
* `Scalar.exists_numeral_magnitudeText`: a finite magnitude is written as a
  numeral that rounds to it.
* `Scalar.readChars?_chars`: each number is read back from its text.
* `Scalar.isBlank_of_mem_chars`, `Scalar.chars_ne_nil`: its text is one word.
-/

namespace PostfixCalc

namespace Decimal

/-! ## Positional notation -/

theorem isDigit_of_mem_toDigits {n : ℕ} : ∀ c ∈ Nat.toDigits 10 n, c.isDigit = true :=
  fun _ hc => Nat.isDigit_of_mem_toDigits (by decide) (by decide) hc

theorem isDigit_of_mem_replicate {n : ℕ} : ∀ c ∈ List.replicate n '0', c.isDigit = true := by
  intro c hc
  rw [List.eq_of_mem_replicate hc]
  decide

theorem isDigit_of_mem_padLeft {size n : ℕ} :
    ∀ c ∈ padLeft size (Nat.toDigits 10 n), c.isDigit = true := by
  intro c hc
  rcases List.mem_append.mp hc with hc | hc
  · exact isDigit_of_mem_replicate c hc
  · exact isDigit_of_mem_toDigits c hc

variable {d d' : Decimal}

theorem positional_of_le (h : 0 ≤ d.exponent) : d.positional =
    ⟨Nat.toDigits 10 d.digits ++ List.replicate d.exponent.toNat '0', none, none⟩ := by
  simp [positional, h]

theorem positional_of_lt (h : d.exponent < 0) : d.positional =
    let padded := padLeft ((-d.exponent).toNat + 1) (Nat.toDigits 10 d.digits)
    ⟨padded.take (padded.length - (-d.exponent).toNat),
      some (padded.drop (padded.length - (-d.exponent).toNat)), none⟩ := by
  have h' : ¬ 0 ≤ d.exponent := by omega
  simp [positional, h']

/-- A decimal is written with at least one digit before its point. -/
theorem wellFormed_positional (d : Decimal) : d.positional.WellFormed := by
  rcases le_or_gt 0 d.exponent with h | h
  · rw [positional_of_le h]
    refine ⟨?_, by simp, by simp, by simp⟩
    intro c hc
    rcases List.mem_append.mp hc with hc | hc
    · exact isDigit_of_mem_toDigits c hc
    · exact isDigit_of_mem_replicate c hc
  · have hpad := le_length_padLeft ((-d.exponent).toNat + 1) (Nat.toDigits 10 d.digits)
    have hdigit := @isDigit_of_mem_padLeft ((-d.exponent).toNat + 1) d.digits
    rw [positional_of_lt h]
    generalize padLeft ((-d.exponent).toNat + 1) (Nat.toDigits 10 d.digits) = padded at *
    refine ⟨fun c hc => hdigit c (List.mem_of_mem_take hc), ?_, ?_, by simp⟩
    · rintro ds ⟨⟩ c hc
      exact hdigit c (List.mem_of_mem_drop hc)
    · show padded.take _ ++ padded.drop _ ≠ []
      rw [List.take_append_drop]
      rintro rfl
      simp at hpad

/-- The numeral written names the decimal, up to zeros at its end. -/
theorem value_positional (d : Decimal) : d.positional.decimal.value = d.value := by
  rcases le_or_gt 0 d.exponent with h | h
  · have hdecimal : d.positional.decimal = ⟨10 ^ d.exponent.toNat * d.digits, 0⟩ := by
      rw [positional_of_le h]
      simp [Numeral.decimal, Numeral.significand, Nat.ofDigitChars_append,
        Nat.ofDigitChars_replicate_zero, Nat.ofDigitChars_toDigits]
    have hpow : (10 : ℚ) ^ d.exponent.toNat = 10 ^ d.exponent := by
      rw [← zpow_natCast, Int.toNat_of_nonneg h]
    rw [hdecimal, value, value]
    push_cast
    rw [hpow, mul_one, mul_comm]
  · have hsignificand : Nat.ofDigitChars 10 d.positional.significand 0 = d.digits := by
      rw [significand_positional h, padLeft, Nat.ofDigitChars_append,
        Nat.ofDigitChars_replicate_zero, Nat.mul_zero, Nat.ofDigitChars_toDigits (by decide) le_rfl]
    have hplaces : (d.positional.fraction.getD []).length = (-d.exponent).toNat := by
      have hpad := le_length_padLeft ((-d.exponent).toNat + 1) (Nat.toDigits 10 d.digits)
      rw [positional_of_lt h]
      simp only [Option.getD_some, List.length_drop]
      omega
    have hexponent : d.positional.exponent = none := by rw [positional_of_lt h]
    have hdecimal : d.positional.decimal = d := by
      rw [Numeral.decimal, hsignificand, hplaces, hexponent]
      show Decimal.mk d.digits (0 - ((-d.exponent).toNat : ℤ)) = d
      rw [Int.toNat_of_nonneg (by omega), zero_sub, neg_neg]
    rw [hdecimal]

/-- Rounding sees the value of a decimal only. -/
theorem nearestWord_eq_of_value_eq (h : d.value = d'.value) : d.nearestWord = d'.nearestWord := by
  have hle := d.nearestWord_le_infinityWord
  have hle' := d'.nearestWord_le_infinityWord
  -- two words with the same finite upper bounds are equal
  have hiff : ∀ w < Binary64.infinityWord, d.nearestWord ≤ w ↔ d'.nearestWord ≤ w := by
    intro w hw
    rw [nearestWord_le_iff d hw, nearestWord_le_iff d' hw, h]
  rcases Nat.lt_trichotomy d.nearestWord d'.nearestWord with hlt | heq | hlt
  · have hd := (hiff _ (by omega)).mp le_rfl
    omega
  · exact heq
  · have hd := (hiff _ (by omega)).mpr le_rfl
    omega

end Decimal

namespace Scalar

open Binary64

variable {w : ℕ} {x : Float}

/-! ## Magnitudes -/

/-- A finite magnitude is written as a numeral that rounds to it. -/
theorem exists_numeral_magnitudeText (hw : w < infinityWord) :
    ∃ n : Numeral, n.WellFormed ∧ magnitudeText w = n.text ∧ n.decimal.nearestWord = w := by
  by_cases hzero : w = 0
  · subst hzero
    exact ⟨⟨['0'], none, none⟩, ⟨by simp, by simp, by simp, by simp⟩, rfl, rfl⟩
  · have hpos : 0 < w := Nat.pos_of_ne_zero hzero
    refine ⟨(Decimal.shortest w).positional, Decimal.wellFormed_positional _, ?_, ?_⟩
    · rw [magnitudeText, if_neg hzero, if_neg hw.ne]
    · rw [Decimal.nearestWord_eq_of_value_eq (Decimal.value_positional _),
        Decimal.nearestWord_shortest hpos hw]

theorem readChars?_magnitudeText (hw : w ≤ infinityWord) :
    readChars? (magnitudeText w) = some (Float.ofBits (UInt64.ofNat w)) ∧
      readChars? ('-' :: magnitudeText w) = some (-Float.ofBits (UInt64.ofNat w)) := by
  rcases hw.lt_or_eq with hlt | rfl
  · obtain ⟨n, hn, htext, hword⟩ := exists_numeral_magnitudeText hlt
    have hvalue : n.decimal.toFloat = Float.ofBits (UInt64.ofNat w) := by
      rw [Decimal.toFloat, hword]
    rw [htext, ← hvalue]
    exact readChars?_text hn
  · exact ⟨rfl, rfl⟩

theorem isBlank_of_mem_magnitudeText (hw : w ≤ infinityWord) :
    ∀ c ∈ magnitudeText w, Text.isBlank c = false := by
  rcases hw.lt_or_eq with hlt | rfl
  · obtain ⟨n, hn, htext, -⟩ := exists_numeral_magnitudeText hlt
    rw [htext]
    exact Token.isBlank_of_mem_text hn
  · rw [magnitudeText, if_neg (by decide), if_pos rfl]
    simp [Text.isBlank]

/-! ## All numbers -/

/-- What is no number is one thing only. -/
theorem eq_notANumber (h : x.isNaN = true) : x = notANumber := by
  have hnan : notANumber = Float.nan := rfl
  rw [Float.isNaN_eq_decide_eq_nan, decide_eq_true_eq] at h
  rw [h, hnan]

/-- How a number is shown, by its sign. -/
theorem chars_of_isNaN (h : x.isNaN = false) :
    chars x = if isNegative x then '-' :: magnitudeText (word x) else magnitudeText (word x) := by
  rw [chars, h, if_neg Bool.false_ne_true]

/-- **The text of a number is read back as the number**, bit for bit. -/
theorem readChars?_chars (x : Float) : readChars? (chars x) = some x := by
  cases hnan : x.isNaN with
  | true =>
    rw [chars, if_pos hnan, eq_notANumber hnan]
    rfl
  | false =>
    obtain ⟨hplain, hminus⟩ := readChars?_magnitudeText ((isNaN_eq_false_iff x).mp hnan)
    have hx := eq_ofBits_word hnan
    rw [chars_of_isNaN hnan]
    split_ifs at hx ⊢ with hsign
    · rw [hminus, ← hx]
    · rw [hplain, ← hx]

theorem isBlank_of_mem_chars (x : Float) : ∀ c ∈ chars x, Text.isBlank c = false := by
  cases hnan : x.isNaN with
  | true =>
    rw [chars, if_pos hnan]
    simp [Text.isBlank]
  | false =>
    have hmagnitude := isBlank_of_mem_magnitudeText ((isNaN_eq_false_iff x).mp hnan)
    rw [chars_of_isNaN hnan]
    split_ifs
    · intro c hc
      rcases List.mem_cons.mp hc with rfl | hc
      · decide
      · exact hmagnitude c hc
    · exact hmagnitude

theorem chars_ne_nil (x : Float) : chars x ≠ [] := by
  intro hnil
  have hread := readChars?_chars x
  rw [hnil] at hread
  cases hread

end Scalar

end PostfixCalc
