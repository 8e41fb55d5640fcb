import Mathlib.Tactic
import PostfixCalc.Text.Blank
import PostfixCalc.Text.Lowercase

/-!
# Lower case is settled

A text in lower case has no character left that has a lower case of its own, so
that putting it in lower case again changes nothing. This is a property of the
table: no code point that it gives is one that it changes. None is white space
either, so that the lower case of a trimmed text is trimmed. To compare all code
points with all others, a set of them is taken as the bits of one number.

Two mappings are not in the table. The capital sigma becomes one of two small
ones, whatever is around it, and U+0130 becomes two characters, none of which
changes any more.

Results:
* `testBit_mask`: the bits of a set of code points.
* `covers_eq_false_of_mem_lowered`: the table gives no code point that it
  changes, and no white space.
* `settled_of_mem_lowerAt`: what becomes of a character does not change again.
* `lower_lower`: lower case is idempotent.
* `trim_lower_trim`: the lower case of a trimmed text is trimmed.
-/

namespace PostfixCalc.Text

/-! ## The table -/

/-- The code points of a range. -/
def CaseRange.codes (r : CaseRange) : List ℕ :=
  (List.range ((r.last - r.first) / r.step + 1)).map (r.first + r.step * ·)

theorem CaseRange.covers_iff {r : CaseRange} {n : ℕ} :
    r.covers n = true ↔ r.first ≤ n ∧ n ≤ r.last ∧ (n - r.first) % r.step = 0 := by
  simp [covers, and_assoc]

theorem CaseRange.mem_codes_of_covers {r : CaseRange} {n : ℕ} (h : r.covers n = true) :
    n ∈ r.codes := by
  obtain ⟨hfirst, hlast, hmod⟩ := covers_iff.mp h
  have hmul : r.step * ((n - r.first) / r.step) = n - r.first :=
    Nat.mul_div_cancel' (Nat.dvd_of_mod_eq_zero hmod)
  have hle : (n - r.first) / r.step ≤ (r.last - r.first) / r.step :=
    Nat.div_le_div_right (by omega)
  apply List.mem_map.mpr
  refine ⟨(n - r.first) / r.step, List.mem_range.mpr (by omega), ?_⟩
  rw [hmul]
  omega

/-- White space, as ranges. -/
def blankRanges : List CaseRange :=
  [⟨0x0009, 0x000D, 1, 0⟩, ⟨0x0020, 0x0020, 1, 0⟩, ⟨0x0085, 0x0085, 1, 0⟩,
    ⟨0x00A0, 0x00A0, 1, 0⟩, ⟨0x1680, 0x1680, 1, 0⟩, ⟨0x2000, 0x200A, 1, 0⟩,
    ⟨0x2028, 0x2029, 1, 0⟩, ⟨0x202F, 0x202F, 1, 0⟩, ⟨0x205F, 0x205F, 1, 0⟩,
    ⟨0x3000, 0x3000, 1, 0⟩]

theorem exists_covers_of_isBlank {c : Char} (h : isBlank c = true) :
    ∃ q ∈ blankRanges, q.covers c.toNat = true := by
  simp only [isBlank, Bool.or_eq_true, Bool.and_eq_true, decide_eq_true_eq, beq_iff_eq] at h
  simp only [blankRanges, List.mem_cons, List.not_mem_nil, or_false, exists_eq_or_imp,
    exists_eq_left, CaseRange.covers_iff, Nat.mod_one, and_true]
  omega

/-- U+0130 alone. -/
def dottedCapitalI : CaseRange := ⟨0x0130, 0x0130, 1, 0⟩

/-- What the lower case of a character must not be: white space, or a character
    that lower case changes. The capital sigma is in the table. -/
def unsettled : List CaseRange := dottedCapitalI :: blankRanges ++ lowerRanges

/-- The code points that the table gives. -/
def lowered : List ℕ :=
  lowerRanges.flatMap fun r => r.codes.map fun n : ℕ => ((n : ℤ) + r.shift).toNat

/-- A set of numbers as a number with these bits. -/
def mask (codes : List ℕ) : ℕ := codes.foldr (fun n m => 1 <<< n ||| m) 0

theorem testBit_mask {codes : List ℕ} {n : ℕ} : (mask codes).testBit n = true ↔ n ∈ codes := by
  induction codes with
  | nil => simp [mask]
  | cons m codes ih =>
    show (1 <<< m ||| mask codes).testBit n = true ↔ _
    rw [Nat.testBit_or, Bool.or_eq_true, ih, Nat.one_shiftLeft, Nat.testBit_two_pow,
      decide_eq_true_eq, List.mem_cons, eq_comm]

/-- The table gives no code point that it changes, and no white space. -/
theorem covers_eq_false_of_mem_lowered {n : ℕ} (h : n ∈ lowered) :
    ∀ q ∈ unsettled, q.covers n = false := by
  -- one evaluation compares all code points with all others
  have hdisjoint : mask lowered &&& mask (unsettled.flatMap CaseRange.codes) = 0 := by
    decide +kernel
  intro q hq
  by_contra hcovers
  have hn : n ∈ unsettled.flatMap CaseRange.codes :=
    List.mem_flatMap.mpr ⟨q, hq, CaseRange.mem_codes_of_covers (by simpa using hcovers)⟩
  have hbit : (mask lowered &&& mask (unsettled.flatMap CaseRange.codes)).testBit n = true := by
    rw [Nat.testBit_and, testBit_mask.mpr h, testBit_mask.mpr hn]
    rfl
  rw [hdisjoint, Nat.zero_testBit] at hbit
  cases hbit

/-- The code points that the table gives are characters. -/
theorem isValidChar_of_covers {r : CaseRange} {n : ℕ} (hr : r ∈ lowerRanges)
    (h : r.covers n = true) : (n + r.shift).toNat.isValidChar := by
  have htable : ∀ r ∈ lowerRanges, r.last + r.shift < 0xD800 ∨
      0xDFFF < r.first + r.shift ∧ r.last + r.shift < 0x110000 := by
    decide +kernel
  obtain ⟨hfirst, hlast, -⟩ := CaseRange.covers_iff.mp h
  have hends := htable r hr
  show (n + r.shift).toNat < 0xD800 ∨
    0xDFFF < (n + r.shift).toNat ∧ (n + r.shift).toNat < 0x110000
  omega

/-! ## Characters -/

theorem toNat_ofNat {n : ℕ} (h : n.isValidChar) : (Char.ofNat n).toNat = n := by
  rw [Char.ofNat, dif_pos h]
  rfl

theorem lowerCode_eq_self {n : ℕ} (h : ∀ q ∈ lowerRanges, q.covers n = false) :
    lowerCode n = n := by
  have hnone : lowerRanges.find? (·.covers n) = none := by
    rw [List.find?_eq_none]
    intro q hq
    rw [h q hq]
    exact Bool.false_ne_true
  rw [lowerCode, hnone]

/-- A code point is its own lower case, or a range covers it and shifts it. -/
theorem lowerCode_cases (n : ℕ) :
    lowerCode n = n ∨ ∃ r ∈ lowerRanges, r.covers n = true ∧ lowerCode n = (n + r.shift).toNat := by
  cases hfind : lowerRanges.find? (·.covers n) with
  | none => exact .inl (by rw [lowerCode, hfind])
  | some r =>
    have hr := List.mem_of_find?_eq_some hfind
    have hcovers := List.find?_some hfind
    exact .inr ⟨r, hr, hcovers, by rw [lowerCode, hfind]⟩

/-- The character is none that lower case changes. -/
def Settled (c : Char) : Prop := c ≠ 'Σ' ∧ lowerChar c = [c]

/-- The character that a range of the table gives is settled and not white space. -/
theorem settled_of_covers {r : CaseRange} {n : ℕ} (hr : r ∈ lowerRanges)
    (h : r.covers n = true) :
    Settled (Char.ofNat (n + r.shift).toNat) ∧
      isBlank (Char.ofNat (n + r.shift).toNat) = false := by
  have hnat := toNat_ofNat (isValidChar_of_covers hr h)
  have hmem : (n + r.shift).toNat ∈ lowered := by
    apply List.mem_flatMap.mpr
    exact ⟨r, hr, List.mem_map_of_mem (CaseRange.mem_codes_of_covers h)⟩
  generalize Char.ofNat (n + r.shift).toNat = c at hnat ⊢
  rw [← hnat] at hmem
  have hnone := covers_eq_false_of_mem_lowered hmem
  have hlower : ∀ q ∈ lowerRanges, q.covers c.toNat = false :=
    fun q hq => hnone q (List.mem_append_right _ hq)
  refine ⟨⟨?_, ?_⟩, ?_⟩
  · rintro rfl
    have hsigma : ¬ ∀ q ∈ lowerRanges, q.covers 'Σ'.toNat = false := by decide +kernel
    exact hsigma hlower
  · have hne : c ≠ 'İ' := by
      rintro rfl
      have hcovers := hnone dottedCapitalI (List.mem_append_left _ (List.mem_cons_self ..))
      revert hcovers
      decide
    rw [lowerChar, if_neg hne, lowerCode_eq_self hlower, Char.ofNat_toNat]
  · by_contra hblank
    obtain ⟨q, hq, hcovers⟩ := exists_covers_of_isBlank (by simpa using hblank)
    rw [hnone q (List.mem_append_left _ (List.mem_cons_of_mem _ hq))] at hcovers
    cases hcovers

/-- The lower case of a character is settled, and white space only if the
    character is. -/
theorem settled_of_mem_lowerChar {c d : Char} (hc : c ≠ 'Σ') (hd : d ∈ lowerChar c) :
    Settled d ∧ (isBlank c = false → isBlank d = false) := by
  by_cases hdotted : c = 'İ'
  · subst hdotted
    have hd : d = 'i' ∨ d = '\u0307' := by simpa [lowerChar] using hd
    rcases hd with rfl | rfl
    · exact ⟨⟨by decide, by decide⟩, fun _ => by decide⟩
    · exact ⟨⟨by decide, by decide⟩, fun _ => by decide⟩
  · rw [lowerChar, if_neg hdotted, List.mem_singleton] at hd
    rcases lowerCode_cases c.toNat with hself | ⟨r, hr, hcovers, hshift⟩
    · rw [hself, Char.ofNat_toNat] at hd
      subst hd
      refine ⟨⟨hc, ?_⟩, id⟩
      rw [lowerChar, if_neg hdotted, hself, Char.ofNat_toNat]
    · rw [hshift] at hd
      subst hd
      obtain ⟨hsettled, hblank⟩ := settled_of_covers hr hcovers
      exact ⟨hsettled, fun _ => hblank⟩

/-! ## Texts -/

/-- What a character becomes between `before` and `after`. -/
def lowerAt (before : List Char) (c : Char) (after : List Char) : List Char :=
  if c = 'Σ' then [lowerSigma before after] else lowerChar c

theorem lowerAfter_cons (before : List Char) (c : Char) (cs : List Char) :
    lowerAfter before (c :: cs) = lowerAt before c cs ++ lowerAfter (c :: before) cs := rfl

theorem lowerAt_ne_nil (before : List Char) (c : Char) (after : List Char) :
    lowerAt before c after ≠ [] := by
  unfold lowerAt lowerChar
  split_ifs <;> simp

/-- Both small sigmas are settled. -/
theorem settled_of_mem_lowerAt {before after : List Char} {c d : Char}
    (hd : d ∈ lowerAt before c after) :
    Settled d ∧ (isBlank c = false → isBlank d = false) := by
  by_cases hsigma : c = 'Σ'
  · rw [lowerAt, if_pos hsigma, List.mem_singleton, lowerSigma] at hd
    subst hd
    split_ifs
    · exact ⟨⟨by decide, by decide⟩, fun _ => by decide⟩
    · exact ⟨⟨by decide, by decide⟩, fun _ => by decide⟩
  · rw [lowerAt, if_neg hsigma] at hd
    exact settled_of_mem_lowerChar hsigma hd

theorem settled_of_mem_lowerAfter {before cs : List Char} :
    ∀ d ∈ lowerAfter before cs, Settled d := by
  induction cs generalizing before with
  | nil =>
    intro d hd
    cases hd
  | cons c cs ih =>
    intro d hd
    rw [lowerAfter_cons] at hd
    rcases List.mem_append.mp hd with hd | hd
    · exact (settled_of_mem_lowerAt hd).1
    · exact ih d hd

/-- **Lower case is idempotent.** -/
theorem lower_lower (cs : List Char) : lower (lower cs) = lower cs :=
  lower_eq_self settled_of_mem_lowerAfter

theorem isBlank_of_mem_head?_lowerAfter {before cs : List Char}
    (h : ∀ c ∈ cs.head?, isBlank c = false) :
    ∀ d ∈ (lowerAfter before cs).head?, isBlank d = false := by
  intro d hd
  rcases cs with _ | ⟨c, cs⟩
  · cases hd
  · rw [lowerAfter_cons, List.head?_append_of_ne_nil _ (lowerAt_ne_nil before c cs)] at hd
    exact (settled_of_mem_lowerAt (List.mem_of_mem_head? hd)).2 (h c rfl)

/-- The last character of the lower case comes from the last character. -/
theorem isBlank_of_mem_getLast?_lowerAfter {before cs : List Char}
    (h : ∀ c ∈ cs.getLast?, isBlank c = false) :
    ∀ d ∈ (lowerAfter before cs).getLast?, isBlank d = false := by
  induction cs generalizing before with
  | nil =>
    intro d hd
    cases hd
  | cons c cs ih =>
    intro d hd
    rw [lowerAfter_cons] at hd
    rcases cs with _ | ⟨c', cs⟩
    · have hd : d ∈ lowerAt before c [] := by
        rw [lowerAfter, List.append_nil] at hd
        exact List.mem_of_mem_getLast? hd
      exact (settled_of_mem_lowerAt hd).2 (h c rfl)
    · have hne : lowerAfter (c :: before) (c' :: cs) ≠ [] := by
        rw [lowerAfter_cons]
        exact List.append_ne_nil_of_left_ne_nil (lowerAt_ne_nil (c :: before) c' cs) _
      rw [List.getLast?_append_of_ne_nil _ hne] at hd
      exact ih h d hd

/-- **The lower case of a trimmed text is trimmed.** -/
theorem trim_lower_trim (cs : List Char) : trim (lower (trim cs)) = lower (trim cs) :=
  trim_eq_self (isBlank_of_mem_head?_lowerAfter fun _ => isBlank_of_mem_head?_trim)
    (isBlank_of_mem_getLast?_lowerAfter fun _ => isBlank_of_mem_getLast?_trim)

end PostfixCalc.Text
