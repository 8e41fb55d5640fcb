import PostfixCalc.Proofs.Rounding
import PostfixCalc.Token.Lexer

/-!
# Number literals

A literal has at least one digit around its point, and at least one digit in
its exponent if it has one. The scanner knows nothing of this: it takes the
longest text of a looser shape, and whether a number was written is asked
afterwards. On the text of a literal it stops exactly at the end, provided that
the next character cannot belong to a number.

Results:
* `Numeral.scan_text_append`: a well-formed numeral is scanned whole.
* `Numeral.wellFormed_scan`: what is scanned and complete is well formed.
* `Numeral.isFinite_iff`: a numeral names a finite number exactly if it is
  complete and does not overflow.
* `Token.isLiteral_of_isFinite`: what the lexer takes for a literal is one.
* `Scalar.readChars?_text`: a literal is read as the number that it names, and
  with a minus in front as the negated number.
-/

namespace PostfixCalc

namespace Numeral

/-! ## Well-formed numerals -/

/-- `('e' | 'E') ['+' | '-'] digit+` -/
structure Exponent.WellFormed (e : Exponent) : Prop where
  mark : e.mark = 'e' ∨ e.mark = 'E'
  sign : ∀ c ∈ e.sign, c = '+' ∨ c = '-'
  digits : ∀ c ∈ e.digits, c.isDigit = true
  ne_nil : e.digits ≠ []

/-- `(digit+ ['.' digit*] | '.' digit+) [exponent]`: the digits before and
    after the point may be missing, but not both. -/
structure WellFormed (n : Numeral) : Prop where
  whole : ∀ c ∈ n.whole, c.isDigit = true
  fraction : ∀ ds ∈ n.fraction, ∀ c ∈ ds, c.isDigit = true
  ne_nil : n.whole ++ n.fraction.getD [] ≠ []
  exponent : ∀ e ∈ n.exponent, e.WellFormed

/-- The characters of a numeral are digits, its point, its mark and its sign. -/
theorem WellFormed.of_mem_text {n : Numeral} (h : n.WellFormed) {c : Char} (hc : c ∈ n.text) :
    c.isDigit = true ∨ c ∈ ['.', 'e', 'E', '+', '-'] := by
  obtain ⟨whole, fraction, exponent⟩ := n
  rcases List.mem_append.mp hc with hc | hc
  · exact .inl (h.whole c hc)
  rcases List.mem_append.mp hc with hc | hc
  · rcases fraction with _ | ds
    · cases hc
    · rcases List.mem_cons.mp hc with rfl | hc
      · exact .inr (List.mem_cons_self ..)
      · exact .inl (h.fraction ds rfl c hc)
  · rcases exponent with _ | e
    · cases hc
    · have he := h.exponent e rfl
      rcases List.mem_cons.mp hc with rfl | hc
      · rcases he.mark with hm | hm <;> simp [hm]
      rcases List.mem_append.mp hc with hc | hc
      · rcases he.sign c (by simpa using hc) with rfl | rfl <;> simp
      · exact .inl (he.digits c hc)

/-! ## Scanning -/

/-- The text `rest` does not go on with a character of a numeral. -/
def Stops (rest : List Char) : Prop :=
  ∀ c ∈ rest.head?, c.isDigit = false ∧ c ≠ '.' ∧ c ≠ 'e' ∧ c ≠ 'E'

theorem stops_nil : Stops [] := by
  rintro c ⟨⟩

theorem takeWhile_isDigit_append {digits rest : List Char} (hd : ∀ c ∈ digits, c.isDigit = true)
    (hr : ∀ c ∈ rest.head?, c.isDigit = false) :
    (digits ++ rest).takeWhile Char.isDigit = digits ∧
      (digits ++ rest).dropWhile Char.isDigit = rest := by
  rw [List.takeWhile_append_of_pos hd, List.dropWhile_append_of_pos hd]
  rcases rest with _ | ⟨c, rest⟩
  · simp
  · simp [hr c rfl]

theorem scanSign_append_of_isDigit {sign : Option Char} (hs : ∀ c ∈ sign, c = '+' ∨ c = '-')
    {rest : List Char} (hr : ∀ c ∈ rest.head?, c.isDigit = true) :
    scanSign (sign.toList ++ rest) = (sign, rest) := by
  rcases sign with _ | c
  · rcases rest with _ | ⟨d, rest⟩
    · rfl
    · have hd := hr d rfl
      have hne : ¬ (d = '+' ∨ d = '-') := by
        rintro (rfl | rfl) <;> exact absurd hd (by decide)
      simp [scanSign, hne]
  · simp [scanSign, hs c rfl]

theorem scanExponent_text_append {exponent : Option Exponent}
    (h : ∀ e ∈ exponent, e.WellFormed) {rest : List Char} (hr : Stops rest) :
    scanExponent (exponent.elim [] Exponent.text ++ rest) = (exponent, rest) := by
  rcases exponent with _ | e
  · rcases rest with _ | ⟨c, rest⟩
    · rfl
    · obtain ⟨-, -, he, hE⟩ := hr c rfl
      simp [scanExponent, he, hE]
  · obtain ⟨hmark, hsign, hdigits, hne⟩ := h e rfl
    have hfirst : ∀ c ∈ (e.digits ++ rest).head?, c.isDigit = true := by
      obtain ⟨d, ds, hds⟩ := List.exists_cons_of_ne_nil hne
      intro c hc
      rw [hds] at hc hdigits
      cases hc
      exact hdigits _ (List.mem_cons_self ..)
    obtain ⟨htake, hdrop⟩ := takeWhile_isDigit_append hdigits (fun c hc => (hr c hc).1)
    simp [scanExponent, Exponent.text, hmark, scanSign_append_of_isDigit hsign hfirst, htake, hdrop]

theorem scanFraction_text_append {fraction : Option (List Char)}
    (h : ∀ ds ∈ fraction, ∀ c ∈ ds, c.isDigit = true) {rest : List Char}
    (hr : ∀ c ∈ rest.head?, c.isDigit = false ∧ c ≠ '.') :
    scanFraction (fraction.elim [] ('.' :: ·) ++ rest) = (fraction, rest) := by
  rcases fraction with _ | ds
  · rcases rest with _ | ⟨c, rest⟩
    · rfl
    · simp [scanFraction, (hr c rfl).2]
  · obtain ⟨htake, hdrop⟩ := takeWhile_isDigit_append (h ds rfl) (fun c hc => (hr c hc).1)
    simp [scanFraction, htake, hdrop]

/-- No digit and no point follows where an exponent part may begin. -/
theorem head?_exponent_append {exponent : Option Exponent} (h : ∀ e ∈ exponent, e.WellFormed)
    {rest : List Char} (hr : Stops rest) :
    ∀ c ∈ (exponent.elim [] Exponent.text ++ rest).head?, c.isDigit = false ∧ c ≠ '.' := by
  intro c hc
  rcases exponent with _ | e
  · exact ⟨(hr c hc).1, (hr c hc).2.1⟩
  · cases hc
    rcases (h e rfl).mark with hm | hm <;> rw [hm] <;> decide

/-- A well-formed numeral is scanned whole if a character that cannot belong to it follows. -/
theorem scan_text_append {n : Numeral} (h : n.WellFormed) {rest : List Char} (hr : Stops rest) :
    scan (n.text ++ rest) = (n, rest) := by
  obtain ⟨whole, fraction, exponent⟩ := n
  have htail := head?_exponent_append h.exponent hr
  have hfrac : ∀ c ∈ (fraction.elim [] ('.' :: ·) ++
      (exponent.elim [] Exponent.text ++ rest)).head?, c.isDigit = false := by
    intro c hc
    rcases fraction with _ | ds
    · exact (htail c hc).1
    · cases hc; decide
  obtain ⟨htake, hdrop⟩ := takeWhile_isDigit_append h.whole hfrac
  simp only [scan, text, List.append_assoc]
  simp only [htake, hdrop, scanFraction_text_append h.fraction htail,
    scanExponent_text_append h.exponent hr]

theorem isDigit_of_mem_takeWhile {cs : List Char} :
    ∀ c ∈ cs.takeWhile Char.isDigit, c.isDigit = true :=
  List.all_eq_true.mp List.all_takeWhile

theorem isDigit_of_scanFraction (cs : List Char) :
    ∀ ds ∈ (scanFraction cs).1, ∀ c ∈ ds, c.isDigit = true := by
  rcases cs with _ | ⟨c, cs⟩
  · simp [scanFraction]
  · rw [scanFraction]
    split_ifs with h
    · rintro ds ⟨⟩
      exact isDigit_of_mem_takeWhile
    · simp

theorem sign_of_scanSign (cs : List Char) : ∀ c ∈ (scanSign cs).1, c = '+' ∨ c = '-' := by
  rcases cs with _ | ⟨d, cs⟩
  · simp [scanSign]
  · rw [scanSign]
    split_ifs with h
    · rintro c ⟨⟩
      exact h
    · simp

/-- A scanned exponent lacks at most its digits. -/
theorem wellFormed_of_scanExponent (cs : List Char) :
    ∀ e ∈ (scanExponent cs).1, e.digits ≠ [] → e.WellFormed := by
  rcases cs with _ | ⟨c, cs⟩
  · simp [scanExponent]
  · rw [scanExponent]
    split_ifs with h
    · rintro e ⟨⟩ hne
      exact ⟨h, sign_of_scanSign cs, isDigit_of_mem_takeWhile, hne⟩
    · simp

/-- What is scanned and complete is well formed. -/
theorem wellFormed_scan {cs : List Char} (h : (scan cs).1.isComplete = true) :
    (scan cs).1.WellFormed := by
  unfold isComplete at h
  rw [Bool.and_eq_true] at h
  obtain ⟨hne, hexp⟩ := h
  refine ⟨isDigit_of_mem_takeWhile, isDigit_of_scanFraction _, ?_, ?_⟩
  · simpa [significand] using hne
  · intro e he
    rw [he] at hexp
    exact wellFormed_of_scanExponent _ e he (by simpa using hexp)

theorem WellFormed.isComplete {n : Numeral} (h : n.WellFormed) : n.isComplete = true := by
  have hne : n.significand ≠ [] := h.ne_nil
  unfold Numeral.isComplete
  rcases hexp : n.exponent with _ | e
  · simp [hne]
  · simp [hne, (h.exponent e hexp).ne_nil]

/-! ## Finite numbers -/

/-- A numeral names a finite number exactly if it is complete and does not overflow. -/
theorem isFinite_iff {n : Numeral} :
    n.isFinite = true ↔ n.isComplete = true ∧ n.decimal.value < Binary64.overflow := by
  unfold isFinite toFloat? decimal?
  split_ifs with h
  · simp [h, Decimal.isFinite_toFloat_iff]
  · simp [h]

end Numeral

namespace Token

/-- A literal of the lexical language: the text of a well-formed numeral whose
    value rounds to a finite number. -/
def IsLiteral (literal : String) : Prop :=
  ∃ n : Numeral, n.WellFormed ∧ n.decimal.value < Binary64.overflow ∧ literal = n.literal

/-- What the lexer takes for a literal is one. -/
theorem isLiteral_of_isFinite {cs : List Char} (h : (Numeral.scan cs).1.isFinite = true) :
    IsLiteral (Numeral.scan cs).1.literal := by
  obtain ⟨hcomplete, hvalue⟩ := Numeral.isFinite_iff.mp h
  exact ⟨_, Numeral.wellFormed_scan hcomplete, hvalue, rfl⟩

/-- A literal starts with a digit or a point. -/
theorem startsLiteral_of_wellFormed {n : Numeral} (h : n.WellFormed) :
    ∃ c cs, n.text = c :: cs ∧ startsLiteral c = true := by
  obtain ⟨whole, fraction, exponent⟩ := n
  rcases whole with _ | ⟨c, whole⟩
  · rcases fraction with _ | ds
    · exact absurd rfl h.ne_nil
    · exact ⟨'.', _, rfl, rfl⟩
  · refine ⟨c, _, rfl, ?_⟩
    have hc : c.isDigit = true := h.whole c (List.mem_cons_self ..)
    simp [startsLiteral, hc]

end Token

/-! ## Reading a literal -/

namespace Scalar

theorem toLower_of_startsLiteral {c : Char} (h : Token.startsLiteral c = true) :
    c.toLower = c := by
  have hle : c.val ≤ 57 := by
    rw [Token.startsLiteral, Bool.or_eq_true, beq_iff_eq] at h
    rcases h with h | rfl
    · simp only [Char.isDigit, Bool.and_eq_true, decide_eq_true_eq] at h
      exact h.2
    · decide
  unfold Char.toLower
  rw [dif_neg]
  rintro ⟨hA, -⟩
  exact absurd (UInt32.le_trans hA hle) (by decide)

/-- A text that starts like a literal is none of the words. -/
theorem readMagnitude?_of_startsLiteral {c : Char} (h : Token.startsLiteral c = true)
    (cs : List Char) :
    readMagnitude? (c :: cs) =
      if (Numeral.scan (c :: cs)).2.isEmpty then (Numeral.scan (c :: cs)).1.toFloat? else none := by
  have hword : ∀ d word, Token.startsLiteral d = false →
      (c :: cs).map Char.toLower ≠ d :: word := by
    rintro d word hd heq
    rw [List.map_cons, toLower_of_startsLiteral h] at heq
    rw [(List.cons.inj heq).1, hd] at h
    cases h
  have hinf : (c :: cs).map Char.toLower ≠ "inf".toList := hword 'i' _ (by decide)
  have hinfinity : (c :: cs).map Char.toLower ≠ "infinity".toList := hword 'i' _ (by decide)
  have hnan : (c :: cs).map Char.toLower ≠ "nan".toList := hword 'n' _ (by decide)
  unfold readMagnitude?
  simp only [hinf, hinfinity, hnan, or_self, if_false]

/-- Nor does it start with a sign. -/
theorem readChars?_of_startsLiteral {c : Char} (h : Token.startsLiteral c = true)
    (cs : List Char) : readChars? (c :: cs) = readMagnitude? (c :: cs) := by
  have hne : ∀ d, Token.startsLiteral d = false → c ≠ d := by
    rintro d hd rfl
    rw [hd] at h
    cases h
  rw [readChars?, if_neg (hne '-' (by decide)), if_neg (hne '+' (by decide))]

/-- A literal is none of the words, and is read as the number that it names. -/
theorem readMagnitude?_text {n : Numeral} (h : n.WellFormed) :
    readMagnitude? n.text = some n.decimal.toFloat := by
  obtain ⟨c, cs, htext, hstart⟩ := Token.startsLiteral_of_wellFormed h
  have hscan : Numeral.scan n.text = (n, []) := by
    simpa using Numeral.scan_text_append h Numeral.stops_nil
  have hvalue : n.toFloat? = some n.decimal.toFloat := by
    simp [Numeral.toFloat?, Numeral.decimal?, h.isComplete]
  rw [htext, readMagnitude?_of_startsLiteral hstart, ← htext, hscan]
  simp [hvalue]

/-- A literal is read without a sign, and with a minus in front as the negated number. -/
theorem readChars?_text {n : Numeral} (h : n.WellFormed) :
    readChars? n.text = some n.decimal.toFloat ∧
      readChars? ('-' :: n.text) = some (-n.decimal.toFloat) := by
  obtain ⟨c, cs, htext, hstart⟩ := Token.startsLiteral_of_wellFormed h
  constructor
  · rw [htext, readChars?_of_startsLiteral hstart, ← htext, readMagnitude?_text h]
  · rw [readChars?, if_pos rfl, readMagnitude?_text h]
    rfl

end Scalar

end PostfixCalc
