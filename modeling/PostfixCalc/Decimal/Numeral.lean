/-!
# Decimal numerals as written

A numeral is written as digits, a point with more digits, and an exponent mark
with a sign and digits, each part optional. `Numeral.scan` takes the longest
such start of a text, well formed or not: `1.` and `.` and `2e+` are all scanned
whole, and `Numeral.decimal?` says afterwards whether a number was written and
which one. Expressions, typed numbers and request files all read their numbers
through this one type.

Results:
* `text_scan_append`: the scanned part and the rest make up the text again, so
  nothing is lost.
* `length_scan_rest_lt`: a text that starts with a digit or a point gets
  shorter.
-/

namespace PostfixCalc

/-- The number `digits * 10 ^ exponent`. -/
structure Decimal where
  digits : Nat
  exponent : Int
deriving DecidableEq, Repr

namespace Numeral

/-- The exponent of a numeral: its mark, `e` or `E`, an optional sign and the digits. -/
structure Exponent where
  mark : Char
  sign : Option Char
  digits : List Char
deriving DecidableEq, Repr

end Numeral

/-- A decimal numeral as written, character for character. -/
structure Numeral where
  whole : List Char
  fraction : Option (List Char)
  exponent : Option Numeral.Exponent
deriving DecidableEq, Repr

namespace Numeral

/-! ## Text -/

/-- The exponent part, from the mark on. -/
def Exponent.text (e : Exponent) : List Char :=
  e.mark :: (e.sign.toList ++ e.digits)

/-- The numeral, character for character. -/
def text (n : Numeral) : List Char :=
  n.whole ++ (n.fraction.elim [] ('.' :: ·) ++ n.exponent.elim [] Exponent.text)

/-! ## Scanning -/

/-- A point and the digits after it, if `cs` starts with a point. -/
def scanFraction : List Char → Option (List Char) × List Char
  | [] => (none, [])
  | c :: cs =>
    if c = '.' then (some (cs.takeWhile Char.isDigit), cs.dropWhile Char.isDigit)
    else (none, c :: cs)

/-- A sign, if `cs` starts with one. -/
def scanSign : List Char → Option Char × List Char
  | [] => (none, [])
  | c :: cs => if c = '+' ∨ c = '-' then (some c, cs) else (none, c :: cs)

/-- An exponent, if `cs` starts with an exponent mark. -/
def scanExponent : List Char → Option Exponent × List Char
  | [] => (none, [])
  | c :: cs =>
    if c = 'e' ∨ c = 'E' then
      let signed := scanSign cs
      (some ⟨c, signed.1, signed.2.takeWhile Char.isDigit⟩, signed.2.dropWhile Char.isDigit)
    else (none, c :: cs)

/-- The longest start of `cs` with the shape of a numeral, and the rest. -/
def scan (cs : List Char) : Numeral × List Char :=
  let fraction := scanFraction (cs.dropWhile Char.isDigit)
  let exponent := scanExponent fraction.2
  (⟨cs.takeWhile Char.isDigit, fraction.1, exponent.1⟩, exponent.2)

theorem scanFraction_append (cs : List Char) :
    (scanFraction cs).1.elim [] ('.' :: ·) ++ (scanFraction cs).2 = cs := by
  cases cs with
  | nil => rfl
  | cons c cs =>
    rw [scanFraction]
    split
    · next h => simp [h]
    · rfl

theorem scanSign_append (cs : List Char) : (scanSign cs).1.toList ++ (scanSign cs).2 = cs := by
  cases cs with
  | nil => rfl
  | cons c cs =>
    rw [scanSign]
    split <;> rfl

theorem scanExponent_append (cs : List Char) :
    (scanExponent cs).1.elim [] Exponent.text ++ (scanExponent cs).2 = cs := by
  cases cs with
  | nil => rfl
  | cons c cs =>
    rw [scanExponent]
    split
    · simp [Exponent.text, scanSign_append]
    · rfl

/-- Scanning loses nothing: the numeral and the rest are the text. -/
theorem text_scan_append (cs : List Char) : (scan cs).1.text ++ (scan cs).2 = cs := by
  simp only [scan, text, List.append_assoc, scanExponent_append, scanFraction_append,
    List.takeWhile_append_dropWhile]

/-- A text that starts with a digit or a point has a numeral that is not empty. -/
theorem text_scan_ne_nil {c : Char} {cs : List Char} (h : c.isDigit = true ∨ c = '.') :
    (scan (c :: cs)).1.text ≠ [] := by
  rcases h with h | rfl
  · simp [scan, text, h]
  · simp [scan, text, scanFraction]

/-- A text that starts with a digit or a point gets shorter. -/
theorem length_scan_rest_lt {c : Char} {cs : List Char} (h : c.isDigit = true ∨ c = '.') :
    (scan (c :: cs)).2.length < (c :: cs).length := by
  have hlen := congrArg List.length (text_scan_append (c :: cs))
  have hpos : 0 < (scan (c :: cs)).1.text.length := List.length_pos_iff.2 (text_scan_ne_nil h)
  simp only [List.length_append] at hlen
  omega

/-! ## Value -/

/-- All digits before the exponent, in order. -/
def significand (n : Numeral) : List Char :=
  n.whole ++ n.fraction.getD []

/-- The power of ten that the exponent names. -/
def Exponent.value (e : Exponent) : Int :=
  let magnitude : Int := Nat.ofDigitChars 10 e.digits 0
  if e.sign = some '-' then -magnitude else magnitude

/-- A numeral is complete if it has a digit before the exponent, and a digit in
    the exponent if it has one. -/
def isComplete (n : Numeral) : Bool :=
  !n.significand.isEmpty && n.exponent.all (!·.digits.isEmpty)

/-- The number that a complete numeral names. -/
def decimal (n : Numeral) : Decimal where
  digits := Nat.ofDigitChars 10 n.significand 0
  exponent := (n.exponent.elim 0 Exponent.value) - (n.fraction.getD []).length

/-- The number written, if the numeral is complete. -/
def decimal? (n : Numeral) : Option Decimal :=
  if n.isComplete then some n.decimal else none

end Numeral

end PostfixCalc
