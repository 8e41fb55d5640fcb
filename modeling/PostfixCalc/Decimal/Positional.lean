import PostfixCalc.Decimal.Numeral

/-!
# Positional notation

`Decimal.positional` writes a decimal with digits and at most one point, never
with an exponent. `padLeft` supplies the zeros of a number below one.

Results:
* `significand_positional`: the digits written, read without the point, are
  those of the decimal.
-/

namespace PostfixCalc

/-- `digits` with zeros in front, as many as it takes to have at least `size` characters. -/
def padLeft (size : Nat) (digits : List Char) : List Char :=
  List.replicate (size - digits.length) '0' ++ digits

theorem le_length_padLeft (size : Nat) (digits : List Char) :
    size ≤ (padLeft size digits).length := by
  simp only [padLeft, List.length_append, List.length_replicate]
  omega

namespace Decimal

/-- The numeral of a decimal without an exponent part: a whole number ends in
    zeros, any other has `-exponent` digits after the point and at least one
    before it. -/
def positional (d : Decimal) : Numeral :=
  let digits := Nat.toDigits 10 d.digits
  if 0 ≤ d.exponent then
    { whole := digits ++ List.replicate d.exponent.toNat '0', fraction := none, exponent := none }
  else
    let places := (-d.exponent).toNat
    let padded := padLeft (places + 1) digits
    let cut := padded.length - places
    { whole := padded.take cut, fraction := some (padded.drop cut), exponent := none }

/-- Without the point, a decimal below the unit is written as its own digits after zeros. -/
theorem significand_positional {d : Decimal} (h : d.exponent < 0) :
    d.positional.significand =
      padLeft ((-d.exponent).toNat + 1) (Nat.toDigits 10 d.digits) := by
  have h' : ¬ 0 ≤ d.exponent := by omega
  simp [positional, Numeral.significand, h']

end Decimal

end PostfixCalc
