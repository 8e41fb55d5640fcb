import PostfixCalc.Decimal.Numeral

/-!
# Binary64

The calculator computes with `Float`. This module relates its bits to exact
numbers: the low 63 bits of a finite number, its *word*, encode
`mantissa * 2 ^ exponent`, and words grow with the numbers that they encode.
`nearestWord` goes the other way and rounds a quotient of natural numbers to the
nearest word, a tie to the even mantissa. Reading a number rounds once, so it is
correct for any number of digits.

Results:
* `Dyadic.ofWord_subnormal`, `Dyadic.ofWord_normal`: what a word encodes.
-/

namespace PostfixCalc

/-- The number `mantissa * 2 ^ exponent`. -/
structure Dyadic where
  mantissa : Nat
  exponent : Int
deriving DecidableEq, Repr

namespace Binary64

/-- The word of infinity. The words of finite numbers are the smaller ones. -/
def infinityWord : Nat := 0x7FF0000000000000

/-- The exponent of the smallest positive number, `2 ^ -1074`. -/
def minExponent : Int := -1074

/-- The leading bit of a mantissa of full length, `2 ^ 52`. A word does not have it. -/
def leadingBit : Nat := 0x10000000000000

/-- The bit above every word, `2 ^ 63`, which negative numbers have. -/
def signBit : Nat := 0x8000000000000000

end Binary64

open Binary64

/-! ## From words to numbers -/

/-- The number that a finite word encodes: below `2 ^ 52` the word is the
    mantissa itself, above it the mantissa has a leading bit that is not
    written. -/
def Dyadic.ofWord (w : Nat) : Dyadic :=
  if w < leadingBit then ⟨w, minExponent⟩
  else ⟨leadingBit + w % leadingBit, ((w / leadingBit : Nat) : Int) + (minExponent - 1)⟩

theorem Dyadic.ofWord_subnormal {w : Nat} (h : w < leadingBit) :
    Dyadic.ofWord w = ⟨w, minExponent⟩ := by
  rw [Dyadic.ofWord, if_pos h]

theorem Dyadic.ofWord_normal {w : Nat} (h : leadingBit ≤ w) :
    Dyadic.ofWord w =
      ⟨leadingBit + w % leadingBit, ((w / leadingBit : Nat) : Int) + (minExponent - 1)⟩ := by
  rw [Dyadic.ofWord, if_neg (Nat.not_lt.2 h)]

/-! ## From numbers to words -/

namespace Binary64

/-- `num / den` rounded to a natural number; a half goes to the even neighbour. -/
def roundHalfEven (num den : Nat) : Nat :=
  let quotient := num / den
  let remainder := num % den
  if 2 * remainder < den then quotient
  else if den < 2 * remainder then quotient + 1
  else quotient + quotient % 2

/-- The largest `e` with `2 ^ e ≤ num / den`, for positive `num` and `den`. -/
def floorLog2 (num den : Nat) : Int :=
  let e : Int := (num.log2 : Int) - den.log2
  if num * Nat.pow 2 (-e).toNat < den * Nat.pow 2 e.toNat then e - 1 else e

/-- The word of the number nearest to `num / den`; a tie goes to the even
    mantissa. The unit in the last place is `2 ^ q`: 52 places below the leading
    bit, but no finer than the smallest number. A mantissa that rounds up to
    `2 ^ 53` carries into the exponent by itself, and what lies beyond the
    largest finite number is infinite. -/
def nearestWord (num den : Nat) : Nat :=
  if num = 0 then 0
  else
    let q := max (floorLog2 num den - 52) minExponent
    let mantissa := roundHalfEven (num * Nat.pow 2 (-q).toNat) (den * Nat.pow 2 q.toNat)
    min infinityWord ((q - minExponent).toNat * leadingBit + mantissa)

end Binary64

namespace Decimal

/-- The word nearest to a decimal number. Far beyond both ends of the range the
    answer is known without the power of ten. -/
def nearestWord (d : Decimal) : Nat :=
  if d.digits = 0 then 0
  else if 400 < d.exponent then infinityWord
  else if d.exponent < -(400 + (d.digits.log2 : Int)) then 0
  else
    Binary64.nearestWord (d.digits * Nat.pow 10 d.exponent.toNat) (Nat.pow 10 (-d.exponent).toNat)

/-- The nearest `Float`, with a tie to the even mantissa and infinity beyond the largest one. -/
def toFloat (d : Decimal) : Float :=
  Float.ofBits (UInt64.ofNat d.nearestWord)

end Decimal

/-! ## The parts of a `Float` -/

namespace Binary64

/-- The bits of `x` without the sign. -/
def word (x : Float) : Nat := x.toBits.toNat % signBit

/-- The sign bit of `x`, which `-0.0` has and `0.0` has not. -/
def isNegative (x : Float) : Bool := signBit ≤ x.toBits.toNat

end Binary64

end PostfixCalc
