import PostfixCalc.Decimal.Positional
import PostfixCalc.Decimal.Shortest

/-!
# The text of a number

A number is read from a numeral with an optional sign, or from one of the words
`inf`, `infinity` and `nan` in any mix of case. It is written with the fewest
digits that read back, in positional notation, with `-` in front of a negative
number, the negative zero included.
-/

namespace PostfixCalc

/-- The number that a numeral names, rounded once; none if the numeral is incomplete. -/
def Numeral.toFloat? (n : Numeral) : Option Float :=
  n.decimal?.map Decimal.toFloat

namespace Scalar

/-! ## Reading -/

/-- The positive infinity. -/
def infinity : Float := Float.ofBits 0x7FF0000000000000

/-- What is no number. Its sign does not show. -/
def notANumber : Float := Float.ofBits 0x7FF8000000000000

/-- A number without a sign: a complete numeral and nothing else, or one of the three words. -/
def readMagnitude? (cs : List Char) : Option Float :=
  let lower := cs.map Char.toLower
  if lower = "inf".toList ∨ lower = "infinity".toList then some infinity
  else if lower = "nan".toList then some notANumber
  else
    let scanned := Numeral.scan cs
    if scanned.2.isEmpty then scanned.1.toFloat? else none

/-- The number that the whole text `cs` spells. -/
def readChars? (cs : List Char) : Option Float :=
  match cs with
  | [] => none
  | c :: rest =>
    if c = '-' then (readMagnitude? rest).map (-·)
    else if c = '+' then readMagnitude? rest
    else readMagnitude? cs

/-- The number that a whole string spells. -/
def read? (s : String) : Option Float :=
  readChars? s.toList

/-! ## Writing -/

/-- The text of a positive number or zero, given by its word. -/
def magnitudeText (w : Nat) : List Char :=
  if w = 0 then ['0']
  else if w = Binary64.infinityWord then "inf".toList
  else (Decimal.shortest w).positional.text

/-- The text of a number. -/
def chars (x : Float) : List Char :=
  if x.isNaN then "NaN".toList
  else if Binary64.isNegative x then '-' :: magnitudeText (Binary64.word x)
  else magnitudeText (Binary64.word x)

/-- The text of a number as a string. -/
def text (x : Float) : String :=
  String.ofList (chars x)

end Scalar

end PostfixCalc
