import PostfixCalc.Decimal.Binary64

/-!
# The shortest decimal that reads back

Every finite word is the nearest one to all numbers of an interval around it.
Among the decimals in that interval `Decimal.shortest` takes one of the coarsest
power of ten that has any there, and of two neighbours the nearer one. The tests
are exact, in natural numbers.

Results:
* `Interval.contains_of_pick_eq_some`: what `pick` answers lies in the interval.
* `pick_eq_none_iff`: it answers nothing only if neither neighbour lies there.
-/

namespace PostfixCalc

/-- The numbers that round to one word: around `center * 2 ^ unit`, from
    `low * 2 ^ unit` to `high * 2 ^ unit`, both ends included if `closed`. -/
structure Interval where
  low : Nat
  center : Nat
  high : Nat
  unit : Int
  closed : Bool
deriving DecidableEq, Repr

namespace Interval

/-- The interval of `w`, in quarters of the unit in the last place. It reaches
    half a unit to both sides, but only a quarter below a power of two, where
    the numbers below are twice as dense. The ends are ties, which go to the
    even mantissa. -/
def ofWord (w : Nat) : Interval :=
  let d := Dyadic.ofWord w
  { low := if d.mantissa = Binary64.leadingBit ∧ Binary64.minExponent < d.exponent then
        4 * d.mantissa - 1
      else 4 * d.mantissa - 2
    center := 4 * d.mantissa
    high := 4 * d.mantissa + 2
    unit := d.exponent - 2
    closed := d.mantissa % 2 == 0 }

/-- The factor that brings multiples of `10 ^ p` to a common denominator with
    the ends: `c * 10 ^ p` compares with `x * 2 ^ unit` as `c * decimalScale`
    with `x * binaryScale`. -/
def decimalScale (i : Interval) (p : Int) : Nat :=
  Nat.pow 10 p.toNat * Nat.pow 2 (-i.unit).toNat

/-- The factor that brings the ends to a common denominator with multiples of `10 ^ p`. -/
def binaryScale (i : Interval) (p : Int) : Nat :=
  Nat.pow 2 i.unit.toNat * Nat.pow 10 (-p).toNat

/-- Whether `c * 10 ^ p` lies in the interval. -/
def contains (i : Interval) (c : Nat) (p : Int) : Bool :=
  let x := c * i.decimalScale p
  let low := i.low * i.binaryScale p
  let high := i.high * i.binaryScale p
  if i.closed then low ≤ x && x ≤ high else low < x && x < high

/-- The multiple of `10 ^ p` at or below the center. -/
def floorMultiple (i : Interval) (p : Int) : Nat :=
  i.center * i.binaryScale p / i.decimalScale p

/-- Whether the center is nearer to its floor `c * 10 ^ p` than to `(c + 1) * 10 ^ p`. -/
def isNearerFloor (i : Interval) (c : Nat) (p : Int) : Bool :=
  2 * (i.center * i.binaryScale p) < (2 * c + 1) * i.decimalScale p

/-- The multiple of `10 ^ p` next to the center that lies in the interval; of
    two the nearer one, and of two equally near ones the larger. -/
def pick (i : Interval) (p : Int) : Option Nat :=
  let c := i.floorMultiple p
  if i.contains c p && (i.isNearerFloor c p || !i.contains (c + 1) p) then some c
  else if i.contains (c + 1) p then some (c + 1)
  else none

theorem contains_of_pick_eq_some {i : Interval} {p : Int} {c : Nat} (h : i.pick p = some c) :
    i.contains c p = true := by
  simp only [pick] at h
  split at h
  · simp_all
  · split at h <;> simp_all

/-- No answer means that neither neighbour of the center is in the interval. -/
theorem pick_eq_none_iff {i : Interval} {p : Int} :
    i.pick p = none ↔
      i.contains (i.floorMultiple p) p = false ∧ i.contains (i.floorMultiple p + 1) p = false := by
  simp only [pick]
  split
  · simp_all
  · split <;> simp_all

end Interval

namespace Decimal

/-- A power of ten above every number with the given dyadic exponent and at most
    53 bits: `30103 / 100000` is a little more than the logarithm of two. -/
def topPower (exponent : Int) : Int := (exponent + 53) * 30103 / 100000 + 1

/-- The shortest decimal of a positive finite word: the first power of ten, from
    the top down, that has a multiple in the interval of the word. Twenty powers
    always reach one. -/
def shortest (w : Nat) : Decimal :=
  let top := topPower (Dyadic.ofWord w).exponent
  let powers := (List.range 20).map fun (k : Nat) => top - (k : Int)
  let found := powers.findSome? fun p => ((Interval.ofWord w).pick p).map fun c => Decimal.mk c p
  found.getD ⟨0, 0⟩

end Decimal

end PostfixCalc
