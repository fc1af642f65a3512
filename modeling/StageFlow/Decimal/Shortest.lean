import StageFlow.Decimal.Binary64
import StageFlow.Text.Digits

/-!
# Shortest decimals

The decimal of fewest digits that reads back to a given double, and the nearest of those. All of it
is exact arithmetic on naturals: the reals that round to the double form an interval, and for one
digit, two digits and so on up to seventeen the two neighbours of the double on that decimal grid are
tried against it.

## Contents
- **Interval.** `Interval`, the reals that round to a double.
- **Grids.** `Interval.neighbour?`, the point of one grid that reads back.
- **Selection.** `Binary64.shortest`.
-/

namespace StageFlow.Decimal

/-! ## Interval -/

/-- Which of two decimals is taken when a double lies exactly half way between them. -/
inductive Tie
  | even
  | up
  deriving DecidableEq, Repr

/-- The reals between `low · 2 ^ exponent` and `high · 2 ^ exponent`, around `value · 2 ^ exponent`. -/
structure Interval where
  low : Nat
  value : Nat
  high : Nat
  exponent : Int
  closed : Bool

/-- The reals that round to the absolute value of a finite double, in quarters of its last place.
The ends belong to it exactly if the significand is even, since ties go to even. -/
def Interval.of (x : Binary64) : Interval where
  low := 4 * x.significand - (if x.stepsDownByHalf then 1 else 2)
  value := 4 * x.significand
  high := 4 * x.significand + 2
  exponent := x.scale - 2
  closed := x.significand % 2 == 0

/-! ## Grids -/

/-- What a natural in units of `2 ^ exponent` is to be multiplied with before it can be compared
with a multiple of `10 ^ k`. -/
def binaryFactor (exponent k : Int) : Nat := (1 <<< exponent.toNat) * Nat.pow 10 (-k).toNat

/-- What a multiple of `10 ^ k` is to be multiplied with for that comparison. -/
def decimalFactor (exponent k : Int) : Nat := Nat.pow 10 k.toNat * (1 <<< (-exponent).toNat)

/-- Does `d · 10 ^ k` lie in the interval? -/
def Interval.holds (i : Interval) (d : Nat) (k : Int) : Bool :=
  let a := binaryFactor i.exponent k
  let b := decimalFactor i.exponent k
  if i.closed then i.low * a ≤ d * b && d * b ≤ i.high * a
  else i.low * a < d * b && d * b < i.high * a

/-- The nearer to the value of those multiples of `10 ^ k` next to it that lie in the interval. -/
def Interval.neighbour? (i : Interval) (tie : Tie) (k : Int) : Option Nat :=
  let a := binaryFactor i.exponent k
  let b := decimalFactor i.exponent k
  let below := i.value * a / b
  let rest := i.value * a % b
  match i.holds below k, i.holds (below + 1) k with
  | false, false => none
  | true, false => some below
  | false, true => some (below + 1)
  | true, true =>
    if 2 * rest < b then some below
    else if b < 2 * rest then some (below + 1)
    else match tie with
      | .even => if below % 2 = 0 then some below else some (below + 1)
      | .up => some (below + 1)

/-! ## Selection -/

/-- How many digits the decimal numeral of `n` has; zero has none. -/
def digitCount (n : Nat) : Nat :=
  if h : n = 0 then 0 else digitCount (n / 10) + 1
  decreasing_by omega

/-- The least exponent of ten above the value of the interval: all doubles are multiples of the
smallest one, so four hundred places after the point show the first digit of each. -/
def Interval.magnitude (i : Interval) : Int :=
  (digitCount (i.value * binaryFactor i.exponent (-400) / decimalFactor i.exponent (-400)) : Int) - 400

/-- The first grid, from `digits` significant digits upwards, with a point that reads back. -/
def Interval.search (i : Interval) (tie : Tie) (top : Int) : (fuel digits : Nat) → Nat × Int
  | 0, digits => (0, top - digits)
  | fuel + 1, digits =>
    match i.neighbour? tie (top - digits) with
    | some d => (d, top - digits)
    | none => i.search tie top fuel (digits + 1)

/-- Removes zeros from the end of a decimal significand. -/
def trim (d : Nat) (k : Int) : Nat × Int :=
  if h : d = 0 then (0, k)
  else if d % 10 = 0 then trim (d / 10) (k + 1) else (d, k)
  termination_by d
  decreasing_by omega

/-- The pair `(d, k)` for which `d · 10 ^ k` is the shortest decimal that reads back to the absolute
value of a finite double other than zero, nearest to it among those of that length. Seventeen digits
are always enough. -/
def shortest (x : Binary64) (tie : Tie) : Nat × Int :=
  let i := Interval.of x
  let r := i.search tie i.magnitude 17 1
  trim r.1 r.2

end StageFlow.Decimal
