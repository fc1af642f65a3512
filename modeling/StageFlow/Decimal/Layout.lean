import StageFlow.Decimal.Shortest

/-!
# Layout of decimals

How the digits of a double are written down: positionally or with an exponent. One record holds the
decisions of a format.

## Contents
- **Decisions.** `Layout`.
- **Rendering.** `Layout.render`.
-/

namespace StageFlow.Decimal

/-- The decisions of a format on how to write finite doubles. -/
structure Layout where
  /-- The smallest decimal exponent that is written positionally. -/
  lowest : Int
  /-- The smallest exponent above it that is not. -/
  highest : Int
  /-- Is a positive exponent written with its sign? -/
  plusSign : Bool
  /-- Which way an exact tie between two shortest decimals goes. -/
  tie : Tie

/-- Digits with the point in front of the `point`-th; a fraction is always written. -/
def positional (digits : List Char) (point : Int) : List Char :=
  if point ≤ 0 then '0' :: '.' :: (List.replicate (-point).toNat '0' ++ digits)
  else
    let whole := digits.take point.toNat
    let fraction := digits.drop point.toNat
    whole ++ List.replicate (point.toNat - whole.length) '0' ++ '.' ::
      (if fraction.isEmpty then ['0'] else fraction)

/-- Digits with the point after the first, and an exponent. -/
def scientific (plusSign : Bool) (digits : List Char) (exponent : Int) : List Char :=
  digits.take 1 ++ (if digits.length ≤ 1 then [] else '.' :: digits.drop 1) ++ 'e' ::
    ((if plusSign && exponent ≥ 0 then ['+'] else []) ++ Text.signedDecimal exponent)

/-- A finite double in a format. The sign of zero is kept. -/
def Layout.render (l : Layout) (x : Binary64) : List Char :=
  (if x.isNegative then ['-'] else []) ++
    (if x.isZero then ['0', '.', '0']
    else
      let (d, k) := shortest x l.tie
      let digits := Text.decimal d
      let exponent := (digits.length : Int) - 1 + k
      if l.lowest ≤ exponent && exponent < l.highest then positional digits (exponent + 1)
      else scientific l.plusSign digits exponent)

end StageFlow.Decimal
