import StageFlow.Text.Digits
import StageFlow.Term

/-!
# JSON numbers

A numeral of JSON text and the number it stands for. Integers of 64 bits are exact. A double is made from
as many leading digits as fit 64 bits and one rounded multiplication or division by a power of ten, so
that it may miss the nearest double by a little.

## Contents
- **Numerals.** `Numeral`, and `readNumeral`, which takes one off the front of a text.
- **Numbers.** `Numeral.number?`.
-/

namespace StageFlow.Json

open Text

/-! ## Numerals -/

/-- A numeral as its parts; digits as numbers. -/
structure Numeral where
  negative : Bool
  whole : List Nat
  fraction : Option (List Nat) := none
  exponent : Option (Bool × List Nat) := none

/-- The digits at the front of a text, and the rest. -/
def takeDigits (cs : List Char) : List Nat × List Char :=
  ((cs.takeWhile isDecimalDigit).map digitValue, cs.dropWhile isDecimalDigit)

/-- A numeral that breaks off in front of `rest`. -/
def brokenNumeral (rest : List Char) : Cut where
  strict := if rest.isEmpty then .endInValue else .invalidNumber
  lenient := .invalidNumber
  variant := .expectedValue

/-- Reads the exponent, if there is one, behind the digits of a numeral. -/
def readExponent (n : Numeral) : List Char → Except Cut (Numeral × List Char)
  | c :: cs =>
    if c = 'e' || c = 'E' then
      let (negative, cs) := match cs with
        | '-' :: cs => (true, cs)
        | '+' :: cs => (false, cs)
        | cs => (false, cs)
      let (ds, rest) := takeDigits cs
      if ds.isEmpty then .error (brokenNumeral rest)
      else .ok ({ n with exponent := some (negative, ds) }, rest)
    else .ok (n, c :: cs)
  | [] => .ok (n, [])

/-- Reads a numeral, without its sign, from the front of a text. No numeral starts with a zero and
another digit. -/
def readUnsigned (negative : Bool) (cs : List Char) : Except Cut (Numeral × List Char) :=
  let (ds, rest) := takeDigits cs
  match ds with
  | [] => .error (brokenNumeral rest)
  | 0 :: _ :: _ => .error { strict := .invalidNumber, variant := .expectedValue }
  | ds =>
    match rest with
    | '.' :: rest =>
      let (fs, rest) := takeDigits rest
      if fs.isEmpty then .error (brokenNumeral rest)
      else readExponent { negative, whole := ds, fraction := some fs } rest
    | rest => readExponent { negative, whole := ds } rest

/-- Reads a numeral from the front of a text. -/
def readNumeral : List Char → Except Cut (Numeral × List Char)
  | '-' :: cs => readUnsigned true cs
  | cs => readUnsigned false cs

/-! ## Numbers -/

/-- Appends digits to a significand as long as it fits 64 bits; the second part counts those left. -/
def absorb (significand : Nat) : List Nat → Nat × Nat
  | [] => (significand, 0)
  | d :: ds =>
    if significand * 10 + d < word64Bound then absorb (significand * 10 + d) ds
    else (significand, ds.length + 1)

/-- The double nearest to a power of ten. -/
def powerOfTen (e : Nat) : Float := Float.ofScientific 1 false e

/-- Divides by a power of ten, in steps of at most `10 ^ 308`. -/
def scaleDown (x : Float) (e : Nat) : Float :=
  if e ≤ 308 then x / powerOfTen e
  else if x == 0 then x
  else scaleDown (x / powerOfTen 308) (e - 308)
  termination_by e

/-- The double near `± significand · 10 ^ e`, unless it is too large. -/
def scaled? (negative : Bool) (significand : Nat) (e : Int) : Option Number :=
  let x := significand.toUInt64.toFloat
  let y? :=
    if e < 0 then some (scaleDown x e.natAbs)
    else if e ≤ 308 then
      let y := x * powerOfTen e.natAbs
      if y.isInf then none else some y
    else if significand = 0 then some x else none
  y?.map fun y => .float (.ofFloat (if negative then -y else y))

/-- The number of an integer numeral: minus zero and what is below the signed 64-bit range are doubles. -/
def integerNumber (negative : Bool) (n : Nat) : Number :=
  if !negative then .int n
  else if 1 ≤ n && n ≤ int64Bound.toNat then .int (-n)
  else .float (.ofFloat (-n.toUInt64.toFloat))

/-- Where the exponents end that are taken as they are: those of 32 signed bits. -/
def exponentBound : Nat := 2147483648

/-- The number that a numeral stands for, or none if it is too large for a double. An exponent beyond 32
bits makes the number zero or too large, whatever its digits are. -/
def Numeral.number? (n : Numeral) : Option Number :=
  let (significand, left) := absorb 0 n.whole
  match n.fraction, n.exponent with
  | none, none =>
    if left = 0 then some (integerNumber n.negative significand)
    else scaled? n.negative significand left
  | fraction, exponent =>
    let fs := fraction.getD []
    let (significand, unread) := absorb significand fs
    let shift : Int := left - (fs.length - unread : Nat)
    match exponent with
    | none => scaled? n.negative significand shift
    | some (down, ds) =>
      let e := ofDigits 10 ds
      if e < exponentBound then
        scaled? n.negative significand (if down then shift - e else shift + e)
      else if significand ≠ 0 && !down then none
      else scaled? n.negative 0 0

end StageFlow.Json
