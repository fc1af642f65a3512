/-!
# Digits

Naturals written in decimal and hexadecimal, and read back.

## Contents
- **Digit values.** `digitValue?` reads one digit of a base up to sixteen.
- **Numerals.** `decimal` and `hex` write a natural; `ofDigits` gives the value of a digit list.
-/

namespace StageFlow.Text

/-! ## Digit values -/

/-- Is `c` one of the ten ASCII digits? -/
def isDecimalDigit (c : Char) : Bool := '0' ≤ c && c ≤ '9'

/-- The value of a hexadecimal digit of either case. -/
def hexValue? (c : Char) : Option Nat :=
  if isDecimalDigit c then some (c.toNat - '0'.toNat)
  else if 'a' ≤ c && c ≤ 'f' then some (c.toNat - 'a'.toNat + 10)
  else if 'A' ≤ c && c ≤ 'F' then some (c.toNat - 'A'.toNat + 10)
  else none

/-- The value of a digit in a base of at most sixteen. -/
def digitValue? (base : Nat) (c : Char) : Option Nat :=
  (hexValue? c).filter (· < base)

/-- The value of a decimal digit; other characters count as zero. -/
def digitValue (c : Char) : Nat := (digitValue? 10 c).getD 0

/-! ## Numerals -/

/-- The value of a list of digits, most significant first. -/
def ofDigits (base : Nat) (ds : List Nat) : Nat := ds.foldl (fun n d => n * base + d) 0

/-- The value of a numeral, if every character is a digit and there is at least one. -/
def ofNumeral? (base : Nat) (cs : List Char) : Option Nat :=
  if cs.isEmpty then none else (cs.mapM (digitValue? base)).map (ofDigits base)

/-- A natural in decimal. -/
def decimal (n : Nat) : List Char :=
  if n < 10 then [Nat.digitChar n] else decimal (n / 10) ++ [Nat.digitChar (n % 10)]

/-- An integer in decimal, with a minus sign where it is negative. -/
def signedDecimal (i : Int) : List Char :=
  if i < 0 then '-' :: decimal i.natAbs else decimal i.natAbs

/-- The last `width` hexadecimal digits of a natural, in lower case. -/
def hex : (width : Nat) → Nat → List Char
  | 0, _ => []
  | width + 1, n => hex width (n / 16) ++ [Nat.digitChar (n % 16)]

/-- How many hexadecimal digits a natural has. -/
def hexWidth (n : Nat) : Nat := if n < 16 then 1 else hexWidth (n / 16) + 1

end StageFlow.Text
