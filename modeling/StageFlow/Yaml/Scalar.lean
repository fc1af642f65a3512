import StageFlow.Decimal.Layout
import StageFlow.Text.Digits
import StageFlow.Value

/-!
# YAML scalars

What a plain scalar stands for, and which texts cannot be written as plain scalars.

## Contents
- **Words.** The spellings of null and of the truth values.
- **Numbers.** `integer?` and `float?`.
- **Resolution.** `resolve`, the value of a plain scalar.
- **Quoting.** `needsQuotes`, and `doubleQuoted`.
-/

namespace StageFlow.Yaml

open Text

/-! ## Words -/

/-- The spellings of null. -/
def nullWords : List String := ["~", "null", "Null", "NULL"]

/-- The spellings of true. -/
def trueWords : List String := ["true", "True", "TRUE"]

/-- The spellings of false. -/
def falseWords : List String := ["false", "False", "FALSE"]

/-- The spellings of infinity, without a sign. -/
def infinityWords : List String := [".inf", ".Inf", ".INF"]

/-- The spellings of NaN. -/
def nanWords : List String := [".nan", ".NaN", ".NAN"]

/-! ## Numbers -/

/-- A sign at the front of a text: whether it is a minus, and what follows. -/
def splitSign : List Char → Bool × List Char
  | '-' :: cs => (true, cs)
  | '+' :: cs => (false, cs)
  | cs => (false, cs)

/-- The integer that digits with an optional sign are. -/
def signed? (base : Nat) (cs : List Char) : Option Int :=
  let (negative, ds) := splitSign cs
  (ofNumeral? base ds).map fun n => if negative then -Int.ofNat n else Int.ofNat n

/-- The integer that a text is, if it fits 64 signed bits: decimal, or hexadecimal or octal behind `0x` or
`0o`. A sign stands in front of the digits. -/
def integer? (cs : List Char) : Option Int :=
  let n? := match cs with
    | '0' :: 'x' :: ds | '0' :: 'X' :: ds => signed? 16 ds
    | '0' :: 'o' :: ds | '0' :: 'O' :: ds => signed? 8 ds
    | cs => signed? 10 cs
  n?.filter fun n => -int64Bound ≤ n && n < int64Bound

/-- The double nearest to `± m · 10 ^ e`. Beyond the range of doubles it is infinite or zero. -/
def nearest (negative : Bool) (m : Nat) (e : Int) : Float :=
  let size : Int := Decimal.digitCount m
  let x :=
    if m = 0 || size + e < -400 then 0
    else if 400 < size + e then 1 / 0
    else Float.ofScientific m (e < 0) e.natAbs
  if negative then -x else x

/-- The exponent at the end of a decimal; none if there is something else. -/
def exponent? : List Char → Option Int
  | [] => some 0
  | c :: cs => if c = 'e' || c = 'E' then signed? 10 cs else none

/-- The double that a decimal text is: digits with a point in front, between or behind, and an exponent; or
one of the words for infinity and NaN. -/
def float? (cs : List Char) : Option Float :=
  let (negative, cs) := splitSign cs
  let word := String.ofList (cs.map Char.toLower)
  if word = "inf" || word = "infinity" then some (if negative then -1 / 0 else 1 / 0)
  else if word = "nan" then some (0 / 0)
  else
    let whole := cs.takeWhile isDecimalDigit
    let rest := cs.dropWhile isDecimalDigit
    let (fraction, rest) := match rest with
      | '.' :: rest => (rest.takeWhile isDecimalDigit, rest.dropWhile isDecimalDigit)
      | rest => ([], rest)
    if whole.isEmpty && fraction.isEmpty then none
    else
      (exponent? rest).map fun e =>
        nearest negative (ofDigits 10 ((whole ++ fraction).map digitValue)) (e - fraction.length)

/-! ## Resolution -/

/-- A sign and one of the words for infinity, or a word for NaN. -/
def special? (s : String) : Option Float :=
  let (negative, cs) := splitSign s.toList
  if String.ofList cs ∈ infinityWords then some (if negative then -1 / 0 else 1 / 0)
  else if s ∈ nanWords then some (0 / 0)
  else none

/-- The value of a plain scalar. -/
def resolve (s : String) : Value :=
  if s.isEmpty || s ∈ nullWords then .null
  else if s ∈ trueWords then .bool true
  else if s ∈ falseWords then .bool false
  else
    match integer? s.toList with
    | some n => .int n
    | none =>
      match (special? s).or (float? s.toList) with
      | some x => .number (.float (.ofFloat x))
      | none => .text s

/-! ## Quoting -/

/-- Characters that mean something else at the front of a scalar. -/
def indicators : List Char :=
  [' ', '-', '&', '*', '!', '|', '>', '%', '@', '\x60', '\x7b', '\x7d', '[', ']', ',', '?', '\'', '"']

/-- Words that would not be read as text. -/
def reservedWords : List String :=
  ["true", "false", "null", "~", "True", "False", "TRUE", "FALSE", "Null", "NULL"]

/-- Might the text be taken for a number? -/
def looksNumeric (s : String) : Bool :=
  (match s.toList.dropWhile fun c => c = '+' || c = '-' with
    | '.' :: c :: _ => isDecimalDigit c
    | c :: _ => isDecimalDigit c
    | [] => false) ||
  decide (String.ofList (splitSign s.toList).2 ∈ infinityWords) || decide (s ∈ nanWords)

/-- Is every character a letter, digit or one of `_ - . /`, all ASCII? -/
def isSimple (s : String) : Bool :=
  s.toList.all fun c => c.isAlphanum || c = '_' || c = '-' || c = '.' || c = '/'

/-- Would the text, if written as a plain scalar, be read as something else? -/
def needsQuotes (s : String) : Bool :=
  s.isEmpty ||
  decide (s ∈ reservedWords) || looksNumeric s ||
  (!isSimple s &&
    ((s.toList.head?.any fun c => decide (c ∈ indicators)) ||
      s.toList.getLast? = some ' ' ||
      s.toList.any fun c => c = ':' || c = '#' || (c.toNat < 0x20 && c ≠ '\t')))

/-- One character between double quotes. -/
def escape (c : Char) : List Char :=
  if c = '"' || c = '\\' then ['\\', c]
  else if c = '\n' then ['\\', 'n']
  else if c = '\r' then ['\\', 'r']
  else if c = '\t' then ['\\', 't']
  else if c = '\x00' then ['\\', '0']
  else if c.toNat < 0x20 then
    '\\' :: 'x' :: (hex 2 c.toNat).map Char.toUpper
  else [c]

/-- A text between double quotes. -/
def doubleQuoted (s : String) : List Char := '"' :: (s.toList.flatMap escape ++ ['"'])

end StageFlow.Yaml
