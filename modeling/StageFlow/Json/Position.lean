import StageFlow.Json.Reader

/-!
# Positions in JSON text

Where in a text the place is that a fault names, as a line and a column.

## Contents
- **Passing over data.** `pastTerm`, `pastKey` and `pastColon`, `pastItems` and `pastEntries`.
- **Positions.** `Spot.rest?`, the text behind a place, and `Position`.
-/

namespace StageFlow

namespace Json

/-! ## Passing over data -/

/-- What follows the term at the front of a text. -/
def pastTerm (cs : List Char) : List Char := (readTerm (2 * cs.length + 2) cs).2

/-- What follows the first character behind the white space at the front of a text. -/
def pastFirst (cs : List Char) : List Char := (skipBlank cs).drop 1

/-- What follows the key at the front of a text. -/
def pastKey (cs : List Char) : List Char :=
  match readLiteral (cs.length + 1) (pastFirst cs) with
  | .closed _ rest => rest
  | .broken _ => []

/-- What follows the key and the colon at the front of a text. -/
def pastColon (cs : List Char) : List Char := pastFirst (pastKey cs)

/-- What follows so many items of a list, each with the comma behind it. -/
def pastItems : (count : Nat) → List Char → List Char
  | 0, cs => cs
  | n + 1, cs => pastItems n (pastFirst (pastTerm cs))

/-- What follows so many entries of a map, each with the comma behind it. -/
def pastEntries : (count : Nat) → List Char → List Char
  | 0, cs => cs
  | n + 1, cs => pastEntries n (pastFirst (pastTerm (pastColon cs)))

end Json

/-! ## Positions -/

open Json

/-- What follows a place in a text. -/
def Spot.rest? : Spot → List Char → Option (List Char)
  | unknown, _ => none
  | head, cs =>
    match skipBlank cs with
    | '[' :: rest => some ('[' :: rest)
    | '\x7b' :: rest => some ('\x7b' :: rest)
    | rest => some (pastTerm rest)
  | first, cs => some (pastFirst cs)
  | stop, cs => some (pastTerm cs)
  | behind, cs => some (pastFirst (pastTerm cs))
  | key index, cs => some (pastKey (pastEntries index (pastFirst cs)))
  | item index inner, cs => inner.rest? (pastItems index (pastFirst cs))
  | entry index inner, cs => inner.rest? (pastColon (pastEntries index (pastFirst cs)))

/-- A position in a text: the number of its line, from one, and the number of bytes of the line in front of
it. -/
structure Position where
  line : Nat
  column : Nat
  deriving DecidableEq, Repr

/-- The position behind some text. -/
def Position.behind (front : List Char) : Position where
  line := front.count '\n' + 1
  column := (String.ofList (front.reverse.takeWhile (· ≠ '\n'))).utf8ByteSize

/-- The position in words. -/
def Position.describe (p : Position) : String :=
  String.ofList ("line ".toList ++ Text.decimal p.line ++ " column ".toList ++ Text.decimal p.column)

/-- The position of a place in a text. -/
def Spot.position? (s : Spot) (cs : List Char) : Option Position :=
  (s.rest? cs).map fun rest => .behind (cs.take (cs.length - rest.length))

end StageFlow
