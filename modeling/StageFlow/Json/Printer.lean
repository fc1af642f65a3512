import StageFlow.Json.Literal
import StageFlow.Text.Digits

/-!
# Writing JSON text

Values as JSON text, in two layouts: compact, without any white space, and indented by two spaces for
each level.

## Contents
- **Scalars.** `number`.
- **Layouts.** `compact` and `indented`.
-/

namespace StageFlow.Json

open Text

/-! ## Scalars -/

/-- A number. -/
def number : Number → List Char
  | .int n => signedDecimal n
  | .float x => Decimal.jsonLayout.render x

/-! ## Layouts -/

mutual

/-- A value without white space. -/
def compact : Value → List Char
  | .null => ['n', 'u', 'l', 'l']
  | .bool true => ['t', 'r', 'u', 'e']
  | .bool false => ['f', 'a', 'l', 's', 'e']
  | .number n => number n
  | .text s => literal s
  | .list items => '[' :: compactItems items
  | .map entries => '\x7b' :: compactEntries entries

/-- The items of a list and its closing bracket. -/
def compactItems : List Value → List Char
  | [] => [']']
  | [v] => compact v ++ [']']
  | v :: vs => compact v ++ ',' :: compactItems vs

/-- The entries of a map and its closing brace. -/
def compactEntries : List (String × Value) → List Char
  | [] => ['\x7d']
  | [(k, v)] => literal k ++ ':' :: (compact v ++ ['\x7d'])
  | (k, v) :: es => literal k ++ ':' :: (compact v ++ ',' :: compactEntries es)

end

/-- A line break and the indentation of a level. -/
def newline (level : Nat) : List Char := '\n' :: List.replicate (2 * level) ' '

/-- The comma behind an item, unless it is the last. -/
def commaUnless (last : Bool) : List Char := if last then [] else [',']

mutual

/-- A value at a level, with every item and entry on a line of its own. -/
def indented (level : Nat) : Value → List Char
  | .null => ['n', 'u', 'l', 'l']
  | .bool true => ['t', 'r', 'u', 'e']
  | .bool false => ['f', 'a', 'l', 's', 'e']
  | .number n => number n
  | .text s => literal s
  | .list [] => ['[', ']']
  | .list items => '[' :: indentedItems level items
  | .map [] => ['\x7b', '\x7d']
  | .map entries => '\x7b' :: indentedEntries level entries

/-- The items of a list at a level, each behind a line break, and its closing bracket. -/
def indentedItems (level : Nat) : List Value → List Char
  | [] => newline level ++ [']']
  | v :: vs =>
    newline (level + 1) ++ (indented (level + 1) v ++ (commaUnless vs.isEmpty ++ indentedItems level vs))

/-- The entries of a map at a level, each behind a line break, and its closing brace. -/
def indentedEntries (level : Nat) : List (String × Value) → List Char
  | [] => newline level ++ ['\x7d']
  | (k, v) :: es =>
    newline (level + 1) ++ (literal k ++ ':' :: ' ' ::
      (indented (level + 1) v ++ (commaUnless es.isEmpty ++ indentedEntries level es)))

end

/-- A value as compact text. -/
def compactText (v : Value) : String := String.ofList (compact v)

/-- A value as indented text. -/
def indentedText (v : Value) : String := String.ofList (indented 0 v)

end StageFlow.Json
