import StageFlow.Yaml.Scalar

/-!
# Writing YAML text

Values as block-style YAML, two spaces for each level and no line break at the end.

## Contents
- **Texts.** `text`: plain, quoted, or a literal block if there are line breaks.
- **Collections.** `block`, which starts each line of a collection with its line break.
- **Documents.** `render?`; integers beyond 63 bits cannot be written.
-/

namespace StageFlow.Yaml

/-! ## Texts -/

/-- A line break and the indentation of a level. -/
def newline (level : Nat) : List Char := '\n' :: List.replicate (2 * level) ' '

/-- The pieces of a text between its line breaks. -/
def pieces : List Char → List (List Char)
  | [] => [[]]
  | c :: cs =>
    if c = '\n' then [] :: pieces cs
    else
      match pieces cs with
      | [] => [[c]]
      | l :: ls => (c :: l) :: ls

/-- A line without one carriage return at its end. -/
def chomp (line : List Char) : List Char :=
  if line.getLast? = some '\r' then line.dropLast else line

/-- The lines of a text. A carriage return in front of a line break belongs to the break; a line break at the
end opens no further line. -/
def lines (cs : List Char) : List (List Char) :=
  let ls := pieces cs
  ls.dropLast.map chomp ++ (ls.drop (ls.length - 1)).filter fun l => !l.isEmpty

/-- How many line breaks a text ends with. -/
def finalBreaks (cs : List Char) : Nat := (cs.reverse.takeWhile (· = '\n')).length

/-- A text with line breaks as a literal block inside a level. The mark behind the bar says how many of the
last line breaks belong to the text. -/
def literalBlock (level : Nat) (cs : List Char) : List Char :=
  let breaks := finalBreaks cs
  '|' :: ((if breaks = 0 then ['-'] else if breaks = 1 then [] else ['+']) ++
    (lines cs).flatMap (fun l => newline (level + 1) ++ l) ++ List.replicate breaks '\n')

/-- A text at a level. -/
def text (level : Nat) (s : String) : List Char :=
  if s.toList.contains '\n' then literalBlock level s.toList
  else if needsQuotes s then doubleQuoted s
  else s.toList

/-! ## Collections -/

/-- Doubles in YAML text: positional from `0.0001` up to sixteen digits before the point. -/
def floatLayout : Decimal.Layout := ⟨-4, 16, false, .up⟩

/-- A number. -/
def number : Number → List Char
  | .int n => Text.signedDecimal n
  | .float x => floatLayout.render x

/-- Does the value take lines of its own? -/
def isBlock : Value → Bool
  | .list items => !items.isEmpty
  | .map entries => !entries.isEmpty
  | _ => false

mutual

/-- A value at a level. The lines of a collection that is not empty each start with a line break. -/
def block (level : Nat) : Value → List Char
  | .null => ['n', 'u', 'l', 'l']
  | .bool true => ['t', 'r', 'u', 'e']
  | .bool false => ['f', 'a', 'l', 's', 'e']
  | .number n => number n
  | .text s => text level s
  | .list [] => ['[', ']']
  | .list items => blockItems level items
  | .map [] => ['\x7b', '\x7d']
  | .map entries => blockEntries level entries

/-- The items of a list, each behind a dash on a line of its own. A map that is an item starts on the line of
the dash. -/
def blockItems (level : Nat) : List Value → List Char
  | [] => []
  | .map ((k, v) :: es) :: vs =>
    newline level ++ '-' :: ' ' :: (text (level + 1) k ++ ':' :: ' ' ::
      (block (if isBlock v then level + 2 else level + 1) v ++
        (itemEntries level es ++ blockItems level vs)))
  | v :: vs => newline level ++ '-' :: ' ' :: (block (level + 1) v ++ blockItems level vs)

/-- The entries, from the second on, of a map that is an item of a list. -/
def itemEntries (level : Nat) : List (String × Value) → List Char
  | [] => []
  | (k, v) :: es =>
    newline (level + 1) ++ (text (level + 1) k ++ ':' :: ' ' ::
      (block (if isBlock v then level + 2 else level + 1) v ++ itemEntries level es))

/-- The entries of a map, each on a line of its own. -/
def blockEntries (level : Nat) : List (String × Value) → List Char
  | [] => []
  | (k, v) :: es =>
    newline level ++ (text level k ++ ':' ::
      ((if isBlock v then block (level + 1) v else ' ' :: block level v) ++ blockEntries level es))

end

/-! ## Documents -/

mutual

/-- Can the value be written? -/
def isWritable : Value → Bool
  | .number (.int n) => n < int64Bound
  | .list items => writableItems items
  | .map entries => writableEntries entries
  | _ => true

/-- Can all items be written? -/
def writableItems : List Value → Bool
  | [] => true
  | v :: vs => isWritable v && writableItems vs

/-- Can the values of all entries be written? -/
def writableEntries : List (String × Value) → Bool
  | [] => true
  | (_, v) :: es => isWritable v && writableEntries es

end

/-- A value as YAML text. The line break in front of the first line is left out. -/
def render? (v : Value) : Option String :=
  if isWritable v then
    some (String.ofList (if isBlock v then (block 0 v).drop 1 else block 0 v))
  else none

end StageFlow.Yaml
