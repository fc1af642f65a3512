import StageFlow.Text.Digits
import StageFlow.Yaml.Cursor

/-!
# Block scalars

Scalars whose text stands on the lines below, indented. A literal keeps its line breaks; a folded scalar
turns a break between two lines of equal standing into a space. The last line counts as ended even if the text
stops there.

## Contents
- **Header.** `Chomping`, `Header` and `readHeader`.
- **Lines.** `BlockLine`, `skipBlankLines` and `readLines`.
- **Text.** `Header.join` and `readBlock`.
-/

namespace StageFlow.Yaml

/-! ## Header -/

/-- What becomes of the line breaks at the end. -/
inductive Chomping
  | strip
  | clip
  | keep
  deriving DecidableEq

/-- The marks at the head of a block scalar. -/
structure Header where
  isFolded : Bool
  chomping : Chomping := .clip
  /-- How much deeper than its surroundings the text is indented, where that is said. -/
  indentation : Option Nat := none

/-- Reads the marks behind the bar or angle: one digit and one sign at most, in any order. -/
def readMarks (h : Header) : (fuel : Nat) → Cursor → Option (Header × Cursor)
  | 0, c => some (h, c)
  | fuel + 1, c =>
    match c.rest with
    | [] => some (h, c)
    | x :: _ =>
      if x = '-' || x = '+' then
        if h.chomping ≠ .clip then none
        else readMarks { h with chomping := if x = '-' then .strip else .keep } fuel c.next
      else if Text.isDecimalDigit x then
        if h.indentation.isSome || x = '0' then none
        else readMarks { h with indentation := some (Text.digitValue x) } fuel c.next
      else some (h, c)

/-- Passes over the rest of the line behind the marks: blanks, and a comment behind one. Text that stands there
is the first of the scalar. -/
def endHeader (c : Cursor) : Option Cursor :=
  let c := c.skipBlanks
  match c.rest with
  | '#' :: _ => if c.spaced then some c.skipLine.next else none
  | _ => some (if c.atBreak then c.next else c)

/-! ## Lines -/

/-- A line of text with the number of blank lines behind it. -/
structure BlockLine where
  text : List Char
  blanks : Nat

/-- Passes over lines of nothing but spaces, no more than `most` of them. Gives how many lines there are, and
the widest. -/
def skipBlankLines (most : Option Nat) : (fuel : Nat) → Cursor → Nat × Nat × Cursor
  | 0, c => (0, 0, c)
  | fuel + 1, c =>
    let behind := c.skipSpaces
    if behind.atBreak && most.all (behind.column ≤ ·) then
      let (lines, width, c) := skipBlankLines most fuel behind.next
      (lines + 1, max behind.column width, c)
    else (0, 0, c)

/-- Reads lines that are indented by `indent` or more, up to the first that is not. -/
def readLines (indent : Nat) : (fuel : Nat) → Cursor → List BlockLine × Cursor
  | 0, c => ([], c)
  | fuel + 1, c =>
    let start := c.skip (min (c.rest.takeWhile (· = ' ')).length (indent - c.column))
    if start.rest.isEmpty || start.column < indent || start.isMarker then ([], c)
    else
      let text := start.rest.takeWhile fun x => !isBreak x
      let (blanks, _, below) := skipBlankLines (some indent) fuel start.skipLine.next
      let (lines, rest) := readLines indent fuel below
      (⟨text, blanks⟩ :: lines, rest)

/-! ## Text -/

/-- The text of lines, of which the break behind the last one is left out. `before` is the break that stands
open in front of the first: none at the start, otherwise the number of blank lines and whether the line before
it starts with a blank. -/
def joinLines (isFolded : Bool) : (before : Option (Nat × Bool)) → List BlockLine → List Char
  | _, [] => []
  | before, l :: ls =>
    let startsBlank := l.text.head?.any isBlank
    let gap := match before with
      | none => []
      | some (blanks, wasBlank) =>
        if isFolded && !wasBlank && !startsBlank then
          if blanks = 0 then [' '] else List.replicate blanks '\n'
        else List.replicate (blanks + 1) '\n'
    gap ++ l.text ++ joinLines isFolded (some (l.blanks, startsBlank)) ls

/-- The text of a block scalar: blank lines in front, its lines, and what chomping leaves of the end. -/
def Header.join (h : Header) (leading : Nat) (ls : List BlockLine) : List Char :=
  match ls.getLast? with
  | none => List.replicate (if h.chomping = .keep then leading else 0) '\n'
  | some l =>
    List.replicate leading '\n' ++ joinLines h.isFolded none ls ++
      match h.chomping with
      | .strip => []
      | .clip => ['\n']
      | .keep => List.replicate (l.blanks + 1) '\n'

/-- Reads a block scalar from behind its bar or angle, in surroundings of an indentation. Blank lines in front
of the text may not be wider than its indentation. -/
def readBlock (isFolded : Bool) (indent : Int) (fuel : Nat) (c : Cursor) : Option (List Char × Cursor) := do
  let (h, c) ← readMarks { isFolded } 3 c
  let c ← endHeader c
  let (leading, width, first) := skipBlankLines none fuel c
  let inner := match h.indentation with
    | some n => indent.toNat + n
    | none => max (indent + 1).toNat first.skipSpaces.column
  if width > inner then none
  let (lines, rest) := readLines inner fuel first
  return (h.join leading lines, rest)

end StageFlow.Yaml
