/-!
# Places in YAML text

A place in a text with what YAML makes of it: the line, the column, and what stands before it.

## Contents
- **Characters.** `isBlank`, `isBreak` and `isFlowMark`.
- **Type.** `Cursor`, with `next`, `skip` and `skipBlanks`.
- **Words and markers.** `endsWord` and `Cursor.isMarker`.
- **Line breaks.** `skipBreaks`, and `folded`, which says what they become.
-/

namespace StageFlow.Yaml

/-! ## Characters -/

/-- A space or a tab. -/
def isBlank (c : Char) : Bool := c = ' ' || c = '\t'

/-- A character that ends a line. A carriage return alone does, too, but columns go on behind it. -/
def isBreak (c : Char) : Bool := c = '\n' || c = '\r'

/-- Characters that have a meaning of their own between brackets. -/
def isFlowMark (c : Char) : Bool :=
  c = ',' || c = '[' || c = ']' || c = '\x7b' || c = '\x7d'

/-- Characters that can stand behind a whole item or entry between brackets. -/
def isFlowEnd (c : Char) : Bool := c = ',' || c = ']' || c = '\x7d'

/-! ## Type -/

/-- A place in a text. -/
structure Cursor where
  rest : List Char
  line : Nat := 0
  column : Nat := 0
  /-- Is there nothing but blanks before it in its line? -/
  fresh : Bool := true
  /-- Does it stand behind white space or at the start of a line? -/
  spaced : Bool := true

namespace Cursor

/-- The start of a text. A byte order mark is passed over, but takes a column. -/
def start (cs : List Char) : Cursor :=
  match cs with
  | '\ufeff' :: cs => { rest := cs, column := 1 }
  | cs => { rest := cs }

/-- The place behind one more character. -/
def next (c : Cursor) : Cursor :=
  match c.rest with
  | [] => c
  | x :: cs =>
    if x = '\n' then { rest := cs, line := c.line + 1 }
    else
      { rest := cs, line := c.line, column := c.column + 1, fresh := c.fresh && isBlank x,
        spaced := isBlank x || isBreak x }

/-- The place so many characters further. -/
def skip : Nat → Cursor → Cursor
  | 0, c => c
  | n + 1, c => skip n c.next

/-- The place behind the spaces. -/
def skipSpaces (c : Cursor) : Cursor := skip (c.rest.takeWhile (· = ' ')).length c

/-- The place behind the spaces and tabs. -/
def skipBlanks (c : Cursor) : Cursor := skip (c.rest.takeWhile isBlank).length c

/-- The end of the line. -/
def skipLine (c : Cursor) : Cursor := skip (c.rest.takeWhile fun x => !isBreak x).length c

/-- Does a line break stand here? -/
def atBreak (c : Cursor) : Bool := c.rest.head?.any isBreak

end Cursor

/-! ## Words and markers -/

/-- Is the text at its end, or does a blank or a line break follow? -/
def endsWord (cs : List Char) : Bool := cs.head?.all fun c => isBlank c || isBreak c

/-- Does a document start or end here? -/
def Cursor.isMarker (c : Cursor) : Bool :=
  c.column = 0 && (c.rest.take 3 = ['-', '-', '-'] || c.rest.take 3 = ['.', '.', '.']) &&
    endsWord (c.rest.drop 3)

/-! ## Line breaks -/

/-- Passes over line breaks with nothing but blanks between them. Gives how many there are, the column where
the spaces of the last line end, and the place behind its blanks. -/
def skipBreaks : (fuel : Nat) → Cursor → Nat × Nat × Cursor
  | 0, c => (0, c.column, c)
  | fuel + 1, c =>
    let behind := c.skipBlanks
    if behind.atBreak then
      let (breaks, column, behind) := skipBreaks fuel behind.next
      (breaks + 1, column, behind)
    else (0, c.skipSpaces.column, behind)

/-- What so many line breaks in a row are folded into: one becomes a space, and of more the first is left
out. -/
def folded (breaks : Nat) : List Char :=
  if breaks = 1 then [' '] else List.replicate (breaks - 1) '\n'

/-- The same text with a line feed for each carriage return and line feed. -/
def unifyBreaks : List Char → List Char
  | '\r' :: '\n' :: cs => '\n' :: unifyBreaks cs
  | c :: cs => c :: unifyBreaks cs
  | [] => []

end StageFlow.Yaml
