import StageFlow.Text.Digits
import StageFlow.Yaml.Cursor

/-!
# Quoted YAML scalars

Reading scalars between single or double quotes. A line break inside one is folded: it becomes a space, or
as many line breaks as there are blank lines behind it. The lines below the first have to be indented by more
than the surroundings.

## Contents
- **Lines.** `Cursor.isOutside`, a line that cannot go on with a scalar.
- **Single quotes.** `readSingle`.
- **Double quotes.** `readDouble`, with escapes.
-/

namespace StageFlow.Yaml

open Text

/-! ## Lines -/

/-- Can a line with text from this column on, where the place stands, be no part of a scalar in surroundings of
this indentation? -/
def Cursor.isOutside (indent : Int) (column : Nat) (c : Cursor) : Bool := column ≤ indent || c.isMarker

/-! ## Single quotes -/

/-- Reads a scalar from behind its opening single quote; the text read so far is reversed. -/
def readSingle (indent : Int) : (fuel : Nat) → List Char → Cursor → Option (List Char × Cursor)
  | 0, _, _ => none
  | fuel + 1, soFar, c =>
    match c.rest with
    | [] => none
    | '\'' :: '\'' :: _ => readSingle indent fuel ('\'' :: soFar) (c.skip 2)
    | '\'' :: _ => some (soFar.reverse, c.next)
    | x :: _ =>
      if isBlank x || isBreak x then
        match skipBreaks (fuel + 1) c with
        | (0, _, behind) =>
          readSingle indent fuel ((c.rest.takeWhile isBlank).reverse ++ soFar) behind
        | (breaks, column, behind) =>
          if behind.isOutside indent column then none
          else readSingle indent fuel ((folded breaks).reverse ++ soFar) behind
      else readSingle indent fuel (x :: soFar) c.next

/-! ## Double quotes -/

/-- The character of an escape of one letter. -/
def simpleEscape? : Char → Option Char
  | '0' => some '\x00'
  | 'a' => some '\x07'
  | 'b' => some '\x08'
  | 't' | '\t' => some '\t'
  | 'n' => some '\n'
  | 'v' => some '\x0b'
  | 'f' => some '\x0c'
  | 'r' => some '\r'
  | 'e' => some '\x1b'
  | ' ' => some ' '
  | '"' => some '"'
  | '/' => some '/'
  | '\\' => some '\\'
  | 'N' => some '\x85'
  | '_' => some '\xa0'
  | 'L' => some '\u2028'
  | 'P' => some '\u2029'
  | _ => none

/-- How many digits follow the letter of an escape by code point. -/
def codeWidth? : Char → Option Nat
  | 'x' => some 2
  | 'u' => some 4
  | 'U' => some 8
  | _ => none

/-- The code point at the front of a text, in hexadecimal digits. -/
def codePoint? (width : Nat) (cs : List Char) : Option Nat :=
  if (cs.take width).length = width then ofNumeral? 16 (cs.take width) else none

/-- The character of an escape by code point, and how many characters the escape takes behind its letter. Two
escapes of four digits may be the halves of a surrogate pair. -/
def readCode (width : Nat) (cs : List Char) : Option (Char × Nat) := do
  let n ← codePoint? width cs
  if n.isValidChar then return (Char.ofNat n, width)
  match width, cs.drop width with
  | 4, '\\' :: 'u' :: more =>
    let low ← codePoint? 4 more
    if 0xd800 ≤ n && n < 0xdc00 && 0xdc00 ≤ low && low < 0xe000 then
      return (Char.ofNat (0x10000 + (n - 0xd800) * 0x400 + (low - 0xdc00)), 10)
    else none
  | _, _ => none

/-- Reads a scalar from behind its opening double quote; the text read so far is reversed. Behind a backslash a
line break is left out, with the blanks at the start of the next line. -/
def readDouble (indent : Int) : (fuel : Nat) → List Char → Cursor → Option (List Char × Cursor)
  | 0, _, _ => none
  | fuel + 1, soFar, c =>
    match c.rest with
    | [] => none
    | '"' :: _ => some (soFar.reverse, c.next)
    | '\\' :: [] => none
    | '\\' :: e :: rest =>
      if isBreak e then readDouble indent fuel soFar (c.skip 2).skipBlanks
      else
        match codeWidth? e with
        | some width => do
          let (x, taken) ← readCode width rest
          readDouble indent fuel (x :: soFar) (c.skip (taken + 2))
        | none => do
          let x ← simpleEscape? e
          readDouble indent fuel (x :: soFar) (c.skip 2)
    | x :: _ =>
      if isBlank x || isBreak x then
        match skipBreaks (fuel + 1) c with
        | (0, _, behind) =>
          readDouble indent fuel ((c.rest.takeWhile isBlank).reverse ++ soFar) behind
        | (breaks, column, behind) =>
          if behind.isOutside indent column then none
          else readDouble indent fuel ((folded breaks).reverse ++ soFar) behind
      else readDouble indent fuel (x :: soFar) c.next

end StageFlow.Yaml
