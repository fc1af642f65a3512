import StageFlow.Text.Digits
import StageFlow.Term

/-!
# JSON string literals

Text between double quotes in JSON: reading it, and writing it with the fewest escapes.

## Contents
- **Reading.** `readLiteral`, from behind the opening quote.
- **Writing.** `literal`.
-/

namespace StageFlow.Json

open Text

/-! ## Reading -/

/-- The character that an escape of one letter stands for. -/
def simpleEscape? : Char → Option Char
  | '"' => some '"'
  | '\\' => some '\\'
  | '/' => some '/'
  | 'b' => some '\x08'
  | 'f' => some '\x0c'
  | 'n' => some '\n'
  | 'r' => some '\r'
  | 't' => some '\t'
  | _ => none

/-- A literal taken off the front of a text: closed, with its content and what follows, or broken off. -/
inductive LiteralText
  | closed (content : Quotation) (rest : List Char)
  | broken (cut : Cut)

/-- Four hexadecimal digits at the front of a text. With fewer than four bytes left the text has ended
inside the literal. -/
def readHex4 (cs : List Char) : Except Fault (Nat × List Char) :=
  match cs with
  | a :: b :: c :: d :: rest =>
    match ofNumeral? 16 [a, b, c, d] with
    | some n => .ok (n, rest)
    | none => .error .invalidEscape
  | cs => .error (if 4 ≤ (String.ofList cs).utf8ByteSize then .invalidEscape else .endInText)

/-- What `\u` and four digits of value `n` in front of `rest` stand for. A leading surrogate takes the
trailing one that has to follow with it. The second part is the text behind. -/
def readCodePoint (n : Nat) (rest : List Char) : Except Fault (Char × List Char) :=
  if 0xdc00 ≤ n && n ≤ 0xdfff then .error .loneSurrogate
  else if n < 0xd800 || 0xdbff < n then .ok (Char.ofNat n, rest)
  else
    match rest with
    | [] => .error .endInText
    | '\\' :: [] => .error .endInText
    | '\\' :: 'u' :: cs => do
      let (low, cs) ← readHex4 cs
      if 0xdc00 ≤ low && low ≤ 0xdfff then
        .ok (Char.ofNat (0x10000 + (n - 0xd800) * 0x400 + (low - 0xdc00)), cs)
      else .error .loneSurrogate
    | _ => .error .unfinishedSurrogate

/-- What has been read of a literal: its characters in reverse, or its first fault. -/
abbrev LiteralSoFar := Except Fault (List Char)

/-- The literal breaks off with a fault that every reader sees, unless there was one before. -/
def LiteralSoFar.breakOff (soFar : LiteralSoFar) (f : Fault) : LiteralText :=
  match soFar with
  | .ok _ => .broken { strict := f }
  | .error first => .broken { strict := first, lenient := f }

/-- Adds a character. -/
def LiteralSoFar.push (soFar : LiteralSoFar) (c : Char) : LiteralSoFar := soFar.map (c :: ·)

/-- Reads a literal from behind its opening quote. `fuel` bounds the characters looked at. -/
def readLiteralFrom : (fuel : Nat) → LiteralSoFar → List Char → LiteralText
  | 0, soFar, _ => soFar.breakOff .endInText
  | fuel + 1, soFar, cs =>
    match cs with
    | [] => soFar.breakOff .endInText
    | '"' :: rest => .closed (soFar.map fun s => String.ofList s.reverse) rest
    | '\\' :: [] => soFar.breakOff .endInText
    | '\\' :: 'u' :: rest =>
      match readHex4 rest with
      | .error f => soFar.breakOff f
      | .ok (n, rest) =>
        match soFar with
        | .error _ => readLiteralFrom fuel soFar rest
        | .ok _ =>
          match readCodePoint n rest with
          | .ok (c, rest) => readLiteralFrom fuel (soFar.push c) rest
          | .error f => readLiteralFrom fuel (.error f) rest
    | '\\' :: e :: rest =>
      match simpleEscape? e with
      | some c => readLiteralFrom fuel (soFar.push c) rest
      | none => soFar.breakOff .invalidEscape
    | c :: rest =>
      if c.toNat < 0x20 then soFar.breakOff .controlCharacter
      else readLiteralFrom fuel (soFar.push c) rest

/-- Reads a literal from behind its opening quote. -/
def readLiteral (fuel : Nat) (cs : List Char) : LiteralText := readLiteralFrom fuel (.ok []) cs

/-! ## Writing -/

/-- One character inside a literal. Only quotes, backslashes and controls are escaped. -/
def escape (c : Char) : List Char :=
  if c = '"' then ['\\', '"']
  else if c = '\\' then ['\\', '\\']
  else if c = '\x08' then ['\\', 'b']
  else if c = '\x0c' then ['\\', 'f']
  else if c = '\n' then ['\\', 'n']
  else if c = '\r' then ['\\', 'r']
  else if c = '\t' then ['\\', 't']
  else if c.toNat < 0x20 then '\\' :: 'u' :: hex 4 c.toNat
  else [c]

/-- A text as a literal, quotes included. -/
def literal (s : String) : List Char := '"' :: (s.toList.flatMap escape ++ ['"'])

end StageFlow.Json
