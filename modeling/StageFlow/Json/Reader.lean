import StageFlow.Json.Literal
import StageFlow.Json.Numeral

/-!
# Reading JSON text

From characters to terms. Nothing is refused here: where the text stops being JSON the term is cut, and
whoever needs the value learns of it then.

## Contents
- **Words and blanks.** `skipBlank`, `readWord`.
- **Terms.** `readTerm`, `readItems` and `readEntries`.
- **Documents.** `Document.ofText` and `Document.read`.
-/

namespace StageFlow.Json

/-! ## Words and blanks -/

/-- The white space of JSON. -/
def isBlank (c : Char) : Bool := c = ' ' || c = '\n' || c = '\t' || c = '\r'

/-- What follows the white space at the front of a text. -/
def skipBlank (cs : List Char) : List Char := cs.dropWhile isBlank

/-- Reads the rest of a word that stands for a term. -/
def readWord (t : Term) : List Char → List Char → Term × List Char
  | [], cs => (t, cs)
  | _ :: _, [] => (.cut { strict := .endInValue, variant := .expectedValue }, [])
  | w :: ws, c :: cs =>
    if c = w then readWord t ws cs
    else (.cut { strict := .expectedWord, variant := .expectedValue }, [])

/-! ## Terms -/

mutual

/-- Reads one term from the front of a text, and gives what follows it. `fuel` has to exceed twice the
number of characters left. -/
def readTerm : (fuel : Nat) → List Char → Term × List Char
  | 0, _ => (.cut { strict := .endInValue }, [])
  | fuel + 1, cs =>
    match skipBlank cs with
    | [] => (.cut { strict := .endInValue }, [])
    | 'n' :: cs => readWord .null ['u', 'l', 'l'] cs
    | 't' :: cs => readWord (.bool true) ['r', 'u', 'e'] cs
    | 'f' :: cs => readWord (.bool false) ['a', 'l', 's', 'e'] cs
    | '"' :: cs =>
      match readLiteral (fuel + 1) cs with
      | .closed s rest => (.text s, rest)
      | .broken c => (.cut c, [])
    | '[' :: cs =>
      match skipBlank cs with
      | [] => (.list [] .ended, [])
      | ']' :: rest => (.list [] .closed, rest)
      | cs =>
        let (items, stop, rest) := readItems fuel cs
        (.list items stop, rest)
    | '\x7b' :: cs =>
      match skipBlank cs with
      | [] => (.map [] .ended, [])
      | '\x7d' :: rest => (.map [] .closed, rest)
      | '"' :: cs =>
        let (entries, stop, rest) := readEntries fuel cs
        (.map entries stop, rest)
      | cs => (.map [] (.strayKey (readTerm fuel cs).1.found), [])
    | c :: cs =>
      if c = '-' || Text.isDecimalDigit c then
        match readNumeral (c :: cs) with
        | .ok (n, rest) => (.number n.number?, rest)
        | .error c => (.cut c, [])
      else (.cut { strict := .expectedValue }, [])

/-- Reads the items of a list, the first of which starts here, up to the end of the list. -/
def readItems : (fuel : Nat) → List Char → List Term × ListEnd × List Char
  | 0, _ => ([], .ended, [])
  | fuel + 1, cs =>
    let (t, rest) := readTerm fuel cs
    if !t.isWhole then ([t], .within, [])
    else
      match skipBlank rest with
      | [] => ([t], .ended, [])
      | ']' :: rest => ([t], .closed, rest)
      | ',' :: rest =>
        match skipBlank rest with
        | [] => ([t], .commaThenEnd, [])
        | ']' :: _ => ([t], .commaThenClose, [])
        | rest =>
          let (ts, stop, rest) := readItems fuel rest
          (t :: ts, stop, rest)
      | _ => ([t], .junk, [])

/-- Reads the entries of a map, from behind the opening quote of the first key, up to the end of the
map. -/
def readEntries : (fuel : Nat) → List Char → List (Key × Term) × MapEnd × List Char
  | 0, _ => ([], .ended, [])
  | fuel + 1, cs =>
    match readLiteral (fuel + 1) cs with
    | .broken c => ([], .brokenKey c, [])
    | .closed key rest =>
      match skipBlank rest with
      | [] => ([], .noColon key .endInObject, [])
      | ':' :: rest =>
        let (t, rest) := readTerm fuel rest
        if !t.isWhole then ([(⟨key, none⟩, t)], .within, [])
        else
          match skipBlank rest with
          | [] => ([(⟨key, none⟩, t)], .ended, [])
          | '\x7d' :: rest => ([(⟨key, none⟩, t)], .closed, rest)
          | ',' :: rest =>
            match skipBlank rest with
            | [] => ([(⟨key, none⟩, t)], .commaThenEnd, [])
            | '\x7d' :: _ => ([(⟨key, none⟩, t)], .commaThenClose, [])
            | '"' :: rest =>
              let (es, stop, rest) := readEntries fuel rest
              ((⟨key, none⟩, t) :: es, stop, rest)
            | _ => ([(⟨key, none⟩, t)], .commaThenJunk, [])
          | _ => ([(⟨key, none⟩, t)], .junk, [])
      | _ => ([], .noColon key .expectedColon, [])

end

/-! ## Documents -/

/-- A whole JSON text: its term, and whether anything but white space follows. -/
structure Document where
  term : Term
  trailing : Bool

/-- The document of a text. -/
def Document.ofText (cs : List Char) : Document :=
  let (t, rest) := readTerm (2 * cs.length + 2) cs
  ⟨t, !(skipBlank rest).isEmpty⟩

/-- Reads data off a document; what follows the term is looked at last. -/
def Document.read {α : Type} (d : Document) (reader : Term → Except PlacedFault α) :
    Except PlacedFault α := do
  let a ← reader d.term
  if d.trailing then .error (Fault.trailingCharacters.at .unknown)
  return a

end StageFlow.Json
