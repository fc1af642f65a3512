import StageFlow.Yaml.Block
import StageFlow.Yaml.Plain
import StageFlow.Yaml.Quoted

/-!
# YAML tokens

A YAML text as the list of its marks and scalars. Where indentation opens or closes a list or map there is a
token for it, and so there is in front of a key that only the colon behind it shows to be one.

## Contents
- **Types.** `Tag`, `Directive` and `Token`.
- **State.** `Scan`, with the candidates for keys and the indentation of open collections.
- **Keys and indentation.** `saveCandidate`, `dropCandidate`, `roll` and `unroll`.
- **White space.** `skipToToken`.
- **Tokens.** One function for each kind of mark, and `Scan.fetch`.
- **Texts.** `tokens`.
-/

namespace StageFlow.Yaml

/-! ## Types -/

/-- A tag as it is written. -/
inductive Tag
  /-- In full, between angles. -/
  | verbatim (name : String)
  /-- Behind a handle, for which something else is to be put. -/
  | named (handle suffix : String)

/-- A line in front of a document. -/
inductive Directive
  | version
  /-- What stands for a handle in tags. -/
  | handle (name expansion : String)
  | other

/-- A mark or scalar. -/
inductive Token
  | directive (d : Directive)
  | documentStart
  | documentEnd
  | textEnd
  /-- A list opens by indentation. -/
  | listStart
  /-- A map opens by indentation. -/
  | mapStart
  /-- A list or map closes by indentation. -/
  | blockEnd
  | openBracket
  | closeBracket
  | openBrace
  | closeBrace
  | comma
  | dash
  | keyMark
  | valueMark
  | anchor (name : String)
  | aliased (name : String)
  | tag (t : Tag)
  | scalar (text : String) (isPlain : Bool)
  /-- The text cannot be read any further. -/
  | broken

/-! ## State -/

/-- A token that may turn out to start a key. -/
structure Candidate where
  /-- Can nothing but a key stand there? -/
  required : Bool
  /-- The number of tokens before it. -/
  index : Nat
  line : Nat
  column : Nat

/-- How far a text has been read. -/
structure Scan where
  cursor : Cursor
  /-- The tokens so far, the latest first. -/
  tokens : List Token := []
  count : Nat := 0
  /-- The columns of the lists and maps that are open by indentation, the innermost first. -/
  indents : List Nat := []
  /-- For each open bracket, the innermost first, the token that may start a key between it and the next; the
  last is for the text outside of brackets. -/
  candidates : List (Option Candidate) := [none]
  /-- May a key start here? -/
  keyAllowed : Bool := true

namespace Scan

/-- Is a bracket open? -/
def inFlow (s : Scan) : Bool := s.candidates.length > 1

/-- The column of the innermost list or map that is open by indentation. -/
def indent (s : Scan) : Int :=
  match s.indents with
  | [] => -1
  | column :: _ => column

/-- Adds a token. -/
def push (t : Token) (s : Scan) : Scan := { s with tokens := t :: s.tokens, count := s.count + 1 }

/-- Adds a token behind which so many others stand. -/
def insertBefore (index : Nat) (t : Token) (s : Scan) : Scan :=
  let behind := s.count - index
  { s with tokens := s.tokens.take behind ++ t :: s.tokens.drop behind, count := s.count + 1 }

/-- Goes on behind so many characters. -/
def skip (n : Nat) (s : Scan) : Scan := { s with cursor := s.cursor.skip n }

/-- Allows or forbids a key to start here. -/
def allowKey (allowed : Bool) (s : Scan) : Scan := { s with keyAllowed := allowed }

/-! ## Keys and indentation -/

/-- Gives up the innermost candidate, which must not be one that has to be a key. -/
def dropCandidate (s : Scan) : Option Scan :=
  match s.candidates with
  | [] => some s
  | c :: cs => if c.any (·.required) then none else some { s with candidates := none :: cs }

/-- Notes that the next token may start a key. -/
def saveCandidate (s : Scan) : Option Scan :=
  if s.keyAllowed then do
    let s ← s.dropCandidate
    let c : Candidate :=
      { required := !s.inFlow && s.indent = s.cursor.column, index := s.count, line := s.cursor.line,
        column := s.cursor.column }
    return { s with candidates := some c :: s.candidates.drop 1 }
  else some s

/-- Gives up candidates on earlier lines, since a key stands on one line. -/
def dropStale (s : Scan) : Option Scan :=
  let isStale : Option Candidate → Bool := fun c => c.any (·.line < s.cursor.line)
  if s.candidates.any fun c => isStale c && c.any (·.required) then none
  else some { s with candidates := s.candidates.map fun c => if isStale c then none else c }

/-- Closes the lists and maps that are indented by more than a column. -/
def unrollFrom (column : Int) : List Nat → Scan → Scan
  | [], s => { s with indents := [] }
  | i :: is, s =>
    if column < i then unrollFrom column is (s.push .blockEnd) else { s with indents := i :: is }

/-- Closes the lists and maps that end in front of a column. -/
def unroll (column : Int) (s : Scan) : Scan :=
  if s.inFlow then s else unrollFrom column s.indents s

/-- Opens a list or map at a column, unless one is open there; its token goes behind the first `index`. -/
def roll (column index : Nat) (t : Token) (s : Scan) : Scan :=
  if !s.inFlow && s.indent < column then
    { s.insertBefore index t with indents := column :: s.indents }
  else s

end Scan

/-! ## White space -/

/-- Does a line start here whose text, between brackets, is indented no more than the surroundings? -/
def Cursor.isOutdented (indent : Int) (c : Cursor) : Bool :=
  c.skipSpaces.column ≤ indent && !c.skipBlanks.rest.isEmpty && !c.skipBlanks.atBreak

/-- Passes over white space and comments. Outside of brackets lines below the first may not start with a tab,
and no key starts behind one. -/
def skipToToken : (fuel : Nat) → Scan → Option Scan
  | 0, _ => none
  | fuel + 1, s =>
    match s.cursor.rest with
    | [] => some s
    | x :: _ =>
      if x = ' ' || (x = '\t' && s.inFlow) then skipToToken fuel (s.skip 1)
      else if x = '\t' then
        if !s.cursor.fresh then skipToToken fuel ((s.skip 1).allowKey false)
        else if s.cursor.line = 0 then skipToToken fuel (s.skip 1)
        else none
      else if isBreak x then
        let s := s.skip 1
        if !s.inFlow then skipToToken fuel (s.allowKey true)
        else if s.cursor.isOutdented s.indent then none
        else skipToToken fuel s
      else if x = '#' && s.cursor.spaced then skipToToken fuel { s with cursor := s.cursor.skipLine }
      else some s

/-! ## Tokens -/

/-- The characters of a name or tag, and what follows them. -/
def takeName (cs : List Char) : List Char :=
  cs.takeWhile fun c => !(isBlank c || isBreak c || isFlowMark c)

/-- Can a name or tag end in front of this text? -/
def endsName (inFlow : Bool) (cs : List Char) : Bool := endsWord cs || (inFlow && cs.head?.any isFlowEnd)

/-- The handle and suffix of a tag from behind its first exclamation mark. -/
def Tag.ofName (name : List Char) : Tag :=
  match name with
  | '!' :: suffix => .named "!!" (String.ofList suffix)
  | name =>
    if name.contains '!' then
      .named (String.ofList ('!' :: (name.takeWhile (· ≠ '!') ++ ['!'])))
        (String.ofList ((name.dropWhile (· ≠ '!')).drop 1))
    else .named "!" (String.ofList name)

/-- The words of a line in front of its comment. -/
def words : (fuel : Nat) → List Char → List (List Char)
  | 0, _ => []
  | fuel + 1, cs =>
    match cs.dropWhile isBlank with
    | [] => []
    | '#' :: _ => []
    | cs => cs.takeWhile (fun c => !isBlank c) :: words fuel (cs.dropWhile fun c => !isBlank c)

/-- Is the word two numbers with a point between them? -/
def isVersion (cs : List Char) : Bool :=
  let isNumber : List Char → Bool := fun ds => !ds.isEmpty && ds.all Text.isDecimalDigit
  isNumber (cs.takeWhile (· ≠ '.')) && isNumber ((cs.dropWhile (· ≠ '.')).drop 1)

/-- The directive of a line from behind its percent sign. -/
def directive? (line : List Char) : Option Directive :=
  match words line.length line with
  | name :: arguments =>
    if name = "YAML".toList then
      match arguments with
      | [version] => if isVersion version then some .version else none
      | _ => none
    else if name = "TAG".toList then
      match arguments with
      | [name, expansion] => some (.handle (String.ofList name) (String.ofList expansion))
      | _ => none
    else some .other
  | [] => none

namespace Scan

/-- Reads a directive. -/
def fetchDirective (s : Scan) : Option Scan := do
  let d ← directive? (s.cursor.next.rest.takeWhile fun x => !isBreak x)
  let s ← (s.unroll (-1)).dropCandidate
  return ({ s with cursor := s.cursor.skipLine }.allowKey false).push (.directive d)

/-- Reads the marker of a document. -/
def fetchMarker (s : Scan) : Option Scan := do
  if s.inFlow then none
  let s ← (s.unroll (-1)).dropCandidate
  let t : Token := if s.cursor.rest.head? = some '-' then .documentStart else .documentEnd
  return ((s.skip 3).allowKey false).push t

/-- Comes to the end of the text. -/
def fetchEnd (s : Scan) : Option Scan := do
  let s ← (s.unroll (-1)).dropCandidate
  return s.push .textEnd

/-- Reads an opening bracket or brace. -/
def fetchOpen (t : Token) (s : Scan) : Option Scan := do
  let s ← s.saveCandidate
  return (({ s with candidates := none :: s.candidates }.skip 1).allowKey true).push t

/-- Reads a closing bracket or brace. -/
def fetchClose (t : Token) (s : Scan) : Option Scan := do
  if !s.inFlow then none
  let s ← s.dropCandidate
  return (({ s with candidates := s.candidates.drop 1 }.skip 1).allowKey false).push t

/-- Reads a comma. -/
def fetchComma (s : Scan) : Option Scan := do
  let s ← s.dropCandidate
  return ((s.skip 1).allowKey true).push .comma

/-- Reads the dash of a list item. -/
def fetchDash (s : Scan) : Option Scan := do
  if s.inFlow || !s.keyAllowed then none
  let s ← (s.roll s.cursor.column s.count .listStart).dropCandidate
  return ((s.skip 1).allowKey true).push .dash

/-- Reads the mark in front of a key. -/
def fetchKey (s : Scan) : Option Scan := do
  if !s.inFlow && !s.keyAllowed then none
  let s ← (s.roll s.cursor.column s.count .mapStart).dropCandidate
  return ((s.skip 1).allowKey !s.inFlow).push .keyMark

/-- Reads the colon in front of a value. If there is a candidate, that was the key. -/
def fetchValue (s : Scan) : Option Scan :=
  match s.candidates with
  | some c :: cs =>
    let s := (s.insertBefore c.index .keyMark).roll c.column c.index .mapStart
    some ((({ s with candidates := none :: cs }.skip 1).allowKey false).push .valueMark)
  | _ =>
    if !s.inFlow && !s.keyAllowed then none
    else
      let s := s.roll s.cursor.column s.count .mapStart
      some (((s.skip 1).allowKey !s.inFlow).push .valueMark)

/-- Reads a name behind an ampersand or an asterisk. -/
def fetchName (token : String → Token) (s : Scan) : Option Scan := do
  let s ← s.saveCandidate
  let name := takeName s.cursor.next.rest
  let s := s.skip (name.length + 1)
  if name.isEmpty || !endsName s.inFlow s.cursor.rest then none
  return (s.allowKey false).push (token (String.ofList name))

/-- Reads a tag. One in full goes up to its closing angle, or to the end of the text. -/
def fetchTag (s : Scan) : Option Scan := do
  let s ← s.saveCandidate
  match s.cursor.next.rest with
  | '<' :: cs =>
    let name := cs.takeWhile (· ≠ '>')
    let s := s.skip (name.length + 3)
    return (s.allowKey false).push (.tag (.verbatim (String.ofList name)))
  | cs =>
    let name := takeName cs
    let s := s.skip (name.length + 1)
    if endsName s.inFlow s.cursor.rest then
      return (s.allowKey false).push (.tag (Tag.ofName name))
    else none

/-- Reads a block scalar. -/
def fetchBlock (fuel : Nat) (isFolded : Bool) (s : Scan) : Option Scan := do
  let s ← s.dropCandidate
  let (text, cursor) ← readBlock isFolded s.indent fuel s.cursor.next
  return ({ s with cursor }.allowKey true).push (.scalar (String.ofList text) false)

/-- Reads a quoted scalar. -/
def fetchQuoted (read : Cursor → Option (List Char × Cursor)) (s : Scan) : Option Scan := do
  let s ← s.saveCandidate
  let (text, cursor) ← read s.cursor.next
  return ({ s with cursor }.allowKey false).push (.scalar (String.ofList text) false)

/-- Reads a plain scalar. -/
def fetchPlain (fuel : Nat) (s : Scan) : Option Scan := do
  let s ← s.saveCandidate
  let (text, cursor) := readPlain s.inFlow s.indent fuel [] s.cursor
  return ({ s with cursor }.allowKey false).push (.scalar (String.ofList text) true)

/-- Was the latest token something in quotes or brackets? -/
def isBehindQuoteOrBracket (s : Scan) : Bool :=
  match s.tokens with
  | .scalar _ false :: _ | .closeBracket :: _ | .closeBrace :: _ => true
  | _ => false

/-- Does a colon in front of this text come before a value? -/
def isValueColon (s : Scan) (rest : List Char) : Bool :=
  endsWord rest || (s.inFlow && (rest.head?.any isFlowEnd || s.isBehindQuoteOrBracket))

/-- Reads the next token. -/
def fetch (fuel : Nat) (s : Scan) : Option Scan := do
  let s ← skipToToken fuel s
  let s ← s.dropStale
  let s := s.unroll s.cursor.column
  match s.cursor.rest with
  | [] => s.fetchEnd
  | x :: rest =>
    if s.cursor.column = 0 && x = '%' then s.fetchDirective
    else if s.cursor.isMarker then s.fetchMarker
    else if x = '[' then s.fetchOpen .openBracket
    else if x = '\x7b' then s.fetchOpen .openBrace
    else if x = ']' then s.fetchClose .closeBracket
    else if x = '\x7d' then s.fetchClose .closeBrace
    else if x = ',' then s.fetchComma
    else if x = '-' && endsWord rest then s.fetchDash
    else if x = '?' && endsWord rest then s.fetchKey
    else if x = ':' && s.isValueColon rest then s.fetchValue
    else if x = '*' then s.fetchName .aliased
    else if x = '&' then s.fetchName .anchor
    else if x = '!' then s.fetchTag
    else if (x = '|' || x = '>') && !s.inFlow then s.fetchBlock fuel (x = '>')
    else if x = '\'' then s.fetchQuoted (readSingle s.indent fuel [])
    else if x = '"' then s.fetchQuoted (readDouble s.indent fuel [])
    else if startsPlain s.inFlow (x :: rest) then s.fetchPlain fuel
    else none

/-- Reads tokens up to the end of the text, or to where it cannot be read any further. -/
def run (fuel : Nat) : (steps : Nat) → Scan → List Token
  | 0, s => (.broken :: s.tokens).reverse
  | steps + 1, s =>
    match s.fetch fuel with
    | none => (.broken :: s.tokens).reverse
    | some s =>
      match s.tokens with
      | .textEnd :: _ => s.tokens.reverse
      | _ => run fuel steps s

end Scan

/-! ## Texts -/

/-- The tokens of a text. -/
def tokens (text : String) : List Token :=
  let cs := unifyBreaks text.toList
  Scan.run (cs.length + 2) (cs.length + 2) { cursor := Cursor.start cs }

end StageFlow.Yaml
