import StageFlow.Text.Space
import StageFlow.Yaml.Printer
import StageFlow.Yaml.Term

/-!
# Composing YAML documents

The term of a document with its tags and merges applied. A key of any type is taken as text, and of two entries
of a map with one key the later stays. Names may be used no more than ten times as often as nodes are named.

## Contents
- **Tags.** `applyTag`.
- **Keys.** `keyText`, the text of a term that is a key.
- **Maps.** `mergedEntries` and `addMissing`, what the key `<<` brings in.
- **Composition.** `Node.compose`.
-/

namespace StageFlow.Yaml

/-! ## Tags -/

/-- The type that a tag names, if it names one of the types of scalars. -/
def scalarType? (tag : String) : Option String :=
  ["str", "int", "float", "bool", "null"].find? fun name =>
    tag = "tag:yaml.org,2002:" ++ name || tag = "!" ++ name

/-- A scalar with a tag, if it can have it. A tag that names no type keeps the scalar from being anything but a
text, and from being read where plain data is expected. -/
def applyTag (tag text : String) : Option Term :=
  if tag = "!" then some (.text (.ok text))
  else
    match scalarType? tag, resolve (String.ofList (Text.trimSpace text.toList)) with
    | some "str", _ => some (.text (.ok text))
    | some "int", .number (.int n) => some (.number (some (.int n)))
    | some "float", .number (.int n) => some (.number (some (.float (.ofFloat (.ofInt n)))))
    | some "float", .number (.float x) => some (.number (some (.float x)))
    | some "bool", .bool b => some (.bool b)
    | some "null", .null => some .null
    | some _, _ => none
    | none, _ => some (.foreign text)

/-! ## Keys -/

mutual

/-- The text of a term that is a key. -/
def keyText : Term → List Char
  | .null => "null".toList
  | .bool b => (if b then "true" else "false").toList
  | .number (some (.int n)) => Text.signedDecimal n
  | .number (some (.float x)) =>
    if x.isFinite then floatLayout.render x
    else if x.fractionBits != 0 then "NaN".toList
    else if x.isNegative then "-inf".toList
    else "inf".toList
  | .text (.ok s) | .foreign s => s.toList
  | .list items _ => '[' :: (keyTextOfItems items ++ [']'])
  | .map entries _ => '\x7b' :: (keyTextOfEntries entries ++ ['\x7d'])
  | _ => []

/-- The texts of items, with commas between them. -/
def keyTextOfItems : List Term → List Char
  | [] => []
  | [t] => keyText t
  | t :: ts => keyText t ++ ',' :: ' ' :: keyTextOfItems ts

/-- The texts of entries, with commas between them. -/
def keyTextOfEntries : List (Key × Term) → List Char
  | [] => []
  | [(k, t)] => (k.text.toOption.getD "").toList ++ ':' :: ' ' :: keyText t
  | (k, t) :: es =>
    (k.text.toOption.getD "").toList ++ ':' :: ' ' :: (keyText t ++ ',' :: ' ' :: keyTextOfEntries es)

end

/-! ## Maps -/

/-- The entries of maps, by key. -/
abbrev Entries := List (String × Term)

/-- The map of some entries. -/
def Entries.toTerm (es : Entries) : Term := .map (es.map fun e => (⟨.ok e.1, none⟩, e.2)) .closed

/-- The entries of a term that is a map; null counts as one without entries. -/
def entries? : Term → Option Entries
  | .null => some []
  | .map es _ => some (es.map fun e => (e.1.text.toOption.getD "", e.2))
  | _ => none

/-- The entries that a merge brings in: those of a map, or of each map in a list. -/
def mergedEntries : Term → Option Entries
  | .list items _ => (items.mapM entries?).map List.flatten
  | t => entries? t

/-- Adds entries whose keys are not there yet. -/
def addMissing (own : Entries) : Entries → Entries
  | [] => own
  | (k, t) :: es =>
    if (Assoc.lookup k own).isSome then addMissing own es else addMissing (own ++ [(k, t)]) es

/-! ## Composition -/

/-- The named terms so far, the latest first, how many nodes were named, and how often names have been used. -/
structure Bindings where
  known : List (String × Term) := []
  anchors : Nat := 0
  uses : Nat := 0

/-- Names a term. -/
def Bindings.add (name : String) (t : Term) (b : Bindings) : Bindings :=
  { b with known := (name, t) :: b.known, anchors := b.anchors + 1 }

/-- Uses a name; none if no node has it or too many uses were made of names. -/
def Bindings.use (name : String) (b : Bindings) : Option (Term × Bindings) :=
  let uses := b.uses + 1
  if 1024 < uses || 10 * b.anchors < uses then none
  else (Assoc.lookup name b.known).map (·, { b with uses })

mutual

/-- The term of a node with tags and merges applied, and the names known behind it. -/
def Node.compose (b : Bindings) : Node → Option (Term × Bindings)
  | .scalar s true => some (.ofValue (resolve s), b)
  | .scalar s false => some (.text (.ok s), b)
  | .list items => do
    let (ts, b) ← composeItems b items
    return (.list ts .closed, b)
  | .map entries => do
    let (own, merged, b) ← composeEntries b [] entries
    return ((addMissing own merged).toTerm, b)
  | .anchored name n => do
    let (t, b) ← n.compose b
    return (t, b.add name t)
  | .aliased name => b.use name
  | .tagged tag (.scalar s _) => do
    let t ← applyTag tag s
    return (t, b)
  | .tagged _ n => n.compose b

/-- The terms of the items of a list. -/
def composeItems (b : Bindings) : List Node → Option (List Term × Bindings)
  | [] => some ([], b)
  | n :: ns => do
    let (t, b) ← n.compose b
    let (ts, b) ← composeItems b ns
    return (t :: ts, b)

/-- The entries that a map has of its own, added to those before, and those that merges bring in. -/
def composeEntries (b : Bindings) (own : Entries) :
    List (Node × Node) → Option (Entries × Entries × Bindings)
  | [] => some (own, [], b)
  | (k, n) :: es => do
    let (key, b) ← k.compose b
    let (t, b) ← n.compose b
    let name := String.ofList (keyText key)
    if name = "<<" then
      let brought ← mergedEntries t
      let (own, merged, b) ← composeEntries b own es
      return (own, brought ++ merged, b)
    else composeEntries b (Assoc.insert name t own) es

end

/-- The term of a document with its tags and merges applied. -/
def Node.composed? (n : Node) : Option Term := (n.compose {}).map (·.1)

end StageFlow.Yaml
