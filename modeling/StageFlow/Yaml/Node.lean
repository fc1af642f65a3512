import StageFlow.Assoc
import StageFlow.Yaml.Token

/-!
# YAML nodes

What a YAML text denotes before tags and names are looked at: scalars as written, lists, maps, and nodes that
have a tag or are named to be used again further down.

## Contents
- **Type.** `Node`.
- **Tags.** `Tag.resolve?`.
- **Grammar.** `readNode` and the collections.
- **Documents.** `document?`, the first document of a text.
-/

namespace StageFlow.Yaml

/-! ## Type -/

/-- A piece of YAML. -/
inductive Node
  /-- A scalar. One without quotes may stand for something other than its text. -/
  | scalar (text : String) (isPlain : Bool)
  | list (items : List Node)
  | map (entries : List (Node × Node))
  /-- A node that can be used again under a name. -/
  | anchored (name : String) (node : Node)
  /-- The node with the name. -/
  | aliased (name : String)
  | tagged (tag : String) (node : Node)

/-- The node where nothing is written. -/
def Node.nothing : Node := .scalar "" true

/-! ## Tags -/

/-- What handles stand for, the latest first. -/
abbrev Handles := List (String × String)

/-- What the two handles stand for that need no directive. -/
def baseHandles : Handles := [("!", "!"), ("!!", "tag:yaml.org,2002:")]

/-- The tag in full, if its handle is known. -/
def Tag.resolve? (handles : Handles) : Tag → Option String
  | verbatim name => some name
  | named handle suffix => (Assoc.lookup handle handles).map (· ++ suffix)

/-! ## Grammar -/

/-- Does a list item end in front of these tokens? -/
def endsItem : List Token → Bool
  | .dash :: _ | .blockEnd :: _ => true
  | _ => false

/-- Does a key or value end in front of these tokens? -/
def endsEntry : List Token → Bool
  | .keyMark :: _ | .valueMark :: _ | .blockEnd :: _ => true
  | _ => false

/-- Does an item or entry between brackets end in front of these tokens? -/
def endsFlow : List Token → Bool
  | .valueMark :: _ | .comma :: _ | .closeBracket :: _ | .closeBrace :: _ => true
  | _ => false

mutual

/-- Reads a node. Collections by indentation can stand there if `block`, and a list whose dashes are not
indented if `flat`. -/
def readNode (handles : Handles) (block flat : Bool) : (fuel : Nat) → List Token → Option (Node × List Token)
  | 0, _ => none
  | fuel + 1, ts =>
    match ts with
    | .aliased name :: ts => some (.aliased name, ts)
    | .anchor name :: .tag t :: ts | .tag t :: .anchor name :: ts => do
      let tag ← t.resolve? handles
      let (n?, ts) ← readContent handles block flat fuel ts
      match n? with
      | some n => return (.anchored name (.tagged tag n), ts)
      | none => return (.tagged tag .nothing, ts)
    | .anchor name :: ts => do
      let (n?, ts) ← readContent handles block flat fuel ts
      match n? with
      | some n => return (.anchored name n, ts)
      | none => return (.nothing, ts)
    | .tag t :: ts => do
      let tag ← t.resolve? handles
      let (n?, ts) ← readContent handles block flat fuel ts
      return (.tagged tag (n?.getD .nothing), ts)
    | ts => do
      let (n?, ts) ← readContent handles block flat fuel ts
      return (← n?, ts)

/-- Reads what a node is apart from its name and tag, if anything is written. -/
def readContent (handles : Handles) (block flat : Bool) :
    (fuel : Nat) → List Token → Option (Option Node × List Token)
  | 0, _ => none
  | fuel + 1, ts =>
    match ts, block, flat with
    | .scalar text isPlain :: ts, _, _ => some (some (.scalar text isPlain), ts)
    | .openBracket :: ts, _, _ => (flowItems handles fuel ts).map fun (ns, ts) => (some (.list ns), ts)
    | .openBrace :: ts, _, _ => (flowEntries handles fuel ts).map fun (es, ts) => (some (.map es), ts)
    | .listStart :: ts, true, _ => (indentedItems handles fuel ts).map fun (ns, ts) => (some (.list ns), ts)
    | .mapStart :: ts, true, _ => (indentedEntries handles fuel ts).map fun (es, ts) => (some (.map es), ts)
    | .dash :: ts, _, true => (flatItems handles fuel (.dash :: ts)).map fun (ns, ts) => (some (.list ns), ts)
    | ts, _, _ => some (none, ts)

/-- Reads the items of a list by indentation. -/
def indentedItems (handles : Handles) : (fuel : Nat) → List Token → Option (List Node × List Token)
  | 0, _ => none
  | fuel + 1, ts =>
    match ts with
    | .blockEnd :: ts => some ([], ts)
    | .dash :: ts => do
      let (n, ts) ← if endsItem ts then some (.nothing, ts) else readNode handles true false fuel ts
      let (ns, ts) ← indentedItems handles fuel ts
      return (n :: ns, ts)
    | _ => none

/-- Reads the items of a list whose dashes stand in the column of the map around it. -/
def flatItems (handles : Handles) : (fuel : Nat) → List Token → Option (List Node × List Token)
  | 0, _ => none
  | fuel + 1, ts =>
    match ts with
    | .dash :: ts => do
      let (n, ts) ←
        if endsItem ts || endsEntry ts then some (.nothing, ts) else readNode handles true false fuel ts
      let (ns, ts) ← flatItems handles fuel ts
      return (n :: ns, ts)
    | ts => some ([], ts)

/-- Reads the entries of a map by indentation. A key or a value may be missing. -/
def indentedEntries (handles : Handles) : (fuel : Nat) → List Token → Option (List (Node × Node) × List Token)
  | 0, _ => none
  | fuel + 1, ts =>
    match ts with
    | .blockEnd :: ts => some ([], ts)
    | .keyMark :: ts => do
      let (k, ts) ← if endsEntry ts then some (.nothing, ts) else readNode handles true true fuel ts
      let (v, ts) ← indentedValue handles fuel ts
      let (es, ts) ← indentedEntries handles fuel ts
      return ((k, v) :: es, ts)
    | .valueMark :: ts => do
      let (v, ts) ← indentedValue handles fuel (.valueMark :: ts)
      let (es, ts) ← indentedEntries handles fuel ts
      return ((.nothing, v) :: es, ts)
    | _ => none

/-- Reads the value of an entry of a map by indentation. -/
def indentedValue (handles : Handles) : (fuel : Nat) → List Token → Option (Node × List Token)
  | 0, _ => none
  | fuel + 1, ts =>
    match ts with
    | .valueMark :: ts => if endsEntry ts then some (.nothing, ts) else readNode handles true true fuel ts
    | ts => some (.nothing, ts)

/-- Reads a node between brackets, which may be missing. -/
def flowNode (handles : Handles) : (fuel : Nat) → List Token → Option (Node × List Token)
  | 0, _ => none
  | fuel + 1, ts => if endsFlow ts then some (.nothing, ts) else readNode handles false false fuel ts

/-- Reads the value of an entry between brackets, if there is one. -/
def flowValue (handles : Handles) : (fuel : Nat) → List Token → Option (Node × List Token)
  | 0, _ => none
  | fuel + 1, ts =>
    match ts with
    | .valueMark :: ts => flowNode handles fuel ts
    | ts => some (.nothing, ts)

/-- Reads the items of a list up to its closing bracket. An item may be a map of one entry without braces. -/
def flowItems (handles : Handles) : (fuel : Nat) → List Token → Option (List Node × List Token)
  | 0, _ => none
  | fuel + 1, ts =>
    match ts with
    | .closeBracket :: ts => some ([], ts)
    | ts => do
      let (n, ts) ← match ts with
        | .keyMark :: ts => do
          let (k, ts) ← flowNode handles fuel ts
          let (v, ts) ← flowValue handles fuel ts
          some (.map [(k, v)], ts)
        | .valueMark :: ts => do
          let (v, ts) ← flowNode handles fuel ts
          some (.map [(.nothing, v)], ts)
        | ts => readNode handles false false fuel ts
      match ts with
      | .comma :: ts => do
        let (ns, ts) ← flowItems handles fuel ts
        return (n :: ns, ts)
      | .closeBracket :: ts => return ([n], ts)
      | _ => none

/-- Reads the entries of a map up to its closing brace. A key may stand without a value. -/
def flowEntries (handles : Handles) : (fuel : Nat) → List Token → Option (List (Node × Node) × List Token)
  | 0, _ => none
  | fuel + 1, ts =>
    match ts with
    | .closeBrace :: ts => some ([], ts)
    | ts => do
      let (k, ts) ← match ts with
        | .keyMark :: ts => flowNode handles fuel ts
        | .valueMark :: ts => some (.nothing, .valueMark :: ts)
        | ts => readNode handles false false fuel ts
      let (v, ts) ← flowValue handles fuel ts
      match ts with
      | .comma :: ts => do
        let (es, ts) ← flowEntries handles fuel ts
        return ((k, v) :: es, ts)
      | .closeBrace :: ts => return ([(k, v)], ts)
      | _ => none

end

/-! ## Documents -/

/-- The directives at the front of some tokens, one of which may give the version, and the tokens behind. -/
def directives : List Token → List Directive × List Token
  | .directive d :: ts =>
    let (ds, ts) := directives ts
    (d :: ds, ts)
  | ts => ([], ts)

/-- What a directive says on handles. -/
def Directive.handle? : Directive → Option (String × String)
  | handle name expansion => some (name, expansion)
  | _ => none

/-- Does a document end in front of these tokens? -/
def endsDocument : List Token → Bool
  | .documentStart :: _ | .documentEnd :: _ | .textEnd :: _ => true
  | _ => false

/-- The node of the first document of some tokens. Behind directives the start of the document is marked. -/
def documentOf? (ts : List Token) : Option Node := do
  let (ds, ts) := directives (ts.dropWhile fun t => match t with | .documentEnd => true | _ => false)
  let ts ← match ts with
    | .documentStart :: ts => some ts
    | ts => if ds.isEmpty then some ts else none
  if endsDocument ts then some .nothing
  else
    let (n, ts) ← readNode (ds.reverse.filterMap Directive.handle? ++ baseHandles) true false
      (3 * ts.length + 3) ts
    if endsDocument ts then some n else none

/-- The node of the first document of a text. -/
def document? (text : String) : Option Node := documentOf? (tokens text)

end StageFlow.Yaml
