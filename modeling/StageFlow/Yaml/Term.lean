import StageFlow.Term
import StageFlow.Yaml.Node
import StageFlow.Yaml.Scalar

/-!
# YAML documents as they stand

The term of a document whose tags and merges have not been applied. Most documents have none, and then this is
all there is to read; where a reader meets one, it learns that the document has to be composed first.

A name can be used behind its node. Nodes inside of a node with a name cannot be used by names of their own, nor
can any be used more than 1024 times.

## Contents
- **Keys.** `Node.key`.
- **Names.** `Names`.
- **Terms.** `Node.term`.
-/

namespace StageFlow.Yaml

/-! ## Keys -/

/-- What a value is where something else is expected. -/
def foundValue : Value → Found
  | .null => .null
  | .bool b => .bool b
  | .number (.int n) => .int n
  | .number (.float x) => .float x
  | .text s => .text s
  | .list _ => .list
  | .map _ => .map

/-- What a plain scalar stands for, if that is not its text. -/
def meaning? (s : String) : Option Found :=
  match resolve s with
  | .text _ => none
  | v => some (foundValue v)

/-- The key that a node is. A key is its text; if it merges, has a tag or is more than a scalar, the document
has to be composed. -/
def Node.key : Node → Key
  | scalar s true => if s = "<<" then ⟨.error .tagNotApplied, none⟩ else ⟨.ok s, meaning? s⟩
  | scalar s false => ⟨.ok s, none⟩
  | anchored _ n => n.key
  | _ => ⟨.error .tagNotApplied, none⟩

/-! ## Names -/

/-- The named terms so far, the latest first, and how often names have been used. -/
structure Names where
  known : List (String × Term) := []
  uses : Nat := 0

/-- Names a term, unless it stands inside of another with a name. -/
def Names.add (inside : Bool) (name : String) (t : Term) (names : Names) : Names :=
  if inside then names else { names with known := (name, t) :: names.known }

/-- Uses a name. -/
def Names.use (name : String) (names : Names) : Term × Names :=
  let t := if names.uses < 1024 then Assoc.lookup name names.known else none
  (t.getD (.cut { strict := .unknownAlias }), { names with uses := names.uses + 1 })

/-! ## Terms -/

mutual

/-- The term of a node, and the names known behind it. -/
def Node.term (inside : Bool) (names : Names) : Node → Term × Names
  | .scalar s true => (.ofValue (resolve s), names)
  | .scalar s false => (.text (.ok s), names)
  | .list items =>
    let (ts, names) := itemTerms inside names items
    (.list ts .closed, names)
  | .map entries =>
    let (es, names) := entryTerms inside names entries
    (.map es .closed, names)
  | .anchored name n =>
    let (t, names) := n.term true names
    (t, names.add inside name t)
  | .aliased name => names.use name
  | .tagged _ n =>
    let (t, names) := n.term inside names
    (.tagged t, names)

/-- The terms of the items of a list. -/
def itemTerms (inside : Bool) (names : Names) : List Node → List Term × Names
  | [] => ([], names)
  | n :: ns =>
    let (t, names) := n.term inside names
    let (ts, names) := itemTerms inside names ns
    (t :: ts, names)

/-- The terms of the entries of a map. -/
def entryTerms (inside : Bool) (names : Names) : List (Node × Node) → List (Key × Term) × Names
  | [] => ([], names)
  | (k, n) :: es =>
    let (_, names) := k.term inside names
    let (t, names) := n.term inside names
    let (ts, names) := entryTerms inside names es
    ((k.key, t) :: ts, names)

end

/-- The term of a document. -/
def Node.standing (n : Node) : Term := (n.term false {}).1

end StageFlow.Yaml
