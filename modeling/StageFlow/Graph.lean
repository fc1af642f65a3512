import StageFlow.NodeId

/-!
# Graphs

The nodes of a board with their configuration, and the edges between them. Execution needs the nodes only;
what feeds what is said by the plan.

## Contents
- **Types.** `NodeDescriptor`, `GraphEdge` and `Graph`.
- **Look-ups.** `Graph.find?` and `Graph.positions`; the first node of an identifier counts.
- **Validity.** `Graph.isValid`.
- **Documents.** Readers, and the values that are written.
-/

namespace StageFlow

/-! ## Types -/

/-- A node: its identifier, what kind of node it is, and free data. -/
structure NodeDescriptor where
  id : NodeId
  kind : String
  configuration : Option Object := none
  metadata : Option Object := none

/-- A connection from an output of a node to an input of another. -/
structure GraphEdge where
  source : NodeId
  target : NodeId
  output : String := ""
  input : String := ""
  deriving DecidableEq

/-- The nodes and edges of a board. -/
structure Graph where
  nodes : List NodeDescriptor
  edges : List GraphEdge := []

namespace Graph

/-! ## Look-ups -/

/-- The first node with an identifier. -/
def find? (g : Graph) (id : NodeId) : Option NodeDescriptor := g.nodes.find? (·.id = id)

/-- Adds the positions of nodes, counted from `start`, to those known before, which stay. -/
def positionsFrom (start : Nat) (known : List (NodeId × Nat)) : List NodeDescriptor → List (NodeId × Nat)
  | [] => known
  | n :: ns =>
    let known := if (Assoc.lookup n.id known).isSome then known else Assoc.insert n.id start known
    positionsFrom (start + 1) known ns

/-- The position of the first node of each identifier. -/
def positions (g : Graph) : List (NodeId × Nat) := positionsFrom 0 [] g.nodes

/-! ## Validity -/

/-- Has every node a nonempty identifier? -/
def isValid (g : Graph) : Bool := g.nodes.all fun n => !n.id.isEmpty

end Graph

/-! ## Documents -/

/-- The fields of a node. -/
def NodeDescriptor.fields : List (Field NodeDescriptor) :=
  [.of "id" true NodeId.reader fun x n => { n with id := x },
    .of "type" true Reader.text fun x n => { n with kind := x },
    .of "configuration" false (Reader.optional Reader.object) fun x n => { n with configuration := x },
    .of "metadata" false (Reader.optional Reader.object) fun x n => { n with metadata := x }]

/-- Reads a node. -/
def NodeDescriptor.reader : Reader NodeDescriptor :=
  record "struct NodeDescriptor" fields { id := ⟨""⟩, kind := "" }

/-- The fields of an edge. -/
def GraphEdge.fields : List (Field GraphEdge) :=
  [.of "from" true NodeId.reader fun x e => { e with source := x },
    .of "to" true NodeId.reader fun x e => { e with target := x },
    .of "out" false Reader.text fun x e => { e with output := x },
    .of "in" false Reader.text fun x e => { e with input := x }]

/-- Reads an edge. -/
def GraphEdge.reader : Reader GraphEdge :=
  record "struct Edge" fields { source := ⟨""⟩, target := ⟨""⟩ }

/-- The fields of a graph. -/
def Graph.fields : List (Field Graph) :=
  [.of "nodes" true (Reader.list NodeDescriptor.reader) fun x g => { g with nodes := x },
    .of "edges" false (Reader.list GraphEdge.reader) fun x g => { g with edges := x }]

/-- Reads a graph, valid or not. -/
def Graph.reader : Reader Graph := record "struct GraphDescriptor" fields { nodes := [] }

/-- The entry of a field that is left out when absent. -/
def optionalEntry (name : String) : Option Object → List (String × Value)
  | none => []
  | some o => [(name, o.toValue)]

/-- A node as it is written. -/
def NodeDescriptor.toValue (n : NodeDescriptor) : Value :=
  .map ([("id", n.id.toValue), ("type", .text n.kind)] ++
    optionalEntry "configuration" n.configuration ++ optionalEntry "metadata" n.metadata)

/-- An edge as it is written. -/
def GraphEdge.toValue (e : GraphEdge) : Value :=
  .map [("from", e.source.toValue), ("to", e.target.toValue), ("out", .text e.output), ("in", .text e.input)]

/-- A list field, left out when empty. -/
def listEntry (name : String) (items : List Value) : List (String × Value) :=
  if items.isEmpty then [] else [(name, .list items)]

/-- A graph as it is written; without edges there is no field for them. -/
def Graph.toValue (g : Graph) : Value :=
  .map (("nodes", .list (g.nodes.map NodeDescriptor.toValue)) ::
    listEntry "edges" (g.edges.map GraphEdge.toValue))

end StageFlow
