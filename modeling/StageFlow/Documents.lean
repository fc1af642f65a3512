import StageFlow.Graph
import StageFlow.Options
import StageFlow.Plan.Document
import StageFlow.Storage

/-!
# Plans, graphs and options as documents

## Contents
- **Plans.** `Plan.load`, `Plan.loadFile` and `Plan.toYaml?`.
- **Graphs.** `Graph.load` and `Graph.loadFile`, which accept valid graphs only.
- **Options.** `Options.load` and `Options.loadFile`.
-/

namespace StageFlow

/-- Reads a plan from text. -/
def Plan.load (format : FileFormat) (text : String) : Except LoadError Plan :=
  StageFlow.load Plan.reader format text

/-- Reads a plan from a file. -/
def Plan.loadFile (files : Files) (path : String) : Except LoadError Plan :=
  StageFlow.loadFile Plan.reader files path

/-- A plan as YAML text. -/
def Plan.toYaml? (p : Plan) : Option String := save? .yaml p.toValue

/-- Lets a graph pass only if it is valid. -/
def Graph.accept (g : Graph) : Except LoadError Graph :=
  if g.isValid then .ok g else .error (.invalid "Node has empty id")

/-- Reads a valid graph from text. -/
def Graph.load (format : FileFormat) (text : String) : Except LoadError Graph := do
  let g ← StageFlow.load Graph.reader format text
  g.accept

/-- Reads a valid graph from a file. -/
def Graph.loadFile (files : Files) (path : String) : Except LoadError Graph := do
  let g ← StageFlow.loadFile Graph.reader files path
  g.accept

/-- Reads options from text. -/
def Options.load (format : FileFormat) (text : String) : Except LoadError Options :=
  StageFlow.load Options.reader format text

/-- Reads options from a file. -/
def Options.loadFile (files : Files) (path : String) : Except LoadError Options :=
  StageFlow.loadFile Options.reader files path

end StageFlow
