import StageFlow.Record

/-!
# Options of a run

## Contents
- **Types.** `Dispatch`, how the nodes of a stage are started, and `Options`.
- **Documents.** Reader and written value.
-/

namespace StageFlow

/-- How the nodes of a stage are started. -/
inductive Dispatch
  /-- All ready nodes of a stage are in flight together. -/
  | concurrent
  /-- One node after the other, in plan order. -/
  | sequential
  deriving DecidableEq, Repr

/-- The options of a run. -/
structure Options where
  dispatch : Dispatch := .concurrent
  deriving DecidableEq, Repr

namespace Dispatch

/-- The name in documents. -/
def name : Dispatch → String
  | concurrent => "concurrent"
  | sequential => "sequential"

/-- The name in messages for developers. -/
def describe : Dispatch → String
  | concurrent => "Concurrent"
  | sequential => "Sequential"

/-- Reads the name. -/
def reader : Reader Dispatch :=
  variants ([concurrent, sequential].map fun d => .unit d.name d)

end Dispatch

namespace Options

/-- The options of which only the dispatch differs from the default. -/
def sequential : Options := { dispatch := .sequential }

/-- Reads options; what is left out has its default. -/
def reader : Reader Options :=
  record "struct ExecutorOptions"
    [.of "stage_dispatch" false Dispatch.reader fun x o => { o with dispatch := x }]
    {}

/-- Options as they are written. -/
def toValue (o : Options) : Value := .map [("stage_dispatch", .text o.dispatch.name)]

/-- Options as messages for developers show them. -/
def describe (o : Options) : String :=
  "ExecutorOptions \x7b stage_dispatch: " ++ o.dispatch.describe ++ " \x7d"

end Options

end StageFlow
