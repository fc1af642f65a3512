import StageFlow.Executor.Run

/-!
# Reports of runs

What is told of a run: its counts or its error, and the state and outputs of each node.

## Contents
- **Types.** `NodeReport` and `Report`.
- **Making.** `Report.ofRun`.
- **Writing.** `Report.toValue`.
-/

namespace StageFlow

/-- The state of a node, and its outputs if it has some. -/
structure NodeReport where
  id : NodeId
  state : NodeState
  outputs : Option Object

/-- How a run ended and what has become of the nodes. -/
structure Report where
  stats : Option RunStats
  error : Option Object
  nodes : List NodeReport

/-- The failure object of a stop. -/
def Stop.values : Stop → Object
  | error e => e.values
  | breach _ => errorValues "internal assertion failed"

namespace Report

/-- The report of a run that has ended with this result. -/
def ofRun {σ : Type} (e : Executor σ) (result : Except Stop RunStats) : Report where
  stats := result.toOption
  error := match result with
    | .ok _ => none
    | .error stop => some stop.values
  nodes := e.status.map fun (id, state) => ⟨id, state, e.outputs? id⟩

/-- Did the run fail? -/
def isFailure (r : Report) : Bool := r.error.isSome

/-- The counts of a run as they are written, with the seconds it took if they were measured. -/
def statsValue (elapsed : Option Binary64) (s : RunStats) : Value :=
  .map ((match elapsed with
      | some x => [("elapsed_secs", .float x)]
      | none => []) ++
    [("invoked_nodes", .nat s.invoked), ("cached_nodes", .nat s.cached), ("waiting_nodes", .nat s.waiting)])

/-- The part on a node as it is written. -/
def nodeValue (n : NodeReport) : Value :=
  .map ([("id", n.id.toValue), ("state", .text n.state.name)] ++ optionalEntry "outputs" n.outputs)

/-- A report as it is written. -/
def toValue (elapsed : Option Binary64) (r : Report) : Value :=
  .map ((match r.stats with
      | some s => [("stats", statsValue elapsed s)]
      | none => []) ++
    optionalEntry "error" r.error ++ [("nodes", .list (r.nodes.map nodeValue))])

end Report

end StageFlow
