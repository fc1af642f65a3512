import StageFlow.Executor.Run

/-!
# Simulated logic

Node logic that follows a script: for each node a list of behaviors, one for each invocation. Scripts can
return, fail, break off, pause and run plans of their own, and they keep a log of invocations.

## Contents
- **Scripts.** `Behavior`, `Turn` and `Script`.
- **State.** `LogEntry` and `Desk`, the log and the count of invocations.
- **Behaviors.** `Behavior.act`; `nested` runs another executor whose script shares the log.
- **Logic.** `Script.logic`.
-/

namespace StageFlow.Simulation

/-! ## State -/

/-- What a script has noted. -/
inductive LogEntry
  | started (id : NodeId) (inputs : Object)
  | ended (id : NodeId)

/-- The state of a script: the log so far, and how often each node has been invoked. -/
structure Desk where
  log : List LogEntry := []
  counts : List (NodeId × Nat) := []

/-- Adds to the log. -/
def Desk.note (d : Desk) (e : LogEntry) : Desk := { d with log := d.log ++ [e] }

/-- Counts an invocation, and gives how many there were before. -/
def Desk.count (id : NodeId) (d : Desk) : Desk × Nat :=
  let n := (Assoc.lookup id d.counts).getD 0
  ({ d with counts := Assoc.insert id (n + 1) d.counts }, n)

/-! ## Scripts -/

/-- A plan that a node runs, and the node of it whose outputs are taken. -/
structure Errand where
  plan : Plan
  graph : Graph
  options : Options
  logic : Option (Logic Desk)
  output : NodeId

/-- What an invocation does. -/
inductive Behavior
  | values (values : Object)
  | inputs
  /-- Returns the node itself with its inputs. -/
  | node
  | echo
  /-- Does what the kind of the node says. -/
  | byKind
  /-- Fails. With a context, its text is shown instead of the message. -/
  | fail (message : String) (context : Option String)
  | panic (message : Option String)
  /-- Runs another plan; what keeps it from being set up is a failure. -/
  | nested (errand : Except String Errand)

/-- A behavior, and how often the invocation pauses before it. -/
structure Turn where
  pauses : Nat
  behavior : Behavior

/-- The turns of nodes, and what the others do. -/
structure Script where
  turns : List (NodeId × List Turn)
  fallback : Turn := ⟨0, .byKind⟩

/-! ## Behaviors -/

/-- What a node of a known kind returns. -/
def kindValues (node : NodeDescriptor) (inputs : Object) : Object :=
  if node.kind = "input" then SortedMap.ofEntries [("data", .text ("input-" ++ node.id.text))]
  else if node.kind = "process" then
    SortedMap.ofEntries [("result", .text ("processed-" ++ Json.compactText inputs.toValue))]
  else if node.kind = "output" then inputs
  else errorValues ("Unknown node type: " ++ node.kind)

/-- The outcome of a plan that was run as an errand. -/
def errandOutcome (output : NodeId) (s : Session Desk) : Except Stop RunStats → Outcome
  | .ok _ => .returned ((s.executor.outputs? output).getD ∅)
  | .error (.error e) => .failed e.message
  | .error (.breach _) => .panicked none

/-- Runs an errand. Its executor and its counts are its own; the log is shared. -/
def Errand.act (e : Errand) : Activity Desk Outcome :=
  match Session.start e.plan e.graph e.logic ({} : Desk) with
  | .error _ => .done (.panicked none)
  | .ok s =>
    let s := { s with executor := s.executor.withOptions e.options }
    (Session.run.withLocal
      (fun own desk => { own with host := { own.host with log := desk.log } })
      id
      (fun own desk => { desk with log := own.host.log })
      s).map fun (s, r) => errandOutcome e.output s r

/-- Does what a behavior says. -/
def Behavior.act (node : NodeDescriptor) (inputs : Object) : Behavior → Activity Desk Outcome
  | values o => .done (.returned o)
  | .inputs => .done (.returned inputs)
  | .node =>
    .done (.returned (SortedMap.ofEntries [("node", node.toValue.normalize), ("inputs", inputs.toValue)]))
  | echo => .done (.returned (node.echo inputs))
  | byKind => .done (.returned (kindValues node inputs))
  | fail message context => .done (.failed (context.getD message))
  | panic message => .done (.panicked message)
  | nested (.error message) => .done (.failed message)
  | nested (.ok errand) => errand.act

/-! ## Logic -/

/-- The turn of a node's invocation after so many others; the last turn is repeated. -/
def Script.turn (s : Script) (id : NodeId) (invocations : Nat) : Turn :=
  match Assoc.lookup id s.turns with
  | none => s.fallback
  | some turns => (turns[invocations]?.or turns.getLast?).getD s.fallback

/-- The logic of a script. -/
def Script.logic (s : Script) : Logic Desk := fun node inputs => do
  let n ← .step (Desk.count node.id)
  let turn := s.turn node.id n
  .modify fun d => d.note (.started node.id inputs)
  let outcome ← (turn.behavior.act node inputs).after turn.pauses
  .modify fun d => d.note (.ended node.id)
  return outcome

end StageFlow.Simulation
