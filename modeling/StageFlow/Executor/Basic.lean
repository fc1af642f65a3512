import StageFlow.Controller
import StageFlow.Executor.Error
import StageFlow.Logic
import StageFlow.Options
import StageFlow.Plan.Traversal

/-!
# Executors

An executor drives a plan over the nodes of a graph. It holds the results so far and one controller for
each node that the plan refers to and the graph has; references to other nodes are passed over.

## Contents
- **Type.** `Executor` and its construction, `Executor.new`.
- **One node.** `prepare` decides what is to be done with a node, and `settle` takes in how its
  invocation ended.
- **Clearing.** `clear` and `clearNode`.
- **Inspection.** `status`, `outputs?`, `progress`, `working`, `failed`, `describe`.
-/

namespace StageFlow

/-! ## Type -/

/-- A plan in execution. -/
structure Executor (σ : Type) where
  plan : Plan
  graph : Graph
  logic : Option (Logic σ)
  options : Options := {}
  cache : Cache := .empty
  controllers : KeyedVec NodeId Controller
  /-- Where the first node of each identifier stands in the graph. -/
  positions : List (NodeId × Nat)
  /-- Every step of every controller so far, the latest last. -/
  history : List Transition := []

/-- The first record of a node that is listed in a stage. Listed records carry all links of a node, while
stubs may carry none. -/
def Plan.listedRecord? (p : Plan) (id : NodeId) : Option NodeRecord := p.listed.find? (·.id = id)

/-- The controller of a record's node, made from its listed record if there is one. -/
def Plan.controllerOf (p : Plan) (r : NodeRecord) : Controller :=
  (Controller.ofRecord ((p.listedRecord? r.id).getD r)).complete p.listedRecord?

/-- Adds a controller for each record whose node has a position and has no controller yet. -/
def Plan.register (p : Plan) (positions : List (NodeId × Nat)) :
    List NodeRecord → KeyedVec NodeId Controller → Except Breach (KeyedVec NodeId Controller)
  | [], controllers => .ok controllers
  | r :: rs, controllers =>
    if (Assoc.lookup r.id positions).isNone then p.register positions rs controllers
    else do
      let (controllers, _) ← controllers.insertWith r.id fun _ => p.controllerOf r
      p.register positions rs controllers

namespace Executor

variable {σ : Type}

/-- A fresh executor. -/
def new (plan : Plan) (graph : Graph) (logic : Option (Logic σ)) : Except Breach (Executor σ) := do
  let positions := graph.positions
  let controllers ← plan.register positions plan.records .empty
  controllers.validate
  return { plan, graph, logic, controllers, positions }

/-- The same executor with other options. -/
def withOptions (e : Executor σ) (options : Options) : Executor σ := { e with options }

/-- Does the executor run this node at all? -/
def tracks (e : Executor σ) (id : NodeId) : Bool := e.controllers.contains id

/-- Writes back the controller of a node after a step of its life. -/
def advance (e : Executor σ) (step : Transition.Step) (id : NodeId) (old new : Controller) : Executor σ :=
  match e.controllers.modifyKey id fun _ => new with
  | .ok (controllers, _) =>
    { e with controllers, history := e.history ++ [⟨id, step, old.state, new.state⟩] }
  | .error _ => e

/-! ## One node -/

/-- A node about to be invoked. -/
structure Invocation where
  id : NodeId
  node : NodeDescriptor
  inputs : Object

/-- What is to be done with a node. -/
inductive Prepared
  /-- Nothing: it has a result. -/
  | cached (values : Object)
  /-- Nothing: its inputs are not complete, or it is in flight. -/
  | waiting
  | ready (invocation : Invocation)

/-- How the run of one node ended. -/
inductive NodeRun
  /-- With the result it already had. -/
  | cached (values : Object)
  | invoked (values : Object)
  /-- Its inputs are not complete; nothing was invoked. -/
  | waiting

/-- The outputs of a run that has some. -/
def NodeRun.outputs? : NodeRun → Option Object
  | .cached values | .invoked values => some values
  | .waiting => none

/-- The inputs of a node from the results of its producers; of two bindings of one input the later wins. -/
def gatherInputs (cache : Cache) (bindings : List InputBinding) : Object :=
  bindings.foldl
    (fun inputs b =>
      match cache.output? b.source b.output with
      | some v => inputs.insert b.input v
      | none => inputs)
    ∅

/-- Decides what is to be done with a node, and marks it as running if it is to be invoked. A node in
flight is left alone, so that a node listed twice in a stage is invoked once. -/
def prepare (e : Executor σ) (id : NodeId) : Executor σ × Except Stop Prepared :=
  match e.controllers.get? id with
  | .error b => (e, .error (.breach b))
  | .ok none => (e, .error (.error (.unknownNode id)))
  | .ok (some c) =>
    if c.state = .running then (e, .ok .waiting)
    else
      let assessed := c.beforeInvoking e.cache
      let e := e.advance .assess id c assessed
      match assessed.state with
      | .cached => (e, .ok (.cached (((e.cache.get? id).map NodeResult.toObject).getD ∅)))
      | .ready =>
        match Assoc.lookup id e.positions with
        | none => (e, .error (.error (.unknownNode id)))
        | some position =>
          match e.graph.nodes[position]?, assessed.startRunning with
          | some node, .ok running =>
            (e.advance .start id assessed running,
              .ok (.ready ⟨c.id, node, gatherInputs e.cache c.bindings⟩))
          | none, _ => (e, .error (.breach .outOfRange))
          | _, .error b => (e, .error (.breach b))
      | _ => (e, .ok .waiting)

/-- The result of an invocation, or the error it amounts to. -/
def judge (id : NodeId) : Except String Object → Except ExecutorError Object
  | .error message => .error (.invoke id message)
  | .ok values =>
    match errorMessage? values with
    | some message => .error (.application id message values)
    | none => .ok values

/-- Takes in how the invocation of a node ended. Only a result without failure is stored. -/
def settle (e : Executor σ) (id : NodeId) (result : Except String Object) :
    Executor σ × Except Stop NodeRun :=
  match e.controllers.get? id with
  | .error b => (e, .error (.breach b))
  | .ok none => (e, .error (.error (.unknownNode id)))
  | .ok (some c) =>
    match judge id result with
    | .ok values =>
      let e := e.advance .settle id c (c.afterInvoking false)
      ({ e with cache := e.cache.set id (.ofObject values) }, .ok (.invoked values))
    | .error err => (e.advance .settle id c (c.afterInvoking true), .error (.error err))

/-! ## Clearing -/

/-- Forgets the result of one node; what was made from it stays. -/
def clearNode (e : Executor σ) (id : NodeId) : Except Breach (Executor σ) := do
  let cleared := { e with cache := e.cache.erase id }
  match ← e.controllers.get? id with
  | none => return cleared
  | some c => return cleared.advance .reset id c c.reset

/-- Forgets all results. -/
def clear (e : Executor σ) : Executor σ :=
  { e with
    cache := .empty
    controllers := e.controllers.mapItems Controller.reset
    history := e.history ++ e.controllers.items.map fun c => ⟨c.id, .reset, c.state, c.reset.state⟩ }

/-! ## Inspection -/

/-- The controller of a node. -/
def controller? (e : Executor σ) (id : NodeId) : Except Breach (Option Controller) := e.controllers.get? id

/-- The state of each node, in the order in which the plan refers to them. -/
def status (e : Executor σ) : List (NodeId × NodeState) :=
  e.controllers.items.map fun c => (c.id, c.state)

/-- The result of a node. -/
def outputs? (e : Executor σ) (id : NodeId) : Option Object := (e.cache.get? id).map NodeResult.toObject

/-- The settled part of the nodes; all of them if there are none. -/
def progress (e : Executor σ) : Except Breach Float32 := do
  if ← e.controllers.isEmpty then return 1
  let settled := (e.controllers.items.filter (·.state.isSettled)).length
  let total ← e.controllers.size
  return settled.toUInt64.toFloat32 / total.toUInt64.toFloat32

/-- Is a node in flight? -/
def working (e : Executor σ) : Bool := e.controllers.items.any (·.state = .running)

/-- Has a node failed? -/
def failed (e : Executor σ) : Bool := e.controllers.items.any (·.state = .failed)

/-- The executor as messages for developers show it. -/
def describe (e : Executor σ) : Except Breach String := do
  let nodes ← e.controllers.size
  let count := fun n => String.ofList (Text.decimal n)
  return "Executor \x7b stages: " ++ count e.plan.stages.length ++ ", nodes: " ++ count nodes ++
    ", cached: " ++ count e.cache.size ++ ", has_node_logic: " ++
    (if e.logic.isSome then "true" else "false") ++ ", options: " ++ e.options.describe ++ " \x7d"

end Executor

end StageFlow
