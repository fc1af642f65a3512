import StageFlow.Cache
import StageFlow.KeyedVec
import StageFlow.Plan

/-!
# Controllers

What an executor knows of one node: its state, and which outputs of other nodes feed its inputs.

## Contents
- **States.** `NodeState`.
- **Bindings.** `InputBinding`, `Controller.ofRecord` and `Controller.complete`, which fills in the names that
  a link leaves out from the producer's side of the same link.
- **Transitions.** `beforeInvoking`, `startRunning`, `afterInvoking`, `reset`, and `Transition`, the record
  of one of them.
-/

namespace StageFlow

/-! ## States -/

/-- Where a node is in its life. Only a reset leads back to `waiting`. -/
inductive NodeState
  | waiting
  | ready
  | cached
  | running
  | succeeded
  | failed
  deriving DecidableEq, Repr

namespace NodeState

/-- All states. -/
def all : List NodeState := [waiting, ready, cached, running, succeeded, failed]

/-- The name in documents. -/
def name : NodeState → String
  | waiting => "waiting"
  | ready => "ready"
  | cached => "cached"
  | running => "running"
  | succeeded => "succeeded"
  | failed => "failed"

/-- Has the node come to an end, for now? -/
def isSettled : NodeState → Bool
  | cached | succeeded | failed => true
  | _ => false

/-- Reads the name. -/
def reader : Reader NodeState := variants (all.map fun s => .unit s.name s)

end NodeState

/-! ## Bindings -/

/-- An input of a node and the output of another node that feeds it, by their names. -/
structure InputBinding where
  source : NodeId
  output : String
  input : String
  deriving DecidableEq, Repr

/-- A node's state and bindings. -/
structure Controller where
  id : NodeId
  state : NodeState := .waiting
  bindings : List InputBinding
  deriving DecidableEq, Repr

instance : Keyed NodeId Controller := ⟨Controller.id⟩

/-- The binding that a link from a producer makes. -/
def InputBinding.ofLink (l : Link NodeRecord) : InputBinding := ⟨l.peer.id, l.output, l.input⟩

/-- Fills in the names that are empty from a link. -/
def InputBinding.fill (b : InputBinding) (l : Link NodeRecord) : InputBinding :=
  { b with
    output := if b.output.isEmpty then l.output else b.output
    input := if b.input.isEmpty then l.input else b.input }

/-- The links of a producer to a node. -/
def NodeRecord.linksTo (r : NodeRecord) (id : NodeId) : List (Link NodeRecord) :=
  r.outgoing.filter (·.peer.id = id)

/-- Fills in the names of bindings of the node `id`. `counts` says how many bindings each source has had so
far: the n-th binding from a producer goes with the n-th link of the producer to the node. -/
def completeBindings (producer : NodeId → Option NodeRecord) (id : NodeId) :
    (counts : List (NodeId × Nat)) → List InputBinding → List InputBinding
  | _, [] => []
  | counts, b :: bs =>
    let nth := (Assoc.lookup b.source counts).getD 0
    let rest := completeBindings producer id (Assoc.insert b.source (nth + 1) counts) bs
    if !b.output.isEmpty && !b.input.isEmpty then b :: rest
    else
      match (producer b.source).bind (fun r => (r.linksTo id)[nth]?) with
      | some l => b.fill l :: rest
      | none => b :: rest

namespace Controller

/-- Fills in names that links leave out. `producer` gives the record of a source. -/
def complete (c : Controller) (producer : NodeId → Option NodeRecord) : Controller :=
  { c with bindings := completeBindings producer c.id [] c.bindings }

/-- The record of a source that stands inside the incoming links of a record and has links of its own. -/
def inlineProducer (r : NodeRecord) (source : NodeId) : Option NodeRecord :=
  (r.incoming.map (·.peer)).find? fun p => p.id = source && !p.outgoing.isEmpty

/-- The waiting controller of a record, one binding for each incoming link. -/
def ofRecord (r : NodeRecord) : Controller :=
  complete { id := r.id, bindings := r.incoming.map InputBinding.ofLink } (inlineProducer r)

/-! ## Transitions -/

/-- Are all outputs that feed the node there? -/
def inputsAvailable (c : Controller) (cache : Cache) : Bool :=
  c.bindings.all fun b => (cache.output? b.source b.output).isSome

/-- A result makes the node cached; otherwise complete inputs make it ready; otherwise nothing changes. -/
def beforeInvoking (c : Controller) (cache : Cache) : Controller :=
  if cache.has c.id then { c with state := .cached }
  else if c.inputsAvailable cache then { c with state := .ready }
  else c

/-- A ready node starts running. -/
def startRunning (c : Controller) : Except Breach Controller :=
  if c.state = .ready then .ok { c with state := .running } else .error .notReady

/-- The node has come to its end. -/
def afterInvoking (c : Controller) (hasError : Bool) : Controller :=
  { c with state := if hasError then .failed else .succeeded }

/-- Back to waiting. -/
def reset (c : Controller) : Controller := { c with state := .waiting }

end Controller

/-- The ways in which the state of a node is set. -/
inductive Transition.Step
  /-- Before an invocation it is seen what there is. -/
  | assess
  | start
  | settle
  | reset
  deriving DecidableEq, Repr

/-- A step in the life of a node: the states before and after it. -/
structure Transition where
  id : NodeId
  step : Transition.Step
  before : NodeState
  after : NodeState
  deriving DecidableEq, Repr

end StageFlow
