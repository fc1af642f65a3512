import StageFlow.Activity
import StageFlow.Graph

/-!
# Node logic

What nodes do, as supplied by the host.

## Contents
- **Outcomes.** `Outcome`, and `Outcome.guarded`, what is left of one for an executor.
- **Logic.** `Logic`, and `Logic.echo`.
-/

namespace StageFlow

/-- How an invocation of a node ends. -/
inductive Outcome
  | returned (values : Object)
  | failed (message : String)
  /-- The logic broke off; the message is missing if it gave none in words. -/
  | panicked (message : Option String)

/-- The object returned, or the message of the failure. -/
def Outcome.guarded : Outcome → Except String Object
  | returned values => .ok values
  | failed message => .error message
  | panicked (some message) => .error message
  | panicked none => .error "Node logic panicked"

/-- What nodes do with their inputs. `σ` is the state of the host, which all invocations share. -/
abbrev Logic (σ : Type) := NodeDescriptor → Object → Activity σ Outcome

/-- The inputs laid over the configuration of a node. -/
def NodeDescriptor.echo (node : NodeDescriptor) (inputs : Object) : Object :=
  (node.configuration.getD ∅).insertAll inputs.entries

/-- Logic that gives back its inputs over the configuration of the node. -/
def Logic.echo {σ : Type} : Logic σ := fun node inputs => .done (.returned (node.echo inputs))

end StageFlow
