import StageFlow.Graph
import StageFlow.KeyedVec
import StageFlow.NodeResult

/-!
# Errors of execution

## Contents
- **Causes.** `ExecutorError`, and `Stop`, which also covers broken assertions.
- **Wording.** `message`, `values` and `node?`.
- **Documents.** Reader and written value.
-/

namespace StageFlow

/-- Why a run, or the run of one node, ended without a result. -/
inductive ExecutorError
  | missingLogic
  | unknownNode (id : NodeId)
  /-- The logic failed or broke off. -/
  | invoke (id : NodeId) (message : String)
  /-- The logic returned an object that reports a failure. -/
  | application (id : NodeId) (message : String) (values : Object)
  /-- A node of a stage failed. -/
  | nodeFailed (id : NodeId) (message : String)

/-- Why an operation of an executor ended without a result. -/
inductive Stop
  | error (e : ExecutorError)
  | breach (b : Breach)

namespace ExecutorError

/-! ## Wording -/

/-- The node concerned. -/
def node? : ExecutorError → Option NodeId
  | missingLogic => none
  | unknownNode id | invoke id _ | application id _ _ | nodeFailed id _ => some id

/-- The error in words. -/
def message : ExecutorError → String
  | missingLogic => "No NodeLogic provided to executor"
  | unknownNode id => "Node with id '" ++ id.text ++ "' not found in execution plan"
  | invoke _ message => message
  | application _ message _ => message
  | nodeFailed id message => "Error in node '" ++ id.text ++ "': " ++ message

/-- The failure object of the error. What the logic itself reported is given back as it is. -/
def values : ExecutorError → Object
  | application _ _ values => values
  | e => errorValues e.message

/-- The error of a stage because of the error of one of its nodes. -/
def inNode (id : NodeId) (e : ExecutorError) : ExecutorError := .nodeFailed id e.message

/-! ## Documents -/

/-- Fields of an error while it is read. -/
structure Draft where
  id : NodeId := ⟨""⟩
  message : String := ""
  values : Object := ∅

/-- The field of the node concerned. -/
def idField : Field Draft := .of "node_id" true NodeId.reader fun x d => { d with id := x }

/-- The field of the message. -/
def messageField : Field Draft := .of "message" true Reader.text fun x d => { d with message := x }

/-- The field of the object that the logic returned. -/
def valuesField : Field Draft := .of "values" true Reader.object fun x d => { d with values := x }

/-- A variant with fields. -/
def draftVariant (name : String) (fields : List (Field Draft)) (make : Draft → ExecutorError) :
    Variant ExecutorError :=
  .record name fun p t =>
    (record ("struct variant ExecutorError::" ++ name) fields {} p t).map make

/-- Reads an error. -/
def reader : Reader ExecutorError :=
  variants
    [.unit "MissingNodeLogic" .missingLogic,
      draftVariant "NodeNotFound" [idField] fun d => .unknownNode d.id,
      draftVariant "Invoke" [idField, messageField] fun d => .invoke d.id d.message,
      draftVariant "Application" [idField, messageField, valuesField]
        fun d => .application d.id d.message d.values,
      draftVariant "NodeFailed" [idField, messageField] fun d => .nodeFailed d.id d.message]

/-- The name of the variant in documents. -/
def name : ExecutorError → String
  | missingLogic => "MissingNodeLogic"
  | unknownNode _ => "NodeNotFound"
  | invoke .. => "Invoke"
  | application .. => "Application"
  | nodeFailed .. => "NodeFailed"

/-- The fields of an error as they are written. -/
def fieldEntries : ExecutorError → List (String × Value)
  | missingLogic => []
  | unknownNode id => [("node_id", id.toValue)]
  | invoke id message | nodeFailed id message => [("node_id", id.toValue), ("message", .text message)]
  | application id message values =>
    [("node_id", id.toValue), ("message", .text message), ("values", values.toValue)]

/-- An error as it is written. -/
def toValue (e : ExecutorError) : Value :=
  match e with
  | missingLogic => .text e.name
  | _ => .map [(e.name, .map e.fieldEntries)]

end ExecutorError

/-- A failure of one node makes its stage fail; a broken assertion stays one. -/
def Stop.inNode (id : NodeId) : Stop → Stop
  | error e => .error (e.inNode id)
  | breach b => .breach b

end StageFlow
