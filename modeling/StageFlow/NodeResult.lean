import StageFlow.Json.Printer

/-!
# Results of nodes

What nodes give back: an object with one entry for each output, or an object that tells of a failure under
a reserved key. Stored results keep their outputs in no particular order.

## Contents
- **Failure objects.** `errorKey`, `errorValues`, `errorMessage?`, `isError`.
- **Stored results.** `NodeResult`, and the passage from objects and back.
-/

namespace StageFlow

/-! ## Failure objects -/

/-- The reserved key that marks a failed result. -/
def errorKey : String := "$error"

/-- The object that tells of a failure. -/
def errorValues (message : String) : Object := SortedMap.empty.insert errorKey (.text message)

/-- The message under the reserved key: a text as it is, anything else as compact JSON. -/
def errorMessage? (values : Object) : Option String :=
  (values.get? errorKey).map fun
    | .text message => message
    | other => Json.compactText other

/-- Does the object tell of a failure? -/
def isError (values : Object) : Bool := values.contains errorKey

/-! ## Stored results -/

/-- A stored result: a value for each output, outputs in any order. -/
structure NodeResult where
  entries : List (String × Value)
  distinct : (entries.map (·.1)).Nodup

namespace NodeResult

/-- The value of an output. -/
def get? (values : NodeResult) (output : String) : Option Value := Assoc.lookup output values.entries

/-- How many outputs there are. -/
def size (values : NodeResult) : Nat := values.entries.length

/-- The keys of an object are distinct. -/
theorem nodup_keys (o : Object) : (o.entries.map (·.1)).Nodup := SortedMap.nodup_keys o

/-- The result that an object is. -/
def ofObject (o : Object) : NodeResult := ⟨o.entries, nodup_keys o⟩

/-- The object of a stored result, its outputs sorted by name. -/
def toObject (values : NodeResult) : Object := SortedMap.ofEntries values.entries

end NodeResult

end StageFlow
