import StageFlow.NodeId
import StageFlow.NodeResult

/-!
# Caches

The results that nodes have given so far. That a node has an entry is what marks it as done, even if the
entry has no output.

## Contents
- **Type and operations.** `Cache`, by node identifier.
- **Look-ups.** What `get?` finds after each operation.
-/

namespace StageFlow

/-- The results of nodes, by identifier. -/
structure Cache where
  results : SortedMap NodeResult

namespace Cache

/-- No results. -/
def empty : Cache := ⟨.empty⟩

/-- The result of a node. -/
def get? (c : Cache) (id : NodeId) : Option NodeResult := c.results.get? id.text

/-- Does the node have a result? -/
def has (c : Cache) (id : NodeId) : Bool := (c.get? id).isSome

/-- The value of an output of a node. -/
def output? (c : Cache) (id : NodeId) (output : String) : Option Value := (c.get? id).bind (·.get? output)

/-- Stores the result of a node, in place of one stored before. -/
def set (c : Cache) (id : NodeId) (values : NodeResult) : Cache := ⟨c.results.insert id.text values⟩

/-- Removes the result of a node. -/
def erase (c : Cache) (id : NodeId) : Cache := ⟨c.results.erase id.text⟩

/-- How many nodes have a result. -/
def size (c : Cache) : Nat := c.results.size

/-- Has no node a result? -/
def isEmpty (c : Cache) : Bool := c.results.isEmpty

/-! ## Look-ups -/

theorem text_inj {a b : NodeId} : a.text = b.text ↔ a = b := by
  cases a
  cases b
  simp

@[simp] theorem get?_empty (id : NodeId) : empty.get? id = none := rfl

@[simp] theorem get?_set (c : Cache) (id : NodeId) (values : NodeResult) (k : NodeId) :
    (c.set id values).get? k = if k = id then some values else c.get? k := by
  simp [get?, set, text_inj]

@[simp] theorem get?_erase (c : Cache) (id k : NodeId) :
    (c.erase id).get? k = if k = id then none else c.get? k := by
  simp [get?, erase, text_inj]

end Cache

end StageFlow
