import StageFlow.Record

/-!
# Node identifiers

The name by which plans, graphs, caches and controllers refer to a node.

## Contents
- **Type.** `NodeId`, compared by its text alone.
- **Text forms.** `describe`, `byteLength`, `reader`, `toValue`.
-/

namespace StageFlow

/-- A node's identifier. Two identifiers with the same text are the same. -/
structure NodeId where
  text : String
  deriving DecidableEq, Repr, Inhabited

namespace NodeId

/-- Is the text empty? -/
def isEmpty (id : NodeId) : Bool := id.text.isEmpty

/-- The order of identifiers: that of the UTF-8 bytes of their texts. -/
def order (a b : NodeId) : Ordering := compareOfLessAndEq a.text b.text

/-- The number of UTF-8 bytes of the text. -/
def byteLength (id : NodeId) : Nat := id.text.utf8ByteSize

/-- The identifier as messages for developers show it. -/
def describe (id : NodeId) : String := "NodeId(" ++ Text.quoted id.text ++ ")"

/-- Reads an identifier, which is a text. -/
def reader : Reader NodeId := fun p t => (Reader.text p t).map NodeId.mk

/-- An identifier is written as its text. -/
def toValue (id : NodeId) : Value := .text id.text

end NodeId

end StageFlow
