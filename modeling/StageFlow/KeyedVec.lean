import StageFlow.Assoc
import StageFlow.Record

/-!
# Vectors with keys

A vector that keeps its items in order and finds them by key. The positions of keys are kept beside the
items. Whoever writes to an item in place may change its key and leave the positions behind; what is
found later then follows the positions, and an operation that relies on them may break off. A break
is an outcome here, a `Breach`.

## Contents
- **Types.** `Keyed`, `Breach` and `KeyedVec`.
- **Reading.** `position?`, `get?`, `at?`, `size`, `isEmpty`, `validate`.
- **Writing.** `push`, `insertWith`, `erase`, `modifyKey`, `setAt`, `mapItems`.
- **Documents.** `ofItems?` and a reader.
-/

namespace StageFlow

/-! ## Types -/

/-- Items that name their key. -/
class Keyed (κ : outParam Type) (α : Type) where
  key : α → κ

/-- A condition that an operation relies on and that did not hold. -/
inductive Breach
  /-- An item made for a key has another key. -/
  | wrongKey
  /-- A position lies beyond the items. -/
  | outOfRange
  /-- There are not as many positions as items. -/
  | unevenSizes
  /-- The position of an item's key is not that of the item. -/
  | stalePosition
  /-- A node was to be started that was not ready. -/
  | notReady
  deriving DecidableEq, Repr

/-- Items in order, with the position of each key. -/
structure KeyedVec (κ α : Type) where
  items : List α := []
  positions : List (κ × Nat) := []

namespace KeyedVec

variable {κ α : Type} [DecidableEq κ] [Keyed κ α]

/-- The vector without items. -/
def empty : KeyedVec κ α := {}

/-! ## Reading -/

/-- The position noted for a key. -/
def position? (v : KeyedVec κ α) (key : κ) : Option Nat := Assoc.lookup key v.positions

/-- Is a position noted for the key? -/
def contains (v : KeyedVec κ α) (key : κ) : Bool := (v.position? key).isSome

/-- The item at a position. -/
def at? (v : KeyedVec κ α) (index : Nat) : Except Breach α :=
  match v.items[index]? with
  | some a => .ok a
  | none => .error .outOfRange

/-- The item at the position noted for a key. -/
def get? (v : KeyedVec κ α) (key : κ) : Except Breach (Option α) :=
  match v.position? key with
  | none => .ok none
  | some index => (v.at? index).map some

/-- The number of items, which has to be that of positions. -/
def size (v : KeyedVec κ α) : Except Breach Nat :=
  if v.items.length = v.positions.length then .ok v.items.length else .error .unevenSizes

/-- Are there no items? -/
def isEmpty (v : KeyedVec κ α) : Except Breach Bool := v.size.map fun _ => v.items.isEmpty

/-- Checks, from an index on, that the position noted for each item's key is its own. -/
def validateFrom (v : KeyedVec κ α) : (index : Nat) → List α → Except Breach Unit
  | _, [] => .ok ()
  | index, a :: as =>
    if v.position? (Keyed.key a) = some index then v.validateFrom (index + 1) as
    else .error .stalePosition

/-- Checks that positions and items agree. -/
def validate (v : KeyedVec κ α) : Except Breach Unit := do
  let _ ← v.size
  v.validateFrom 0 v.items

/-! ## Writing -/

/-- Puts an item in the place of the one with its key, or at the end; gives its position. -/
def push (v : KeyedVec κ α) (a : α) : Except Breach (KeyedVec κ α × Nat) :=
  match v.position? (Keyed.key a) with
  | some index =>
    if index < v.items.length then .ok ({ v with items := v.items.set index a }, index)
    else .error .outOfRange
  | none =>
    .ok (⟨v.items ++ [a], Assoc.insert (Keyed.key a) v.items.length v.positions⟩, v.items.length)

/-- The position of a key, after an item made for it has been added if there was none. -/
def insertWith (v : KeyedVec κ α) (key : κ) (create : Unit → α) : Except Breach (KeyedVec κ α × Nat) :=
  match v.position? key with
  | some index => .ok (v, index)
  | none =>
    let a := create ()
    if Keyed.key a = key then v.push a else .error .wrongKey

/-- Notes positions from an index on for the keys of items. -/
def renumber (positions : List (κ × Nat)) : (index : Nat) → List α → List (κ × Nat)
  | _, [] => positions
  | index, a :: as => renumber (Assoc.insert (Keyed.key a) index positions) (index + 1) as

/-- Removes the item of a key and moves those behind it up. The position of the key is gone even if it led
nowhere. -/
def erase (v : KeyedVec κ α) (key : κ) : KeyedVec κ α × Except Breach (Option α) :=
  match v.position? key with
  | none => (v, .ok none)
  | some index =>
    let positions := Assoc.erase key v.positions
    match v.items[index]? with
    | none => ({ v with positions }, .error .outOfRange)
    | some a =>
      let items := v.items.eraseIdx index
      (⟨items, renumber positions index (items.drop index)⟩, .ok (some a))

/-- Writes to an item in place. -/
def setAt (v : KeyedVec κ α) (index : Nat) (f : α → α) : Except Breach (KeyedVec κ α) :=
  if index < v.items.length then .ok { v with items := v.items.modify index f }
  else .error .outOfRange

/-- Writes to the item of a key in place; says whether there was one. -/
def modifyKey (v : KeyedVec κ α) (key : κ) (f : α → α) : Except Breach (KeyedVec κ α × Bool) :=
  match v.position? key with
  | none => .ok (v, false)
  | some index => (v.setAt index f).map fun v => (v, true)

/-- Writes to all items in place. -/
def mapItems (v : KeyedVec κ α) (f : α → α) : KeyedVec κ α := { v with items := v.items.map f }

/-! ## Documents -/

/-- Notes positions for items whose keys have none yet; none if a key comes twice. -/
def number? (positions : List (κ × Nat)) : (index : Nat) → List α → Option (List (κ × Nat))
  | _, [] => some positions
  | index, a :: as =>
    if (Assoc.lookup (Keyed.key a) positions).isSome then none
    else number? (Assoc.insert (Keyed.key a) index positions) (index + 1) as

/-- The vector of items whose keys are distinct. -/
def ofItems? (items : List α) : Option (KeyedVec κ α) :=
  (number? [] 0 items).map fun positions => ⟨items, positions⟩

/-- Reads a vector as the list of its items. -/
def reader (item : Reader α) : Reader (KeyedVec κ α) := fun p t => do
  let items ← Reader.list item p t
  match ofItems? items with
  | some v => return v
  | none => .error (Fault.repeatedKey.at .stop)

/-- A vector is written as the list of its items. -/
def toValue (item : α → Value) (v : KeyedVec κ α) : Value := .list (v.items.map item)

end KeyedVec

end StageFlow
