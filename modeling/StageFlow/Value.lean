import StageFlow.SortedMap
import StageFlow.Decimal.Binary64

/-!
# Values

The data that documents hold and that nodes exchange: null, truth values, numbers, text, lists and
maps. A map keeps its entries as they stand in a document; the maps that nodes exchange are brought
into key order first.

## Contents
- **Type.** `Number` and `Value`, and the bounds of integers.
- **Objects.** `Object`, a map in key order, and the passage between it and `Value`.
- **Normal form.** `Value.normalize` brings every map inside a value into key order.
-/

namespace StageFlow

/-! ## Type -/

/-- A number: an integer of at most 64 bits, signed or unsigned, or a finite double. -/
inductive Number
  | int (n : Int)
  | float (x : Binary64)
  deriving DecidableEq, Repr

/-- Where the signed integers of 64 bits end: they go from the negative of this bound up to below it. -/
def int64Bound : Int := 9223372036854775808

/-- Where the naturals of 64 bits end. -/
def word64Bound : Nat := 18446744073709551616

/-- A piece of data. -/
inductive Value
  | null
  | bool (b : Bool)
  | number (n : Number)
  | text (s : String)
  | list (items : List Value)
  | map (entries : List (String × Value))

namespace Value

instance : Inhabited Value := ⟨.null⟩

/-- An integer value. -/
def int (n : Int) : Value := .number (.int n)

/-- A natural as a value. -/
def nat (n : Nat) : Value := .number (.int n)

/-- A finite double as it is; there is no value for the others but null. -/
def float (x : Binary64) : Value := if x.isFinite then .number (.float x) else .null

/-- How many lists and maps stand around the deepest point of a value, itself included. -/
def depth : Value → Nat
  | list items => depthList items + 1
  | map entries => depthEntries entries + 1
  | _ => 0
where
  depthList : List Value → Nat
    | [] => 0
    | v :: vs => max (depth v) (depthList vs)
  depthEntries : List (String × Value) → Nat
    | [] => 0
    | e :: es => max (depth e.2) (depthEntries es)

end Value

/-! ## Objects -/

/-- A map from names to values, in key order. -/
abbrev Object := SortedMap Value

/-- The value that an object is. -/
def Object.toValue (o : Object) : Value := .map o.entries

/-! ## Normal form -/

mutual

/-- The same value as nodes exchange it: every map is in key order, of entries with the same key the last one
stays, and a double that is not finite becomes null. -/
def Value.normalize : Value → Value
  | .number (.float x) => .float x
  | .list items => .list (normalizeItems items)
  | .map entries => .map (SortedMap.ofEntries (normalizeEntries entries)).entries
  | v => v

/-- `Value.normalize` on every item. -/
def normalizeItems : List Value → List Value
  | [] => []
  | v :: vs => v.normalize :: normalizeItems vs

/-- `Value.normalize` on the value of every entry. -/
def normalizeEntries : List (String × Value) → List (String × Value)
  | [] => []
  | (k, v) :: es => (k, v.normalize) :: normalizeEntries es

end

end StageFlow
