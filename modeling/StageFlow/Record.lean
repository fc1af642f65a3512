import StageFlow.Term

/-!
# Reading records

How structured data is read off a term, with exactly one fault for each way in which the data does not fit.
A record is written as a map of its fields, or as the list of their values in order.

## Contents
- **Readers.** `Place` and `Reader`; readers of texts, integers, objects, lists and optional data.
- **Records.** `Field` and `record`.
- **Variants.** `Variant`, `variantName` and `variants`.
-/

namespace StageFlow

/-! ## Readers -/

/-- Where the data of a record comes from. -/
inductive Source
  /-- Directly from a JSON text. -/
  | text
  /-- Directly from a YAML text. Records are maps there, and a double without a fraction is an integer. -/
  | yaml
  /-- From data that was read in full before it was looked into. -/
  | buffer
  /-- From a value handed over as such. -/
  | value
  deriving DecidableEq

/-- A place in a document, and how deep the document may be nested there. -/
structure Place where
  source : Source
  room : Room

/-- Where the term of a JSON document stands. -/
def Place.top : Place := ⟨.text, fullRoom⟩

/-- Where the outermost node of a YAML document stands. One more list or map can be open than in JSON. -/
def Place.yaml : Place := ⟨.yaml, some 129⟩

/-- Where values stand that were read in full. -/
def Place.buffered : Place := ⟨.buffer, none⟩

/-- Where a value stands that was handed over as such. -/
def Place.handed : Place := ⟨.value, none⟩

/-- The place inside a list or map. -/
def Place.inside (p : Place) : Except PlacedFault Place :=
  unplaced ((enter p.room).map fun room => { p with room })

/-- How data of a type is read off a term. -/
abbrev Reader (α : Type) := Place → Term → Except PlacedFault α

namespace Reader

/-- Reads a text. -/
def text : Reader String
  | _, .text s => unplaced s
  | _, t => .error (t.mismatch "a string")

/-- The integer of 64 signed bits that a double is; the double one beyond the last of them counts as it. -/
def int64OfFloat? (x : Binary64) : Option Int :=
  (x.integer?.filter fun n => -int64Bound ≤ n && n ≤ int64Bound).map fun n => min n (int64Bound - 1)

/-- Reads an integer of 64 signed bits. -/
def int64 : Reader Int
  | p, .number (some n) =>
    match n with
    | .int n =>
      if -int64Bound ≤ n && n < int64Bound then .ok n
      else .error ((Fault.wrongValue (.int n) "i64").at .head)
    | .float x =>
      match if p.source = .yaml then int64OfFloat? x else none with
      | some n => .ok n
      | none => .error ((Fault.wrongType (.float x) "i64").at .head)
  | p, .tagged t => int64 p t
  | _, t => .error (t.mismatch "i64")

/-- Reads any value, in normal form. -/
def anyValue : Reader Value
  | p, t => unplaced ((t.value p.room).map Value.normalize)

/-- Reads an object. -/
def object : Reader Object
  | p, .map entries stop => do
    match ← anyValue p (.map entries stop) with
    | .map es => return SortedMap.ofEntries es
    | _ => return ∅
  | _, t => .error (t.mismatch "a map")

/-- Reads data that may be absent: null is its absence. -/
def optional {α : Type} (r : Reader α) : Reader (Option α)
  | _, .null => .ok none
  | p, t => (r p t).map some

/-- Reads the items of a list, the first of which has this index. -/
def items {α : Type} (r : Reader α) (p : Place) : (index : Nat) → List Term → Except PlacedFault (List α)
  | _, [] => .ok []
  | index, t :: ts => do
    let a ← withinItem index (r p t)
    let as ← items r p (index + 1) ts
    return a :: as

/-- Reads a list. -/
def list {α : Type} (r : Reader α) : Reader (List α)
  | p, .list ts stop => do
    let p ← p.inside
    let as ← items r p 0 ts
    unplaced (check (stop.fault? false))
    return as
  | _, t => .error (t.mismatch "a sequence")

end Reader

/-! ## Records -/

/-- A field of a record: whether it has to be there, and how its value is read and put in place. -/
structure Field (α : Type) where
  name : String
  required : Bool
  read : Place → Term → Except PlacedFault (α → α)

/-- The field whose value a reader reads. -/
def Field.of {α β : Type} (name : String) (required : Bool) (r : Reader β) (set : β → α → α) : Field α :=
  ⟨name, required, fun p t => (r p t).map set⟩

namespace Record

variable {α : Type}

/-- So many elements, in words. -/
def elements (n : Nat) : String :=
  String.ofList (Text.decimal n) ++ (if n = 1 then " element" else " elements")

/-- The name of a field that a key is. In data that was read in full, a key that stands for something other
than its text is none. -/
def fieldName (p : Place) (k : Key) : Except PlacedFault String :=
  match p.source, k.meaning with
  | .buffer, some f => .error ((Fault.wrongType f "field identifier").at .unknown)
  | _, _ => unplaced k.text

/-- Reads fields by name into a record, which gives the names that occurred. Other entries are passed
over. The first of the entries has this index. -/
def readEntries (fields : List (Field α)) (p : Place) :
    (index : Nat) → List (Key × Term) → List String → α → Except PlacedFault (List String × α)
  | _, [], seen, a => .ok (seen, a)
  | index, (k, t) :: es, seen, a => do
    let key ← fieldName p k
    match fields.find? (·.name = key) with
    | none =>
      unplaced t.skim
      readEntries fields p (index + 1) es seen a
    | some f =>
      if key ∈ seen then .error ((Fault.repeatedField key).at (.key index))
      else
        let set ← withinEntry index (f.read p t)
        readEntries fields p (index + 1) es (key :: seen) (set a)

/-- The first field that has to be there and is not. -/
def missing? (fields : List (Field α)) (seen : List String) : Option PlacedFault :=
  (fields.find? fun f => f.required && !seen.contains f.name).map fun f =>
    (Fault.missingField f.name).at .stop

/-- The fault of items that are left when all fields have been read. -/
def surplus? (p : Place) (fields given : Nat) (rest : List Term) (stop : ListEnd) : Option PlacedFault :=
  if rest.isEmpty then
    match p.source with
    | .text => stop.afterFields?.map (·.at .unknown)
    | _ => none
  else
    some <| match p.source with
    | .text | .yaml => Fault.trailingCharacters.at (.item fields .first)
    | .buffer => (Fault.wrongLength given (elements fields ++ " in sequence")).at .stop
    | .value => (Fault.wrongLength given "fewer elements in array").at .stop

/-- Reads fields in order, one item for each. Where the items run out, fields that need not be there are
left as they are. The next field and item have this index. -/
def readItems (p : Place) (stop : ListEnd) (short : Nat → Fault) (long : List Term → Option PlacedFault) :
    List (Field α) → List Term → (index : Nat) → α → Except PlacedFault α
  | [], ts, _, a => do
    check (long ts)
    return a
  | f :: fs, [], index, a => do
    unplaced (check (stop.fault? false))
    if f.required then .error ((short index).at .stop)
    else readItems p stop short long fs [] (index + 1) a
  | f :: fs, t :: ts, index, a => do
    let set ← withinItem index (f.read p t)
    readItems p stop short long fs ts (index + 1) (set a)

end Record

/-- Reads a record: `label` names it in faults, and `blank` holds the values of fields that are left out. -/
def record {α : Type} (label : String) (fields : List (Field α)) (blank : α) : Reader α
  | p, .map entries stop => do
    let p ← p.inside
    let (seen, a) ← Record.readEntries fields p 0 entries [] blank
    unplaced (check ((stop.repeated? seen).or (stop.fault? false)))
    check (Record.missing? fields seen)
    return a
  | p, .list items stop => do
    if p.source = .yaml then .error ((Term.list items stop).mismatch label)
    let p ← p.inside
    Record.readItems p stop
      (fun index => .wrongLength index (label ++ " with " ++ Record.elements fields.length))
      (fun rest => Record.surplus? p fields.length items.length rest stop)
      fields items 0 blank
  | _, t => .error (t.mismatch label)

/-! ## Variants -/

/-- One of several forms of a type: a name alone, or a name with a record. -/
inductive Variant (α : Type)
  | unit (name : String) (a : α)
  | record (name : String) (content : Reader α)

/-- The name of a variant. -/
def Variant.name {α : Type} : Variant α → String
  | unit name _ => name
  | record name _ => name

/-- The variant of a name. -/
def findVariant {α : Type} (known : List (Variant α)) (name : String) : Except Fault (Variant α) :=
  match known.find? (·.name = name) with
  | some v => .ok v
  | none => .error (.unknownVariant name (known.map Variant.name))

/-- Reads the name of a variant. -/
def variantName {α : Type} (known : List (Variant α)) : Term → Except PlacedFault (Variant α)
  | .text s => do (findVariant known (← unplaced s)).mapError (·.at .stop)
  | t => .error (t.mismatch "variant identifier")

/-- Reads what stands behind the name of a variant in a map with one entry. In YAML, what stands behind a
name alone is passed over. -/
def Variant.content {α : Type} (p : Place) (t : Term) : Variant α → Except PlacedFault α
  | unit _ a =>
    match p.source, t with
    | .yaml, _ | _, .null => .ok a
    | _, t => .error (t.mismatch "unit")
  | record _ content => content p t

/-- The fault of a map that should have held the name of a variant and does not. -/
def missingVariant {α : Type} (known : List (Variant α)) : MapEnd → PlacedFault
  | .closed => Fault.expectedValue.at .stop
  | .ended => Fault.endInObject.at .unknown
  | .strayKey (.ok f) => (Fault.wrongType f "variant identifier").at .unknown
  | .strayKey (.error f) => f.at .unknown
  | .brokenKey c => c.strict.at .unknown
  | .noColon (.error f) _ => f.at .unknown
  | .noColon (.ok name) f =>
    match findVariant known name with
    | .ok _ => f.at .unknown
    | .error f => f.at .unknown
  | _ => Fault.expectedValue.at .unknown

/-- Reads one of several variants: a name, or a map with the name as its only key. -/
def variants {α : Type} (known : List (Variant α)) : Reader α
  | _, .text s => do
    match ← variantName known (.text s) with
    | .unit _ a => return a
    | .record .. => .error ((Fault.wrongType .bareVariant "struct variant").at .unknown)
  | p, .map entries stop => do
    let p ← p.inside
    match entries with
    | [] => .error (missingVariant known stop)
    | (k, t) :: rest =>
      let v ← (findVariant known (← unplaced k.text)).mapError (·.at (.key 0))
      let a ← withinEntry 0 (v.content p t)
      match rest, stop with
      | [], .closed => return a
      | [], .ended => .error (Fault.endInObject.at .unknown)
      | _, _ => .error (Fault.expectedValue.at (.entry 0 .stop))
  | _, .cut c => .error (c.variant.at .unknown)
  | _, .tagged t => .error ((Term.tagged t).mismatch "variant identifier")
  | _, _ => .error (Fault.expectedValue.at .first)

end StageFlow
