import StageFlow.Fault

/-!
# Terms

What a document says, kept up to the first place where it stops being well-formed. A reader of records
walks a term from left to right, so it meets problems of form and problems of content in the order of
the text and reports whichever comes first.

## Contents
- **Types.** `Cut`, `ListEnd`, `MapEnd`, `Key` and `Term`.
- **Faults of form.** What each kind of end means to a reader who needs the value, and to one who
  passes over it.
- **Reading values.** `Term.value` and `Term.skim`.
- **Well-formed terms.** `Term.ofValue`.
- **Size.** `Term.depth` and `Term.isWhole`.
-/

namespace StageFlow

/-! ## Types -/

/-- Text as it stands between quotes, unless it names half a surrogate pair. -/
abbrev Quotation := Except Fault String

/-- Why no value can be read at a place. A reader that passes over a value checks less of it, and one that
needs the name of a variant looks only at the first character, so each has its own fault. -/
structure Cut where
  strict : Fault
  lenient : Fault := strict
  variant : Fault := strict

/-- How a list ends after its last item. -/
inductive ListEnd
  | closed
  | ended
  /-- Neither a comma nor a bracket. -/
  | junk
  /-- A comma and the closing bracket. -/
  | commaThenClose
  /-- A comma and then nothing. -/
  | commaThenEnd
  /-- The last item is itself cut. -/
  | within

/-- How a map ends after its last entry. -/
inductive MapEnd
  | closed
  | ended
  /-- An entry is followed by neither a comma nor a brace. -/
  | junk
  | commaThenClose
  | commaThenEnd
  /-- After a comma there is something that is no key. -/
  | commaThenJunk
  /-- The map opens with something that is no key; what a reader of a value would find there. -/
  | strayKey (found : Except Fault Found)
  /-- The key of the next entry is not closed. -/
  | brokenKey (cut : Cut)
  /-- The key of the next entry is not followed by a colon. -/
  | noColon (key : Quotation) (fault : Fault)
  /-- The last value is itself cut. -/
  | within

/-- The key of an entry of a map. -/
structure Key where
  text : Quotation
  /-- What the key stands for, where that is something other than its text. -/
  meaning : Option Found := none

/-- A document up to the first place where it is not well-formed. -/
inductive Term
  | null
  | bool (b : Bool)
  /-- A number, or none if it exceeds what a double can hold. -/
  | number (n : Option Number)
  | text (s : Quotation)
  | list (items : List Term) (stop : ListEnd)
  | map (entries : List (Key × Term)) (stop : MapEnd)
  | cut (c : Cut)
  /-- A term with a tag, in a document whose tags have not been applied. -/
  | tagged (t : Term)
  /-- A text with a tag that means something to an application, and nothing here. -/
  | foreign (s : String)

/-! ## Faults of form -/

/-- The fault of a list that does not end with a bracket. -/
def ListEnd.fault? : (lenient : Bool) → ListEnd → Option Fault
  | _, closed => none
  | _, ended => some .endInList
  | _, junk => some .expectedCommaOrBracket
  | lenient, commaThenClose => some (if lenient then .expectedValue else .trailingComma)
  | _, commaThenEnd | _, within => some .endInValue

/-- The fault of a list that ends some other way than by a bracket behind the last field of the record that
it stands for. -/
def ListEnd.afterFields? : ListEnd → Option Fault
  | closed => none
  | ended => some .endInList
  | commaThenClose => some .trailingComma
  | _ => some .trailingCharacters

/-- The fault of a map that does not end with a brace. -/
def MapEnd.fault? : (lenient : Bool) → MapEnd → Option Fault
  | _, closed => none
  | _, ended => some .endInObject
  | _, junk => some .expectedCommaOrBrace
  | lenient, commaThenClose => some (if lenient then .keyNotText else .trailingComma)
  | lenient, commaThenEnd => some (if lenient then .endInObject else .endInValue)
  | _, commaThenJunk | _, strayKey _ => some .keyNotText
  | lenient, brokenKey c => some (if lenient then c.lenient else c.strict)
  | true, noColon _ f => some f
  | false, noColon (.ok _) f => some f
  | false, noColon (.error f) _ => some f
  | _, within => some .endInValue

/-- The fault of a key without a colon that repeats one of these keys. -/
def MapEnd.repeated? (seen : List String) : MapEnd → Option Fault
  | noColon (.ok key) _ => if key ∈ seen then some (.repeatedField key) else none
  | _ => none

/-- Turns a possible fault into an outcome. -/
def check {ε : Type} : Option ε → Except ε Unit
  | none => .ok ()
  | some f => .error f

/-- How many lists and maps may be open at once, counted from here and with one to spare; none is no
limit. -/
abbrev Room := Option Nat

/-- The room of a JSON text: opening a list or map while 127 are open is a fault. -/
def fullRoom : Room := some 128

/-- The room inside a list or map. -/
def enter : Room → Except Fault Room
  | none => .ok none
  | some 0 | some 1 => .error .nestedTooDeep
  | some (room + 2) => .ok (some (room + 1))

/-! ## Reading values -/

/-- What stands at the head of a term, for a reader that wants something else. -/
def Term.found : Term → Except Fault Found
  | null => .ok .null
  | bool b => .ok (.bool b)
  | number none => .error .numberOutOfRange
  | number (some (.int n)) => .ok (.int n)
  | number (some (.float x)) => .ok (.float x)
  | text (.ok s) => .ok (.text s)
  | text (.error f) => .error f
  | list _ _ => .ok .list
  | map _ _ => .ok .map
  | cut c => .error c.strict
  | tagged _ => .error .tagNotApplied
  | foreign _ => .error .foreignTag

/-- The fault of a term of the wrong type. -/
def Term.mismatch (t : Term) (expected : String) : PlacedFault :=
  match t.found with
  | .ok f => (Fault.wrongType f expected).at .head
  | .error f => f.at .unknown

mutual

/-- The value that a term says, entries in the order of the text, or its first fault. -/
def Term.value (room : Room) : Term → Except Fault Value
  | .null => .ok .null
  | .bool b => .ok (.bool b)
  | .number none => .error .numberOutOfRange
  | .number (some n) => .ok (.number n)
  | .text s => s.map .text
  | .list items stop => do
    let room ← enter room
    let vs ← valueList room items
    check (stop.fault? false)
    return .list vs
  | .map entries stop => do
    let room ← enter room
    let es ← valueEntries room entries
    check (stop.fault? false)
    return .map es
  | .cut c => .error c.strict
  | .tagged _ => .error .tagNotApplied
  | .foreign s => .ok (.text s)

/-- The values of the items of a list. -/
def valueList (room : Room) : List Term → Except Fault (List Value)
  | [] => .ok []
  | t :: ts => do
    let v ← t.value room
    let vs ← valueList room ts
    return v :: vs

/-- The values of the entries of a map. -/
def valueEntries (room : Room) : List (Key × Term) → Except Fault (List (String × Value))
  | [] => .ok []
  | (k, t) :: es => do
    let key ← k.text
    let v ← t.value room
    let vs ← valueEntries room es
    return (key, v) :: vs

end

mutual

/-- Passes over a term whose value is not needed. How deep it is nested, how large its numbers are and
whether surrogates pair up is not looked at. -/
def Term.skim : Term → Except Fault Unit
  | .list items stop => do
    skimList items
    check (stop.fault? true)
  | .map entries stop => do
    skimEntries entries
    check (stop.fault? true)
  | .cut c => .error c.lenient
  | _ => .ok ()

/-- Passes over the items of a list. -/
def skimList : List Term → Except Fault Unit
  | [] => .ok ()
  | t :: ts => do
    t.skim
    skimList ts

/-- Passes over the entries of a map. -/
def skimEntries : List (Key × Term) → Except Fault Unit
  | [] => .ok ()
  | (_, t) :: es => do
    t.skim
    skimEntries es

end

/-! ## Well-formed terms -/

mutual

/-- The term that says a value. -/
def Term.ofValue : Value → Term
  | .null => .null
  | .bool b => .bool b
  | .number n => .number (some n)
  | .text s => .text (.ok s)
  | .list items => .list (ofValueList items) .closed
  | .map entries => .map (ofValueEntries entries) .closed

/-- The terms of the items of a list. -/
def ofValueList : List Value → List Term
  | [] => []
  | v :: vs => Term.ofValue v :: ofValueList vs

/-- The terms of the entries of a map. -/
def ofValueEntries : List (String × Value) → List (Key × Term)
  | [] => []
  | (k, v) :: es => (⟨.ok k, none⟩, Term.ofValue v) :: ofValueEntries es

end

/-! ## Size -/

mutual

/-- How deep lists and maps are nested in a term. -/
def Term.depth : Term → Nat
  | .list items _ => depthOfList items + 1
  | .map entries _ => depthOfEntries entries + 1
  | .tagged t => t.depth
  | _ => 0

/-- The depth of the deepest item. -/
def depthOfList : List Term → Nat
  | [] => 0
  | t :: ts => max t.depth (depthOfList ts)

/-- The depth of the deepest value. -/
def depthOfEntries : List (Key × Term) → Nat
  | [] => 0
  | (_, t) :: es => max t.depth (depthOfEntries es)

end

/-- Was the term read to its end, so that reading can go on behind it? -/
def Term.isWhole : Term → Bool
  | list _ .closed | map _ .closed => true
  | list _ _ | map _ _ | cut _ => false
  | _ => true

end StageFlow
