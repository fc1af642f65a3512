import StageFlow.Decimal.Layout
import StageFlow.Text.Quoted
import StageFlow.Value

/-!
# Faults of documents

Why a document could not be read: the text is not well-formed, it ends too early, or its data does not
have the expected shape. Each cause is a constructor; `Fault.message` words it.

## Contents
- **Causes.** `Found`, what stands in place of the expected data, and `Fault`.
- **Wording.** `Fault.category` and `Fault.message`.
-/

namespace StageFlow

/-! ## Causes -/

/-- What a document has where something else was expected. -/
inductive Found
  | null
  | bool (b : Bool)
  | int (n : Int)
  | float (x : Binary64)
  | text (s : String)
  | list
  | map
  /-- A variant named without the content it needs. -/
  | bareVariant

/-- Why a document could not be read. -/
inductive Fault
  | endInValue
  | endInList
  | endInObject
  | endInText
  | expectedValue
  | expectedWord
  | expectedColon
  | expectedCommaOrBracket
  | expectedCommaOrBrace
  | keyNotText
  | trailingComma
  | trailingCharacters
  | invalidNumber
  | numberOutOfRange
  | invalidEscape
  | loneSurrogate
  | unfinishedSurrogate
  | controlCharacter
  | nestedTooDeep
  | wrongType (found : Found) (expected : String)
  | wrongValue (found : Found) (expected : String)
  | wrongLength (length : Nat) (expected : String)
  | missingField (name : String)
  | repeatedField (name : String)
  | unknownVariant (name : String) (known : List String)
  | repeatedKey
  /-- Tags or merges have to be applied before the data can be read. -/
  | tagNotApplied
  /-- A tag that means something to an application stands where plain data was expected. -/
  | foreignTag
  /-- A name was used that no node has. -/
  | unknownAlias

/-- The broad class of a fault. -/
inductive Fault.Category
  | ended
  | malformed
  | unfitting
  deriving DecidableEq, Repr

/-! ## Wording -/

/-- Doubles in JSON text: positional from `0.00001` up to sixteen digits before the point. -/
def Decimal.jsonLayout : Decimal.Layout := ⟨-5, 16, true, .even⟩

/-- What was found, in words. -/
def Found.describe : Found → String
  | null => "null"
  | bool b => if b then "boolean `true`" else "boolean `false`"
  | int n => "integer `" ++ String.ofList (Text.signedDecimal n) ++ "`"
  | float x => "floating point `" ++ String.ofList (Decimal.jsonLayout.render x) ++ "`"
  | text s => "string " ++ Text.quoted s
  | list => "sequence"
  | map => "map"
  | bareVariant => "unit variant"

/-- The variants to choose from, in words. -/
def describeVariants : List String → String
  | [] => "there are no variants"
  | [a] => "expected `" ++ a ++ "`"
  | [a, b] => "expected `" ++ a ++ "` or `" ++ b ++ "`"
  | known => "expected one of " ++ String.intercalate ", " (known.map fun a => "`" ++ a ++ "`")

/-- The class of a fault. -/
def Fault.category : Fault → Fault.Category
  | endInValue | endInList | endInObject | endInText => .ended
  | wrongType .. | wrongValue .. | wrongLength .. | missingField .. | repeatedField ..
  | unknownVariant .. | repeatedKey | tagNotApplied | foreignTag | unknownAlias => .unfitting
  | _ => .malformed

/-- A fault in words. -/
def Fault.message : Fault → String
  | endInValue => "EOF while parsing a value"
  | endInList => "EOF while parsing a list"
  | endInObject => "EOF while parsing an object"
  | endInText => "EOF while parsing a string"
  | expectedValue => "expected value"
  | expectedWord => "expected ident"
  | expectedColon => "expected `:`"
  | expectedCommaOrBracket => "expected `,` or `]`"
  | expectedCommaOrBrace => "expected `,` or `\x7d`"
  | keyNotText => "key must be a string"
  | trailingComma => "trailing comma"
  | trailingCharacters => "trailing characters"
  | invalidNumber => "invalid number"
  | numberOutOfRange => "number out of range"
  | invalidEscape => "invalid escape"
  | loneSurrogate => "lone leading surrogate in hex escape"
  | unfinishedSurrogate => "unexpected end of hex escape"
  | controlCharacter => "control character (\\u0000-\\u001F) found while parsing a string"
  | nestedTooDeep => "recursion limit exceeded"
  | wrongType found expected => "invalid type: " ++ found.describe ++ ", expected " ++ expected
  | wrongValue found expected => "invalid value: " ++ found.describe ++ ", expected " ++ expected
  | wrongLength length expected =>
    "invalid length " ++ String.ofList (Text.decimal length) ++ ", expected " ++ expected
  | missingField name => "missing field `" ++ name ++ "`"
  | repeatedField name => "duplicate field `" ++ name ++ "`"
  | unknownVariant name known => "unknown variant `" ++ name ++ "`, " ++ describeVariants known
  | repeatedKey => "Duplicate key in KeyIndexVec"
  | tagNotApplied => "tag not applied"
  | foreignTag => "unknown tag"
  | unknownAlias => "unknown alias"

/-! ## Places -/

/-- A place in a document, by the way that leads to it from the outermost piece of data. -/
inductive Spot
  /-- No place is known. -/
  | unknown
  /-- Where it is seen of which type the data is: behind a scalar, in front of a list or map. -/
  | head
  /-- Behind the first character of the data. -/
  | first
  /-- Behind the data. -/
  | stop
  /-- Behind the data and what separates it from the next. -/
  | behind
  /-- Behind the key of an entry. -/
  | key (index : Nat)
  /-- A place in an item of a list. -/
  | item (index : Nat) (inner : Spot)
  /-- A place in the value of an entry of a map. -/
  | entry (index : Nat) (inner : Spot)
  deriving DecidableEq, Repr

/-- A fault and where it shows. -/
structure PlacedFault where
  fault : Fault
  spot : Spot := .unknown

/-- A fault at a place. -/
def Fault.at (f : Fault) (spot : Spot) : PlacedFault := ⟨f, spot⟩

/-- An outcome whose fault has no known place. -/
def unplaced {α : Type} (r : Except Fault α) : Except PlacedFault α := r.mapError (·.at .unknown)

/-- An outcome for one item of a list, as an outcome for the list. -/
def withinItem {α : Type} (index : Nat) (r : Except PlacedFault α) : Except PlacedFault α :=
  r.mapError fun f => { f with spot := .item index f.spot }

/-- An outcome for the value of one entry of a map, as an outcome for the map. -/
def withinEntry {α : Type} (index : Nat) (r : Except PlacedFault α) : Except PlacedFault α :=
  r.mapError fun f => { f with spot := .entry index f.spot }

end StageFlow
