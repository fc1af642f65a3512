import StageFlow.FileFormat
import StageFlow.Json.Position
import StageFlow.Json.Printer
import StageFlow.Record
import StageFlow.Yaml.Compose
import StageFlow.Yaml.Printer

/-!
# Stored documents

Data in either format, as text and in files.

## Contents
- **Failures.** `ReadFailure` and `LoadError`, with their wording.
- **Text.** `load` and `save?`.
- **Files.** `Files` and `loadFile`.
-/

namespace StageFlow

/-! ## Failures -/

/-- Why a file could not be read. -/
inductive ReadFailure
  | notFound
  | notUtf8
  /-- The name holds a null character. -/
  | badName
  | other (message : String)

/-- The failure in words. -/
def ReadFailure.message : ReadFailure → String
  | notFound => "No such file or directory (os error 2)"
  | notUtf8 => "stream did not contain valid UTF-8"
  | badName => "file name contained an unexpected NUL byte"
  | other message => message

/-- Why a document could not be loaded. -/
inductive LoadError
  | json (f : Fault) (position : Option Position)
  | yaml
  | extension (f : ExtensionFault)
  | unreadable (path : String) (cause : ReadFailure)
  /-- The data is well-formed but not acceptable. -/
  | invalid (message : String)

namespace LoadError

/-- What precedes the cause when YAML is at fault. -/
def yamlHeading : String := "YAML serialization failed"

/-- What precedes the cause when JSON is at fault. -/
def jsonHeading : String := "JSON serialization failed"

/-- A fault in words, with its position if that is known. -/
def describeFault (f : Fault) (position : Option Position) : String :=
  match position with
  | none => f.message
  | some p => f.message ++ " at " ++ p.describe

/-- The error in words. -/
def message : LoadError → String
  | json f position => jsonHeading ++ ": " ++ describeFault f position
  | yaml => yamlHeading
  | extension f => f.message
  | unreadable path cause => "Failed to read " ++ path ++ ": " ++ cause.message
  | invalid message => message

/-- The failure behind an error, where there is one to be shown on its own. -/
def cause? : LoadError → Option String
  | unreadable _ cause => some cause.message
  | json f position => some (describeFault f position)
  | _ => none

end LoadError

/-! ## Text -/

/-- Reads data off the first document of a YAML text. It is composed only if the data has tags or merges where
it is looked at. -/
def readYaml? {α : Type} (r : Reader α) (text : String) : Option α := do
  let n ← Yaml.document? text
  match r .yaml n.standing with
  | .ok a => return a
  | .error ⟨.tagNotApplied, _⟩ => do
    let t ← n.composed?
    (r .yaml t).toOption
  | .error _ => none

/-- Reads data from a text. -/
def load {α : Type} (r : Reader α) (format : FileFormat) (text : String) : Except LoadError α :=
  match format with
  | .json =>
    ((Json.Document.ofText text.toList).read (r .top)).mapError fun f =>
      .json f.fault (f.spot.position? text.toList)
  | .yaml =>
    match readYaml? r text with
    | some a => .ok a
    | none => .error .yaml

/-- Writes a value. Only YAML has values that it cannot write. -/
def save? (format : FileFormat) (v : Value) : Option String :=
  match format with
  | .json => some (Json.indentedText v)
  | .yaml => Yaml.render? v

/-! ## Files -/

/-- The files that can be read, by path. -/
abbrev Files := String → Except ReadFailure String

/-- Reads data from a file, in the format that its name tells. The name is looked at first. -/
def loadFile {α : Type} (r : Reader α) (files : Files) (path : String) : Except LoadError α := do
  let format ← (FileFormat.ofName path).mapError .extension
  let text ← (files path).mapError (.unreadable path)
  load r format text

end StageFlow
