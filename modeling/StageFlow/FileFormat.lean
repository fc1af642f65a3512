/-!
# Formats of files

The format of a document file is told by the extension of its name.

## Contents
- **Names.** `baseName?`, the last component of a path, and `extension?`.
- **Detection.** `FileFormat.ofName`.
-/

namespace StageFlow

/-- A format in which documents are stored. -/
inductive FileFormat
  | yaml
  | json
  deriving DecidableEq, Repr

/-- Why the name of a file does not tell its format. -/
inductive ExtensionFault
  | missing
  | unsupported (name : String)
  deriving DecidableEq, Repr

/-- The fault in words. -/
def ExtensionFault.message : ExtensionFault → String
  | missing => "Failed to get file extension"
  | unsupported name => "Unsupported file extension for file: " ++ name

/-! ## Names -/

/-- The components of a path between its slashes, except those that stay in the same directory. -/
def components (path : List Char) : List (List Char) :=
  (path.splitOn '/').filter fun c => !c.isEmpty && c ≠ ['.']

/-- The name of a file without its directories; the parent directory is no file. -/
def baseName? (path : List Char) : Option (List Char) :=
  (components path).getLast?.filter (· ≠ ['.', '.'])

/-- What stands behind the last dot of a name. A dot at the front starts no extension. -/
def extension? (path : List Char) : Option (List Char) := do
  let name ← baseName? path
  if (name.drop 1).contains '.' then some (name.reverse.takeWhile (· ≠ '.')).reverse else none

/-! ## Detection -/

namespace FileFormat

/-- The name of the format. -/
def name : FileFormat → String
  | yaml => "yaml"
  | json => "json"

/-- The format of an extension, whichever case its ASCII letters have. -/
def ofExtension? (ext : List Char) : Option FileFormat :=
  let ext := String.ofList (ext.map Char.toLower)
  if ext = "yaml" || ext = "yml" then some yaml
  else if ext = "json" then some json
  else none

/-- The format of a file by its name. -/
def ofName (name : String) : Except ExtensionFault FileFormat :=
  match extension? name.toList with
  | none => .error .missing
  | some ext =>
    match ofExtension? ext with
    | some f => .ok f
    | none => .error (.unsupported name)

end FileFormat

end StageFlow
