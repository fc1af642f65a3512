import StageFlow.Text.Digits
import StageFlow.Text.Invisible
import StageFlow.Text.Space

/-!
# Log filters

Which texts say what is to be logged: directives with commas between them, each a level, a target, or a target
with a level, and with a span of the target between brackets if wanted. Logging itself is left to the host, so
all there is to know of a filter is whether it is one.

## Contents
- **Faults.** `LogFilter.Fault`, with its wording.
- **Directives.** `LogFilter.directiveFault?`, by way of levels and spans.
- **Filters.** `LogFilter.fault?`.
-/

namespace StageFlow.LogFilter

open Text

/-! ## Faults -/

/-- Why a text is no filter. -/
inductive Fault
  | badDirective
  | badLevel
  deriving DecidableEq, Repr

/-- The fault in words. -/
def Fault.message : Fault → String
  | badDirective => "Invalid log filter: invalid filter directive"
  | badLevel =>
    "Invalid log filter: error parsing level filter: expected one of \"off\", \"error\", \"warn\", " ++
      "\"info\", \"debug\", \"trace\", or a number 0-5"

/-! ## Directives -/

/-- The names of levels. -/
def levelNames : List (List Char) := ["off", "error", "warn", "info", "debug", "trace"].map String.toList

/-- Is the text a level: a name in any case, or a number up to five? A level may be left out. -/
def isLevel (cs : List Char) : Bool :=
  cs.isEmpty || levelNames.contains (cs.map Char.toLower) ||
    match cs with
    | '+' :: ds => (ofNumeral? 10 ds).any (· ≤ 5)
    | ds => (ofNumeral? 10 ds).any (· ≤ 5)

/-- The fault of what stands behind an equals sign. `bare` says whether there is no white space around the
directive; there may be none around one with a level. -/
def levelFault? (bare : Bool) (cs : List Char) : Option Fault :=
  if bare && isLevel cs then none else some .badLevel

/-- The fault of what stands behind a span: nothing, or a level. -/
def behindSpan? (bare : Bool) : List Char → Option Fault
  | [] => none
  | '=' :: level => levelFault? bare level
  | _ => some .badDirective

/-- The fault of what stands behind an opening bracket: the name of a span, with a field of it between braces
if wanted, and then what stands behind the closing bracket. -/
def spanFault? (bare : Bool) (cs : List Char) : Option Fault :=
  match cs.dropWhile fun c => c ≠ ']' && c ≠ '\x7b' with
  | ']' :: rest => behindSpan? bare rest
  | '\x7b' :: '\x7d' :: _ => some .badDirective
  | '\x7b' :: fields =>
    match fields.dropWhile (· ≠ '\x7d') with
    | '\x7d' :: ']' :: rest => behindSpan? bare rest
    | _ => some .badDirective
  | _ => some .badDirective

/-- Can a target or level start with this character? Beyond ASCII, whatever has a form of its own counts as a
letter. -/
def startsTarget (c : Char) : Bool :=
  c.isAlphanum || c = '-' || c = ':' || c = '_' || (127 < c.toNat && !isInvisible c)

/-- The fault of a directive. A name with nothing behind it is a level or a target. -/
def directiveFault? (cs : List Char) : Option Fault :=
  let inner := trimSpace cs
  let bare := inner.length = cs.length
  match inner with
  | [] => some .badDirective
  | '[' :: rest => spanFault? bare rest
  | c :: _ =>
    if startsTarget c then
      match inner.dropWhile fun c => c ≠ '=' && c ≠ '[' with
      | '=' :: level => levelFault? bare level
      | '[' :: rest => spanFault? bare rest
      | _ => none
    else some .badDirective

/-! ## Filters -/

/-- The first fault of a filter, if it is none. Between commas there may be nothing. -/
def fault? (s : String) : Option Fault :=
  (s.toList.splitOn ',').findSome? fun cs => if cs.isEmpty then none else directiveFault? cs

end StageFlow.LogFilter
