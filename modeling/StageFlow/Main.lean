import StageFlow.CommandLine

/-!
# The program

Reads the arguments and files, measures the run and prints how it ended.

## Contents
- **Arguments.** `readArguments`.
- **Files.** `readFile`.
- **Program.** `main`.
-/

namespace StageFlow.CommandLine

/-- The arguments, given as options with values in any order. -/
def readArguments : List String → Arguments → Except String Arguments
  | [], a =>
    if a.plan.isEmpty then .error "--plan is missing"
    else if a.graph.isEmpty then .error "--graph is missing"
    else .ok a
  | [name], _ => .error ("no value for " ++ name)
  | name :: value :: rest, a =>
    if name = "-p" || name = "--plan" then readArguments rest { a with plan := value }
    else if name = "-g" || name = "--graph" then readArguments rest { a with graph := value }
    else if name = "-o" || name = "--options" then readArguments rest { a with options := some value }
    else if name = "--log-level" then readArguments rest { a with logFilter := value }
    else if name = "--log-dir" then readArguments rest a
    else .error ("unknown argument " ++ name)

/-- The text of a file. -/
def readFile (path : String) : IO (Except ReadFailure String) := do
  if path.contains '\x00' then return .error .badName
  try
    let bytes ← IO.FS.readBinFile path
    match String.fromUTF8? bytes with
    | some text => return .ok text
    | none => return .error .notUtf8
  catch
    | .noFileOrDirectory .. => return .error .notFound
    | e => return .error (.other (toString e))

/-- The texts of several files. -/
def readFiles (paths : List String) : IO Files := do
  let contents ← paths.mapM fun path => do return (path, ← readFile path)
  return fun path => (Assoc.lookup path contents).getD (.error .notFound)

/-- How the program ends for these arguments; the run is timed. -/
def timedRun (a : Arguments) : IO Ending := do
  let files ← readFiles ([a.plan, a.graph] ++ a.options.toList)
  match prepareRun files a with
  | .error e => return e.ending
  | .ok s =>
    let start ← IO.monoNanosNow
    let report ← IO.lazyPure fun _ => executeRun s
    let stop ← IO.monoNanosNow
    let seconds := (stop - start).toUInt64.toFloat / 1e9
    return .ofReport (some (.ofFloat seconds)) report

end StageFlow.CommandLine

open StageFlow.CommandLine in
/-- Runs the program. -/
def main (args : List String) : IO UInt32 := do
  match readArguments args { plan := "", graph := "" } with
  | .error message =>
    IO.eprintln ("error: " ++ message)
    return 2
  | .ok a =>
    let ending ← timedRun a
    IO.print ending.output
    IO.eprint ending.errors
    return ending.exit.toUInt32
