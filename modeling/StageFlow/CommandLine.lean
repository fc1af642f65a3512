import StageFlow.Documents
import StageFlow.LogFilter
import StageFlow.Report

/-!
# The command line

Running a plan from files, with logic that echoes inputs, and reporting in YAML. All of it is a function
of the files and arguments; only the time that a run takes is measured outside.

## Contents
- **Arguments.** `Arguments`.
- **Steps.** `prepareRun`, `executeRun` and `Ending.ofReport`.
- **Whole.** `runPlan`.
-/

namespace StageFlow.CommandLine

/-! ## Arguments -/

/-- What a run is asked to do. -/
structure Arguments where
  plan : String
  graph : String
  options : Option String := none
  logFilter : String := "info"

/-- How the program ends: its exit code and what it prints. -/
structure Ending where
  exit : Nat
  output : String := ""
  errors : String := ""

/-! ## Steps -/

/-- The end of a program because of an error, with its cause where there is one to be shown. -/
def Ending.ofError (message : String) (cause : Option String := none) : Ending where
  exit := 1
  errors := "Error: " ++ message ++ "\n" ++
    match cause with
    | some c => "\nCaused by:\n    " ++ c ++ "\n"
    | none => ""

/-- Why a run could not be prepared. -/
inductive SetupError
  | filter (f : LogFilter.Fault)
  | load (e : LoadError)
  | breach (b : Breach)

/-- The end of a program that could not prepare its run. -/
def SetupError.ending : SetupError → Ending
  | filter f => .ofError f.message
  | load e => .ofError e.message e.cause?
  | breach _ => .ofError "internal assertion failed"

/-- Loads the plan, the graph and the options, in this order. -/
def prepareRun (files : Files) (a : Arguments) : Except SetupError (Session Unit) := do
  check ((LogFilter.fault? a.logFilter).map .filter)
  let plan ← (Plan.loadFile files a.plan).mapError .load
  let graph ← (Graph.loadFile files a.graph).mapError .load
  let options ← match a.options with
    | some path => (Options.loadFile files path).mapError .load
    | none => pure {}
  let s ← (Session.start plan graph (some Logic.echo) ()).mapError .breach
  return { s with executor := s.executor.withOptions options }

/-- Runs the plan. -/
def executeRun (s : Session Unit) : Report :=
  let (s, result) := Session.run.finish s
  .ofRun s.executor result

/-- The end of a program with a report. -/
def Ending.ofReport (elapsed : Option Binary64) (r : Report) : Ending :=
  match save? .yaml (r.toValue elapsed) with
  | none => .ofError LoadError.yamlHeading
  | some output =>
    if r.isFailure then { Ending.ofError "Execution plan failed" with output }
    else { exit := 0, output }

/-! ## Whole -/

/-- Runs a plan from files; `elapsed` is what the report says on the time it took. -/
def runPlan (files : Files) (a : Arguments) (elapsed : Option Binary64) : Ending :=
  match prepareRun files a with
  | .ok s => .ofReport elapsed (executeRun s)
  | .error e => e.ending

end StageFlow.CommandLine
