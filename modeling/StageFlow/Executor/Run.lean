import StageFlow.Executor.Basic

/-!
# Runs

Running a node or a whole plan as an activity, so that invocations can pause, and the sequences of calls
that a host makes of an executor.

## Contents
- **Sessions.** `Session`, an executor with the state of its host and a journal of invocations.
- **One node.** `runNode`.
- **Stages.** `runSequential` and `runConcurrent`.
- **Plans.** `run`.
- **Calls.** `Call`, `Reply` and `Session.perform`.
-/

namespace StageFlow

/-! ## Sessions -/

/-- What passes between an executor, the logic and the host. -/
inductive Event
  /-- A node is handed to the logic with its inputs. -/
  | started (node : NodeDescriptor) (inputs : Object)
  /-- The executor takes in how the invocation of a node ended. -/
  | ended (id : NodeId) (result : Except String Object)
  /-- The host clears the result of a node. -/
  | cleared (id : NodeId)
  /-- The host clears all results. -/
  | clearedAll

/-- An executor, the state of the host that supplies its logic, and what has passed between them. -/
structure Session (σ : Type) where
  executor : Executor σ
  host : σ
  journal : List Event := []

/-- Counts of a run, by stage entry. -/
structure RunStats where
  invoked : Nat := 0
  cached : Nat := 0
  waiting : Nat := 0
  deriving DecidableEq, Repr

/-- What a host may ask of an executor. -/
inductive Call
  | run
  | runNode (id : NodeId)
  | clear
  | clearNode (id : NodeId)
  | withOptions (options : Options)

/-- What an executor answers. -/
inductive Reply
  | run (result : Except Stop RunStats)
  | runNode (result : Except Stop Executor.NodeRun)
  | done
  | breach (b : Breach)

namespace Session

variable {σ : Type}

/-- Adds to the journal. -/
def note (s : Session σ) (event : Event) : Session σ := { s with journal := s.journal ++ [event] }

/-- Prepares a node; one that is to be invoked is noted. -/
def prepare (id : NodeId) (s : Session σ) : Session σ × Except Stop Executor.Prepared :=
  match s.executor.prepare id with
  | (executor, .ok (.ready i)) =>
    ({ s with executor }.note (.started i.node i.inputs), .ok (.ready i))
  | (executor, r) => ({ s with executor }, r)

/-- Takes in how an invocation ended, and notes it. -/
def settle (id : NodeId) (result : Except String Object) (s : Session σ) :
    Session σ × Except Stop Executor.NodeRun :=
  let (executor, r) := s.executor.settle id result
  ({ s with executor }.note (.ended id result), r)

/-- Hands a node to the logic. -/
def invoke (logic : Logic σ) (i : Executor.Invocation) : Activity (Session σ) (Except String Object) :=
  ((logic i.node i.inputs).map Outcome.guarded).zoom host fun h s => { s with host := h }

/-! ## One node -/

/-- Runs one node with a logic. -/
def runWith (logic : Logic σ) (id : NodeId) : Activity (Session σ) (Except Stop Executor.NodeRun) := do
  match ← .step (prepare id) with
  | .error stop => return .error stop
  | .ok (.cached values) => return .ok (.cached values)
  | .ok .waiting => return .ok .waiting
  | .ok (.ready i) =>
    let result ← invoke logic i
    .step (settle i.id result)

/-- Runs one node. -/
def runNode (id : NodeId) : Activity (Session σ) (Except Stop Executor.NodeRun) := do
  match (← .read).executor.logic with
  | none => return .error (.error .missingLogic)
  | some logic => runWith logic id

/-! ## Stages -/

/-- Runs the nodes of a stage one after the other. The first failure ends the stage. -/
def runSequential (logic : Logic σ) :
    List NodeRecord → RunStats → Activity (Session σ) (Except Stop RunStats)
  | [], stats => return .ok stats
  | r :: rs, stats => do
    if !(← .read).executor.tracks r.id then runSequential logic rs stats
    else
      match ← runWith logic r.id with
      | .ok (.cached _) => runSequential logic rs { stats with cached := stats.cached + 1 }
      | .ok (.invoked _) => runSequential logic rs { stats with invoked := stats.invoked + 1 }
      | .ok .waiting => runSequential logic rs { stats with waiting := stats.waiting + 1 }
      | .error stop => return .error (stop.inNode r.id)

/-- Prepares the nodes of a stage, which gives those that are to be invoked. -/
def prepareStage :
    List NodeRecord → RunStats → Session σ →
      Session σ × Except Stop (RunStats × List Executor.Invocation)
  | [], stats, s => (s, .ok (stats, []))
  | r :: rs, stats, s =>
    if !s.executor.tracks r.id then prepareStage rs stats s
    else
      match s.prepare r.id with
      | (s, .error stop) => (s, .error (stop.inNode r.id))
      | (s, .ok (.cached _)) => prepareStage rs { stats with cached := stats.cached + 1 } s
      | (s, .ok .waiting) => prepareStage rs { stats with waiting := stats.waiting + 1 } s
      | (s, .ok (.ready i)) =>
        let (s, r) := prepareStage rs stats s
        (s, r.map fun (stats, is) => (stats, i :: is))

/-- Takes in the results of a stage in order, and gives the first failure. -/
def settleStage :
    List (Executor.Invocation × Except String Object) → Option Stop → Session σ →
      Session σ × Option Stop
  | [], first, s => (s, first)
  | (i, result) :: rest, first, s =>
    match s.settle i.id result with
    | (s, .ok _) => settleStage rest first s
    | (s, .error (.breach b)) => (s, some (.breach b))
    | (s, .error stop) => settleStage rest (first.or (some (stop.inNode i.id))) s

/-- Runs the nodes of a stage together: all ready nodes are prepared before any of them is invoked, and
results are taken in when all have ended. So a stage settles even if nodes of it fail. -/
def runConcurrent (logic : Logic σ) (records : List NodeRecord) (stats : RunStats) :
    Activity (Session σ) (Except Stop RunStats) := do
  match ← .step (prepareStage records stats) with
  | .error stop => return .error stop
  | .ok (stats, []) => return .ok stats
  | .ok (stats, pending) =>
    let results ← Activity.all (pending.map (invoke logic))
    match ← .step (settleStage (pending.zip results) none) with
    | none => return .ok { stats with invoked := stats.invoked + pending.length }
    | some stop => return .error stop

/-! ## Plans -/

/-- Runs a stage in the dispatch that the options ask for. -/
def runStage (logic : Logic σ) (stage : Stage) (stats : RunStats) :
    Activity (Session σ) (Except Stop RunStats) := do
  match (← .read).executor.options.dispatch with
  | .concurrent => runConcurrent logic stage.records stats
  | .sequential => runSequential logic stage.records stats

/-- Runs stages in order, up to the first that fails. -/
def runStages (logic : Logic σ) : List Stage → RunStats → Activity (Session σ) (Except Stop RunStats)
  | [], stats => return .ok stats
  | stage :: stages, stats => do
    match ← runStage logic stage stats with
    | .ok stats => runStages logic stages stats
    | .error stop => return .error stop

/-- Runs the plan. -/
def run : Activity (Session σ) (Except Stop RunStats) := do
  let e := (← .read).executor
  match e.logic with
  | none => return .error (.error .missingLogic)
  | some logic => runStages logic e.plan.stages {}

/-! ## Calls -/

/-- A call, as an activity. -/
def act : Call → Activity (Session σ) Reply
  | .run => run.map .run
  | .runNode id => (runNode id).map .runNode
  | .clear => .step fun s => ({ s with executor := s.executor.clear }.note .clearedAll, .done)
  | .clearNode id =>
    .step fun s =>
      match s.executor.clearNode id with
      | .ok executor => ({ s with executor }.note (.cleared id), .done)
      | .error b => (s, .breach b)
  | .withOptions options =>
    .step fun s => ({ s with executor := s.executor.withOptions options }, .done)

/-- Makes a call and waits for its end. -/
def perform (s : Session σ) (c : Call) : Session σ × Reply := (act c).finish s

/-- Makes calls one after the other. -/
def performAll (s : Session σ) : List Call → Session σ × List Reply
  | [] => (s, [])
  | c :: cs =>
    let (s, r) := s.perform c
    let (s, rs) := performAll s cs
    (s, r :: rs)

/-- The session of a fresh executor. -/
def start (plan : Plan) (graph : Graph) (logic : Option (Logic σ)) (host : σ) :
    Except Breach (Session σ) :=
  (Executor.new plan graph logic).map fun executor => { executor, host }

end Session

end StageFlow
