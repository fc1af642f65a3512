import StageFlow.Proofs.Calls

/-!
# Exchanges

A session in which something of the executor is exchanged goes on as it would have, if no operation of the
executor notices the exchange. Which operations there are is said once here, and that a whole run, of a plan
or of one node, does not notice what they do not notice.

## Contents
- **Outlines.** `Plan.outline`, all that a run looks up in the plan.
- **Exchanges.** `Executor.PassedOn`: every operation answers as it would have, and leaves behind what it
  would have left, exchanged.
- **Sessions.** `Session.onExecutor`, with the operations of a session.
- **Activities.** Runs ignore an exchange.
- **Calls.** `performAll_onExecutor`.
-/

namespace StageFlow

variable {σ : Type}

/-! ## Outlines -/

/-- The identifiers that each stage lists. -/
def Plan.outline (p : Plan) : List (List NodeId) := p.stages.map fun stage => stage.records.map (·.id)

namespace Session

/-- Of the records of a stage only the identifiers are looked at. -/
theorem runSequential_congr (logic : Logic σ) {rs rs' : List NodeRecord}
    (h : rs.map (·.id) = rs'.map (·.id)) (stats : RunStats) :
    runSequential logic rs stats = runSequential logic rs' stats := by
  induction rs generalizing rs' stats with
  | nil =>
    obtain rfl := List.map_eq_nil_iff.mp h.symm
    rfl
  | cons r rs ih =>
    cases rs' with
    | nil => simp at h
    | cons r' rs' =>
      obtain ⟨hid, hrest⟩ := List.cons.inj h
      simp only [runSequential, hid, ih hrest]

theorem prepareStage_congr {rs rs' : List NodeRecord} (h : rs.map (·.id) = rs'.map (·.id))
    (stats : RunStats) (s : Session σ) : prepareStage rs stats s = prepareStage rs' stats s := by
  induction rs generalizing rs' stats s with
  | nil =>
    obtain rfl := List.map_eq_nil_iff.mp h.symm
    rfl
  | cons r rs ih =>
    cases rs' with
    | nil => simp at h
    | cons r' rs' =>
      obtain ⟨hid, hrest⟩ := List.cons.inj h
      simp only [prepareStage, hid, ih hrest]

theorem runStage_congr (logic : Logic σ) {stage stage' : Stage}
    (h : stage.records.map (·.id) = stage'.records.map (·.id)) (stats : RunStats) :
    runStage logic stage stats = runStage logic stage' stats := by
  have hprepare : prepareStage (σ := σ) stage.records stats = prepareStage stage'.records stats :=
    funext fun s => prepareStage_congr h stats s
  unfold runStage runConcurrent
  rw [hprepare, runSequential_congr logic h]

/-- Stages that list the same identifiers run alike. -/
theorem runStages_congr (logic : Logic σ) {stages stages' : List Stage}
    (h : stages.map (fun stage => stage.records.map (·.id))
      = stages'.map fun stage => stage.records.map (·.id)) (stats : RunStats) :
    runStages logic stages stats = runStages logic stages' stats := by
  induction stages generalizing stages' stats with
  | nil =>
    obtain rfl := List.map_eq_nil_iff.mp h.symm
    rfl
  | cons stage stages ih =>
    cases stages' with
    | nil => simp at h
    | cons stage' stages' =>
      obtain ⟨hids, hrest⟩ := List.cons.inj h
      simp only [runStages, runStage_congr logic hids, ih hrest]

end Session

/-! ## Ground -/

/-- The node that stands at the position of an identifier. -/
def Graph.nodeAt? (g : Graph) (positions : List (NodeId × Nat)) (id : NodeId) :
    Option (Option NodeDescriptor) :=
  (Assoc.lookup id positions).map fun position => g.nodes[position]?

namespace Executor

/-- The same executor on another ground: with another plan and graph, and other positions in the graph. -/
def rebase (e : Executor σ) (plan : Plan) (graph : Graph) (positions : List (NodeId × Nat)) : Executor σ :=
  { e with plan, graph, positions }

/-- A graph has for each node with a controller the descriptor that the executor's own graph has. -/
def Fits (e : Executor σ) (g : Graph) (positions : List (NodeId × Nat)) : Prop :=
  ∀ id, e.tracks id = true → g.nodeAt? positions id = e.graph.nodeAt? e.positions id

/-- Two executors look nodes up in the same plan and graph, and have controllers for the same ones. -/
structure SameGround (e e' : Executor σ) : Prop where
  plan : e'.plan = e.plan
  graph : e'.graph = e.graph
  positions : e'.positions = e.positions
  index : e'.controllers.positions = e.controllers.positions

theorem SameGround.refl (e : Executor σ) : e.SameGround e := ⟨rfl, rfl, rfl, rfl⟩

theorem SameGround.trans {e₁ e₂ e₃ : Executor σ} (h : e₁.SameGround e₂) (h' : e₂.SameGround e₃) :
    e₁.SameGround e₃ :=
  ⟨h'.plan.trans h.plan, h'.graph.trans h.graph, h'.positions.trans h.positions, h'.index.trans h.index⟩

theorem SameGround.fits_iff {e e' : Executor σ} (h : e.SameGround e') (g : Graph)
    (ps : List (NodeId × Nat)) : e'.Fits g ps ↔ e.Fits g ps := by
  unfold Fits tracks KeyedVec.contains KeyedVec.position?
  rw [h.index, h.graph, h.positions]

variable (e : Executor σ) (q : Plan) (g : Graph) (ps : List (NodeId × Nat))

theorem sameGround_advance (step : Transition.Step) (id : NodeId) (old new : Controller) :
    e.SameGround (e.advance step id old new) := by
  unfold advance KeyedVec.modifyKey KeyedVec.setAt
  cases e.controllers.position? id with
  | none => exact ⟨rfl, rfl, rfl, rfl⟩
  | some index =>
    by_cases hlt : index < e.controllers.items.length
    · simp only [hlt, if_true]
      exact ⟨rfl, rfl, rfl, rfl⟩
    · simp only [hlt, if_false]
      exact ⟨rfl, rfl, rfl, rfl⟩

theorem sameGround_prepare (id : NodeId) : e.SameGround (e.prepare id).1 := by
  unfold prepare
  cases e.controllers.get? id with
  | error b => exact .refl e
  | ok found =>
    cases found with
    | none => exact .refl e
    | some c =>
      by_cases hrun : c.state = .running
      · simp only [hrun, if_true]
        exact .refl e
      · simp only [hrun, if_false]
        generalize c.beforeInvoking e.cache = assessed
        have hground := e.sameGround_advance .assess id c assessed
        generalize e.advance .assess id c assessed = e' at hground ⊢
        cases assessed.state with
        | ready =>
          simp only
          cases Assoc.lookup id e'.positions with
          | none => exact hground
          | some position =>
            simp only
            cases e'.graph.nodes[position]? with
            | none => exact hground
            | some node =>
              cases assessed.startRunning with
              | error b => exact hground
              | ok running => exact hground.trans (e'.sameGround_advance .start id assessed running)
        | _ => exact hground

theorem sameGround_settle (id : NodeId) (result : Except String Object) :
    e.SameGround (e.settle id result).1 := by
  unfold settle
  cases e.controllers.get? id with
  | error b => exact .refl e
  | ok found =>
    cases found with
    | none => exact .refl e
    | some c =>
      cases hj : judge id result with
      | ok values =>
        have hground := e.sameGround_advance .settle id c (c.afterInvoking false)
        exact ⟨hground.plan, hground.graph, hground.positions, hground.index⟩
      | error err => exact e.sameGround_advance .settle id c (c.afterInvoking true)

theorem sameGround_clearNode {e' : Executor σ} (id : NodeId) (h : e.clearNode id = .ok e') :
    e.SameGround e' := by
  unfold clearNode at h
  cases hget : e.controllers.get? id with
  | error b =>
    rw [hget] at h
    exact absurd h (by simp [bind, Except.bind])
  | ok found =>
    rw [hget] at h
    cases found with
    | none =>
      obtain rfl := Except.ok.inj h
      exact ⟨rfl, rfl, rfl, rfl⟩
    | some c =>
      obtain rfl := Except.ok.inj h
      have hground := sameGround_advance { e with cache := e.cache.erase id } .reset id c c.reset
      exact ⟨hground.plan, hground.graph, hground.positions, hground.index⟩

@[simp] theorem controllers_rebase : (e.rebase q g ps).controllers = e.controllers := rfl

@[simp] theorem cache_rebase : (e.rebase q g ps).cache = e.cache := rfl

@[simp] theorem graph_rebase : (e.rebase q g ps).graph = g := rfl

@[simp] theorem positions_rebase : (e.rebase q g ps).positions = ps := rfl

theorem advance_rebase (step : Transition.Step) (id : NodeId) (old new : Controller) :
    (e.rebase q g ps).advance step id old new = (e.advance step id old new).rebase q g ps := by
  unfold advance
  rw [controllers_rebase]
  cases e.controllers.modifyKey id fun _ => new <;> rfl

theorem settle_rebase (id : NodeId) (result : Except String Object) :
    (e.rebase q g ps).settle id result
      = ((e.settle id result).1.rebase q g ps, (e.settle id result).2) := by
  unfold settle
  simp only [controllers_rebase, advance_rebase]
  cases e.controllers.get? id with
  | error b => rfl
  | ok found =>
    cases found with
    | none => rfl
    | some c => cases hj : judge id result <;> rfl

theorem clearNode_rebase (id : NodeId) :
    (e.rebase q g ps).clearNode id = (e.clearNode id).map (·.rebase q g ps) := by
  unfold clearNode
  rw [controllers_rebase]
  cases e.controllers.get? id with
  | error b => rfl
  | ok found =>
    cases found with
    | none => rfl
    | some c =>
      exact congrArg Except.ok
        (advance_rebase { e with cache := e.cache.erase id } q g ps .reset id c c.reset)

theorem tracks_of_get? {e : Executor σ} {id : NodeId} {c : Controller}
    (h : e.controllers.get? id = .ok (some c)) : e.tracks id = true := by
  unfold tracks KeyedVec.contains
  unfold KeyedVec.get? at h
  cases hp : e.controllers.position? id with
  | none =>
    rw [hp] at h
    exact absurd h (by simp)
  | some index => rfl

/-- **A preparation looks up the node in the graph,** and nothing else. -/
theorem prepare_rebase {e : Executor σ} {g : Graph} {ps : List (NodeId × Nat)} (h : e.Fits g ps)
    (id : NodeId) :
    (e.rebase q g ps).prepare id = ((e.prepare id).1.rebase q g ps, (e.prepare id).2) := by
  unfold prepare
  simp only [controllers_rebase, cache_rebase, advance_rebase, positions_rebase, graph_rebase]
  cases hget : e.controllers.get? id with
  | error b => rfl
  | ok found =>
    cases found with
    | none => rfl
    | some c =>
      have hnode := h id (tracks_of_get? hget)
      by_cases hrun : c.state = .running
      · simp only [hrun, if_true]
      · simp only [hrun, if_false]
        generalize c.beforeInvoking e.cache = assessed
        have hground := sameGround_advance e .assess id c assessed
        generalize e.advance .assess id c assessed = e' at hground ⊢
        rw [← hground.graph, ← hground.positions, Graph.nodeAt?, Graph.nodeAt?] at hnode
        cases assessed.state with
        | ready =>
          simp only
          -- the two graphs have the same node for the identifier, or neither has one
          cases hp : Assoc.lookup id e'.positions with
          | none =>
            rw [hp, Option.map_none, Option.map_eq_none_iff] at hnode
            rw [hnode]
          | some position =>
            rw [hp, Option.map_some, Option.map_eq_some_iff] at hnode
            obtain ⟨position', hp', hnode⟩ := hnode
            simp only [hp', hnode]
            cases e'.graph.nodes[position]? with
            | none => rfl
            | some node => cases assessed.startRunning <;> rfl
        | _ => rfl

end Executor

/-! ## Exchanges -/

/-- An exchange of something of an executor that its operations do not notice, and that they pass on. -/
structure Executor.PassedOn (change : Executor σ → Executor σ) : Prop where
  tracks : ∀ e id, (change e).tracks id = e.tracks id
  logic : ∀ e, (change e).logic = e.logic
  options : ∀ e, (change e).options = e.options
  prepare : ∀ e id, (change e).prepare id = (change (e.prepare id).1, (e.prepare id).2)
  settle : ∀ e id result,
    (change e).settle id result = (change (e.settle id result).1, (e.settle id result).2)
  clearNode : ∀ e id, (change e).clearNode id = (e.clearNode id).map change
  clear : ∀ e, (change e).clear = change e.clear
  withOptions : ∀ e options, (change e).withOptions options = change (e.withOptions options)

namespace Session

open Executor (PassedOn)

variable {change : Executor σ → Executor σ} {s : Session σ}

/-! ## Sessions -/

/-- The same session with something of its executor exchanged. -/
def onExecutor (change : Executor σ → Executor σ) (s : Session σ) : Session σ :=
  { s with executor := change s.executor }

theorem prepare_onExecutor (h : PassedOn change) (s : Session σ) (id : NodeId) :
    (s.onExecutor change).prepare id = ((s.prepare id).1.onExecutor change, (s.prepare id).2) := by
  unfold prepare onExecutor
  rw [h.prepare]
  rcases s.executor.prepare id with ⟨e, stop | _ | _ | i⟩ <;> rfl

theorem settle_onExecutor (h : PassedOn change) (s : Session σ) (id : NodeId)
    (result : Except String Object) :
    (s.onExecutor change).settle id result
      = ((s.settle id result).1.onExecutor change, (s.settle id result).2) := by
  unfold settle onExecutor
  rw [h.settle]
  rfl

theorem prepareStage_onExecutor (h : PassedOn change) (rs : List NodeRecord) (stats : RunStats)
    (s : Session σ) :
    prepareStage rs stats (s.onExecutor change)
      = ((prepareStage rs stats s).1.onExecutor change, (prepareStage rs stats s).2) := by
  induction rs generalizing stats s with
  | nil => rfl
  | cons r rs ih =>
    have htracks : (s.onExecutor change).executor.tracks r.id = s.executor.tracks r.id :=
      h.tracks s.executor r.id
    unfold prepareStage
    rw [htracks, prepare_onExecutor h]
    by_cases ht : s.executor.tracks r.id = true
    · simp only [ht]
      rcases s.prepare r.id with ⟨s', stop | values | _ | i⟩
      · rfl
      · exact ih _ s'
      · exact ih _ s'
      · simp [ih]
    · simp [ht, ih]

theorem settleStage_onExecutor (h : PassedOn change)
    (results : List (Executor.Invocation × Except String Object)) (first : Option Stop) (s : Session σ) :
    settleStage results first (s.onExecutor change)
      = ((settleStage results first s).1.onExecutor change, (settleStage results first s).2) := by
  induction results generalizing first s with
  | nil => rfl
  | cons p rest ih =>
    obtain ⟨i, result⟩ := p
    unfold settleStage
    rw [settle_onExecutor h]
    rcases s.settle i.id result with ⟨s', (err | b) | run⟩
    · exact ih _ s'
    · rfl
    · exact ih _ s'

/-! ## Activities -/

theorem invoke_ignores (logic : Logic σ) (i : Executor.Invocation) :
    (invoke logic i).Ignores (onExecutor change) := by
  unfold invoke
  apply Activity.Ignores.zoom
  · intro s
    rfl
  · intro h s
    rfl

theorem runWith_ignores (h : PassedOn change) (logic : Logic σ) (id : NodeId) :
    (runWith logic id).Ignores (onExecutor change) := by
  unfold runWith
  refine (Activity.Ignores.step fun s => prepare_onExecutor h s id).bind ?_
  intro prepared
  rcases prepared with stop | values | _ | i
  · trivial
  · trivial
  · trivial
  · exact (invoke_ignores logic i).bind fun result =>
      Activity.Ignores.step fun s => settle_onExecutor h s i.id result

theorem runSequential_ignores (h : PassedOn change) (logic : Logic σ) (rs : List NodeRecord)
    (stats : RunStats) : (runSequential logic rs stats).Ignores (onExecutor change) := by
  induction rs generalizing stats with
  | nil => trivial
  | cons r rs ih =>
    unfold runSequential
    apply Activity.Ignores.read
    · intro s
      simp only [onExecutor, h.tracks]
    · intro s
      -- a node without a controller is passed over
      split
      · exact ih stats
      · refine (runWith_ignores h logic r.id).bind ?_
        intro run
        rcases run with stop | values | values | _
        · trivial
        · exact ih _
        · exact ih _
        · exact ih _

theorem runConcurrent_ignores (h : PassedOn change) (logic : Logic σ) (rs : List NodeRecord)
    (stats : RunStats) : (runConcurrent logic rs stats).Ignores (onExecutor change) := by
  unfold runConcurrent
  refine (Activity.Ignores.step fun s => prepareStage_onExecutor h rs stats s).bind ?_
  intro prepared
  rcases prepared with stop | ⟨stats, _ | ⟨i, is⟩⟩
  · trivial
  · trivial
  · have hall : (Activity.all ((i :: is).map (invoke logic))).Ignores (onExecutor change) := by
      apply Activity.Ignores.all
      intro t ht
      obtain ⟨j, _, rfl⟩ := List.mem_map.mp ht
      exact invoke_ignores logic j
    refine hall.bind ?_
    intro results
    refine (Activity.Ignores.step fun s => settleStage_onExecutor h _ none s).bind ?_
    intro first
    cases first <;> trivial

theorem runStage_ignores (h : PassedOn change) (logic : Logic σ) (stage : Stage) (stats : RunStats) :
    (runStage logic stage stats).Ignores (onExecutor change) := by
  unfold runStage
  apply Activity.Ignores.read
  · intro s
    simp only [onExecutor, h.options]
  · intro s
    cases s.executor.options.dispatch with
    | concurrent => exact runConcurrent_ignores h logic stage.records stats
    | sequential => exact runSequential_ignores h logic stage.records stats

theorem runStages_ignores (h : PassedOn change) (logic : Logic σ) (stages : List Stage)
    (stats : RunStats) : (runStages logic stages stats).Ignores (onExecutor change) := by
  induction stages generalizing stats with
  | nil => trivial
  | cons stage stages ih =>
    unfold runStages
    refine (runStage_ignores h logic stage stats).bind ?_
    intro result
    cases result with
    | error stop => trivial
    | ok stats => exact ih stats

theorem runNode_ignores (h : PassedOn change) (id : NodeId) :
    (runNode id : Activity (Session σ) _).Ignores (onExecutor change) := by
  unfold runNode
  apply Activity.Ignores.read
  · intro s
    simp only [onExecutor, h.logic]
  · intro s
    cases s.executor.logic with
    | none => trivial
    | some logic => exact runWith_ignores h logic id

/-! ## Calls -/

/-- A run looks only at the outline of the plan. -/
theorem run_onExecutor (h : PassedOn change)
    (houtline : (change s.executor).plan.outline = s.executor.plan.outline) :
    run.finish (s.onExecutor change) = ((run.finish s).1.onExecutor change, (run.finish s).2) := by
  cases hl : s.executor.logic with
  | none =>
    rw [run_finish_of_none hl, run_finish_of_none (s := s.onExecutor change) ((h.logic _).trans hl)]
  | some logic =>
    rw [run_finish hl, run_finish (s := s.onExecutor change) ((h.logic _).trans hl)]
    show (runStages logic (change s.executor).plan.stages {}).finish (s.onExecutor change) = _
    rw [runStages_congr logic houtline]
    exact (runStages_ignores h logic _ {}).finish s

/-- **An exchange that no operation notices** makes no difference to what a call answers, and stays the only
difference in what it leaves behind. -/
theorem perform_onExecutor (h : PassedOn change)
    (houtline : (change s.executor).plan.outline = s.executor.plan.outline) (call : Call) :
    (s.onExecutor change).perform call = ((s.perform call).1.onExecutor change, (s.perform call).2) := by
  unfold perform act
  cases call with
  | run => simp only [Activity.finish_map, run_onExecutor h houtline]
  | runNode id => simp only [Activity.finish_map, (runNode_ignores h id).finish s]
  | clear => simp only [Activity.finish_step, onExecutor, h.clear, note]
  | clearNode id =>
    simp only [Activity.finish_step, onExecutor, h.clearNode]
    cases s.executor.clearNode id <;> rfl
  | withOptions options => simp only [Activity.finish_step, onExecutor, h.withOptions]

theorem performAll_onExecutor (h : PassedOn change) (hs : s.executor.Coherent [])
    (houtline : ∀ e, e.plan = s.executor.plan → (change e).plan.outline = e.plan.outline)
    (calls : List Call) :
    (s.onExecutor change).performAll calls
      = ((s.performAll calls).1.onExecutor change, (s.performAll calls).2) := by
  induction calls generalizing s with
  | nil => rfl
  | cons call calls ih =>
    have hplan : (s.perform call).1.executor.plan = s.executor.plan :=
      congrArg Executor.Frame.plan (perform_frame hs call)
    have hrest := ih (perform_coherent hs call) fun e he => houtline e (he.trans hplan)
    simp only [performAll, perform_onExecutor h (houtline _ rfl), hrest]

end Session

end StageFlow
