import StageFlow.Proofs.Sequential

/-!
# Sequences of calls

A host makes calls one after the other and waits for the end of each. Between two calls nothing is in
flight, and the executor is coherent.

## Contents
- **Plans.** Running a plan, or one node, as steps.
- **Clearing.** `clear`, `clearNode` and `withOptions` keep an executor coherent.
- **Calls.** `Reachable`, and what holds of every session that can be reached.
- **A small plan.** `Sample`, for statements about runs to be tried on.
-/

namespace StageFlow

open Executor (Invocation NodeRun judge)

/-! ## Plans -/

namespace Session

variable {σ : Type} {s s₁ : Session σ} {logic : Logic σ} {stats stats₁ : RunStats}

theorem runStage_concurrent (stage : Stage) (stats : RunStats)
    (h : s.executor.options.dispatch = .concurrent) :
    (runStage logic stage stats).finish s = (runConcurrent logic stage.records stats).finish s := by
  unfold runStage
  rw [Activity.finish_seq, Activity.finish_read]
  simp only [h]

theorem runStage_sequential (stage : Stage) (stats : RunStats)
    (h : s.executor.options.dispatch = .sequential) :
    (runStage logic stage stats).finish s = (runSequential logic stage.records stats).finish s := by
  unfold runStage
  rw [Activity.finish_seq, Activity.finish_read]
  simp only [h]

/-- A stage is a sequence of steps, in either dispatch. -/
theorem runStage_steps (logic : Logic σ) (stage : Stage) (stats : RunStats)
    (hs : Moment.Sound ⟨[], s⟩) :
    Steps ⟨[], s⟩ ⟨[], ((runStage logic stage stats).finish s).1⟩ := by
  cases hd : s.executor.options.dispatch with
  | concurrent =>
    obtain ⟨s', batch, stats', heq, hserved, _⟩ :=
      runConcurrent_eq logic.yields_trivial stage.records stats hs
    rw [runStage_concurrent stage stats hd, heq]
    exact hserved.steps
  | sequential =>
    rw [runStage_sequential stage stats hd]
    exact runSequential_steps logic stage.records stats hs

theorem runStages_cons_ok (stage : Stage) (stages : List Stage)
    (h : (runStage logic stage stats).finish s = (s₁, .ok stats₁)) :
    (runStages logic (stage :: stages) stats).finish s = (runStages logic stages stats₁).finish s₁ := by
  rw [runStages, Activity.finish_seq, h]

theorem runStages_cons_error (stage : Stage) (stages : List Stage) {stop : Stop}
    (h : (runStage logic stage stats).finish s = (s₁, .error stop)) :
    (runStages logic (stage :: stages) stats).finish s = (s₁, .error stop) := by
  rw [runStages, Activity.finish_seq, h]
  rfl

/-- A run over stages is a sequence of steps. -/
theorem runStages_steps (logic : Logic σ) (stages : List Stage) (stats : RunStats)
    (hs : Moment.Sound ⟨[], s⟩) :
    Steps ⟨[], s⟩ ⟨[], ((runStages logic stages stats).finish s).1⟩ := by
  induction stages generalizing s stats with
  | nil => exact .refl
  | cons stage stages ih =>
    have hfirst := runStage_steps logic stage stats hs
    cases hr : (runStage logic stage stats).finish s with
    | mk s₁ answer =>
      rw [hr] at hfirst
      -- each stage starts where the one before has left off
      cases answer with
      | error stop =>
        rw [runStages_cons_error stage stages hr]
        exact hfirst
      | ok stats₁ =>
        rw [runStages_cons_ok stage stages hr]
        exact hfirst.trans (ih stats₁ (hfirst.sound hs))

theorem run_finish (h : s.executor.logic = some logic) :
    run.finish s = (runStages logic s.executor.plan.stages {}).finish s := by
  unfold run
  rw [Activity.finish_seq, Activity.finish_read]
  simp only [h]

theorem run_finish_of_none (h : s.executor.logic = none) :
    run.finish s = (s, .error (.error .missingLogic)) := by
  unfold run
  rw [Activity.finish_seq, Activity.finish_read]
  simp only [h, Activity.finish_pure]

theorem run_steps (hs : Moment.Sound ⟨[], s⟩) : Steps ⟨[], s⟩ ⟨[], (run.finish s).1⟩ := by
  cases hl : s.executor.logic with
  | none =>
    rw [run_finish_of_none hl]
  | some logic =>
    rw [run_finish hl]
    exact runStages_steps logic s.executor.plan.stages {} hs

/-- Nothing is done for a node without a controller. -/
theorem runWith_untracked {id : NodeId} (hw : s.executor.WellFormed)
    (hc : s.executor.controllers.find? id = none) :
    (runWith logic id).finish s = (s, .error (.error (.unknownNode id))) := by
  have hprep : s.prepare id = (s, .error (.error (.unknownNode id))) := by
    unfold prepare Executor.prepare
    rw [hw.indexed.get?_eq, hc]
  unfold runWith
  rw [Activity.finish_seq, Activity.finish_step, hprep]
  rfl

theorem runNode_finish (id : NodeId) (h : s.executor.logic = some logic) :
    (runNode id).finish s = (runWith logic id).finish s := by
  unfold runNode
  rw [Activity.finish_seq, Activity.finish_read]
  simp only [h]

theorem runNode_finish_of_none (id : NodeId) (h : s.executor.logic = none) :
    (runNode id).finish s = (s, .error (.error .missingLogic)) := by
  unfold runNode
  rw [Activity.finish_seq, Activity.finish_read]
  simp only [h, Activity.finish_pure]

/-- **What the run of one node comes to:** it takes a logic and a controller, and then the node is served. -/
theorem runNode_cases (id : NodeId) (hs : Moment.Sound ⟨[], s⟩) :
    (s.executor.logic = none ∧ (runNode id).finish s = (s, .error (.error .missingLogic)))
      ∨ (∃ logic, s.executor.logic = some logic ∧ s.executor.controllers.find? id = none
        ∧ (runNode id).finish s = (s, .error (.error (.unknownNode id))))
      ∨ ∃ logic s' batch, s.executor.logic = some logic
        ∧ (runNode id).finish s = (s', nodeAnswer s.executor id batch) ∧ Served s [id] batch s'
        ∧ ∀ x ∈ batch, x.2 = ((logic x.1.node x.1.inputs).finish s.host).2.guarded := by
  cases hl : s.executor.logic with
  | none => exact Or.inl ⟨rfl, runNode_finish_of_none id hl⟩
  | some logic =>
    rw [runNode_finish id hl]
    cases hc : s.executor.controllers.find? id with
    | none => exact Or.inr (Or.inl ⟨logic, rfl, rfl, runWith_untracked hs.coherent.wellFormed hc⟩)
    | some c =>
      obtain ⟨s', batch, hserved⟩ := runWith_served logic hs hc
      exact Or.inr (Or.inr ⟨logic, s', batch, rfl, hserved⟩)

theorem runNode_steps (id : NodeId) (hs : Moment.Sound ⟨[], s⟩) :
    Steps ⟨[], s⟩ ⟨[], ((runNode id).finish s).1⟩ := by
  rcases runNode_cases id hs with ⟨_, heq⟩ | ⟨_, _, _, heq⟩ | ⟨_, s', batch, _, heq, hserved, _⟩
  · rw [heq]
  · rw [heq]
  · rw [heq]
    exact hserved.steps

end Session

/-! ## Clearing -/

namespace Executor

variable {σ : Type} {e : Executor σ} {flight : List NodeId}

theorem frame_clear (e : Executor σ) : e.clear.frame = e.frame := by
  have hmap : (e.controllers.mapItems Controller.reset).items.map (fun c => (c.id, c.bindings))
      = e.controllers.items.map fun c => (c.id, c.bindings) := by
    unfold KeyedVec.mapItems
    rw [List.map_map]
    rfl
  unfold frame clear
  rw [hmap]
  rfl

theorem find?_clear (e : Executor σ) (id : NodeId) :
    e.clear.controllers.find? id = (e.controllers.find? id).map Controller.reset :=
  KeyedVec.find?_mapItems (f := Controller.reset) (fun _ => rfl) id

/-- Without results all nodes are waiting. -/
theorem Coherent.cleared (h : e.Coherent flight) : e.clear.Coherent [] := by
  refine ⟨h.wellFormed.of_frame (frame_clear e), ?_, ?_, ?_, ?_⟩
  · intro id
    rw [find?_clear]
    simp [Controller.reset]
  · intro id c hc
    rw [find?_clear, Option.map_eq_some_iff] at hc
    obtain ⟨d, _, rfl⟩ := hc
    exact fun hs => NodeState.noConfusion hs
  · intro id
    rw [find?_clear]
    simp [clear, Controller.reset]
  · intro id r hr
    exact absurd hr (by simp [clear])

/-- The outcome of clearing one node: its controller is reset, and its entry is removed. -/
structure ClearedTo (e : Executor σ) (id : NodeId) (e' : Executor σ) : Prop where
  frame : e'.frame = e.frame
  cache : e'.cache = e.cache.erase id
  find? : ∀ k, e'.controllers.find? k
    = (e.controllers.find? k).map fun c => if k = id then c.reset else c
  history : e'.history = e.history
    ++ (e.controllers.find? id).toList.map fun c => ⟨id, .reset, c.state, .waiting⟩

/-- Clearing one node never breaks off. -/
theorem Coherent.clearNode_eq (h : e.Coherent flight) (id : NodeId) :
    ∃ e', e.clearNode id = .ok e' ∧ e.ClearedTo id e' := by
  have hw := h.wellFormed
  unfold clearNode
  rw [hw.indexed.get?_eq]
  -- a node without a controller only loses its entry, if it has one
  cases hc : e.controllers.find? id with
  | none =>
    refine ⟨_, rfl, rfl, rfl, ?_, by rw [hc]; exact (List.append_nil _).symm⟩
    intro k
    show e.controllers.find? k = _
    cases hk : e.controllers.find? k with
    | none => rfl
    | some d =>
      have hne : k ≠ id := by
        rintro rfl
        rw [hc] at hk
        exact absurd hk (by simp)
      simp only [Option.map_some, if_neg hne]
  | some c =>
    have hw' : ({ e with cache := e.cache.erase id } : Executor σ).WellFormed := hw.of_frame rfl
    obtain ⟨hf, hca, hfind⟩ := hw'.advance hc .reset .waiting
    refine ⟨_, rfl, hf, hca, ?_, by rw [hc]; exact hw'.history_advance hc .reset .waiting⟩
    intro k
    rw [Controller.reset, hfind k]
    by_cases hk : k = id
    · rw [if_pos hk, hk, hc, Option.map_some, if_pos rfl]
      rfl
    · simp only [if_neg hk, Option.map_id']

/-- A node without a result is waiting, whatever it was before. -/
theorem Coherent.clearedNode (h : e.Coherent []) {id : NodeId} {e' : Executor σ}
    (he : e.clearNode id = .ok e') : e'.Coherent [] := by
  obtain ⟨e₁, heq, hf, hca, hfind, _⟩ := h.clearNode_eq id
  obtain rfl := Except.ok.inj (heq.symm.trans he)
  refine ⟨h.wellFormed.of_frame hf, ?_, ?_, ?_, ?_⟩
  · intro k
    have hk := h.flying k
    rw [hfind k]
    by_cases hid : k = id
    · simp [hid, Controller.reset]
    · simpa [hid] using hk
  · intro k c hc
    rw [hfind k, Option.map_eq_some_iff] at hc
    obtain ⟨d, hd, rfl⟩ := hc
    split
    · exact fun hs => NodeState.noConfusion hs
    · exact h.notReady k d hd
  · intro k
    have hk := h.stored k
    rw [hfind k, hca, Cache.get?_erase]
    by_cases hid : k = id
    · simp [hid, Controller.reset]
    · simpa [hid] using hk
  · intro k r hr
    rw [hca, Cache.get?_erase] at hr
    split at hr
    · exact absurd hr (by simp)
    · exact h.clean k r hr

/-- Options have no part in coherence. -/
theorem Coherent.withOptions (h : e.Coherent flight) (options : Options) :
    (e.withOptions options).Coherent flight where
  wellFormed := ⟨h.wellFormed.indexed, h.wellFormed.positions, h.wellFormed.described⟩
  flying := h.flying
  notReady := h.notReady
  stored := h.stored
  clean := h.clean

/-- A fresh executor is coherent. -/
theorem coherent_of_waiting (hw : e.WellFormed) (hc : ∀ c ∈ e.controllers.items, c.state = .waiting)
    (hcache : e.cache = .empty) : e.Coherent [] := by
  have hstate : ∀ {id c}, e.controllers.find? id = some c → c.state = .waiting := fun h =>
    hc _ (KeyedVec.mem_of_find? h)
  refine ⟨hw, ?_, ?_, ?_, ?_⟩
  · intro id
    refine ⟨fun h => absurd h List.not_mem_nil, ?_⟩
    rintro ⟨c, h, hs⟩
    rw [hstate h] at hs
    exact NodeState.noConfusion hs
  · intro id c h
    rw [hstate h]
    exact fun hs => NodeState.noConfusion hs
  · intro id
    rw [hcache, Cache.get?_empty]
    constructor
    · rintro ⟨r, hr⟩
      exact absurd hr (by simp)
    · rintro ⟨c, h, hs⟩
      rw [hstate h] at hs
      rcases hs with hs | hs <;> exact NodeState.noConfusion hs
  · intro id r hr
    rw [hcache, Cache.get?_empty] at hr
    exact absurd hr (by simp)

end Executor

/-! ## Calls -/

namespace Session

variable {σ : Type} {s : Session σ}

/-- The sessions that come of a fresh one by calls, the end of each of which is waited for. -/
inductive Reachable : Session σ → Prop
  | start {plan : Plan} {graph : Graph} {logic : Option (Logic σ)} {host : σ} {s : Session σ}
      (h : Session.start plan graph logic host = .ok s) : Reachable s
  | perform {s : Session σ} (h : Reachable s) (call : Call) : Reachable (s.perform call).1

theorem start_of_new {plan : Plan} {graph : Graph} {logic : Option (Logic σ)} {e : Executor σ}
    (h : Executor.new plan graph logic = .ok e) (host : σ) :
    Session.start plan graph logic host = .ok { executor := e, host } := by
  unfold start
  rw [h]
  rfl

/-- **A session starts for every plan and graph.** Its nodes are all waiting, and it has no results. -/
theorem start_eq_ok (plan : Plan) (graph : Graph) (logic : Option (Logic σ)) (host : σ) :
    ∃ s, Session.start plan graph logic host = .ok s ∧ s.executor.Coherent []
      ∧ s.executor.cache = .empty ∧ s.journal = []
      ∧ s.executor.plan = plan ∧ s.executor.graph = graph ∧ s.executor.logic = logic := by
  obtain ⟨e, he, hw, hitems, hcache, hplan, hgraph, hlogic, _⟩ :=
    Executor.new_eq_ok plan graph logic
  have hwaiting := Executor.waiting_of_new hitems
  exact ⟨{ executor := e, host }, start_of_new he host, Executor.coherent_of_waiting hw hwaiting hcache,
    hcache, rfl, hplan, hgraph, hlogic⟩

theorem moment_sound (h : s.executor.Coherent []) : Moment.Sound ⟨[], s⟩ :=
  ⟨h, List.nodup_nil, fun _ hi => absurd hi List.not_mem_nil⟩

theorem perform_run (s : Session σ) : s.perform .run = ((run.finish s).1, .run (run.finish s).2) :=
  Activity.finish_map _ _ _

theorem perform_runNode (s : Session σ) (id : NodeId) :
    s.perform (.runNode id) = (((runNode id).finish s).1, .runNode ((runNode id).finish s).2) :=
  Activity.finish_map _ _ _

/-- A call that runs something is a sequence of steps. -/
theorem perform_run_steps (hs : s.executor.Coherent []) :
    Steps ⟨[], s⟩ ⟨[], (s.perform .run).1⟩ := by
  rw [perform_run]
  exact run_steps (moment_sound hs)

theorem perform_runNode_steps (hs : s.executor.Coherent []) (id : NodeId) :
    Steps ⟨[], s⟩ ⟨[], (s.perform (.runNode id)).1⟩ := by
  rw [perform_runNode]
  exact runNode_steps id (moment_sound hs)

/-- The answer of a run is that of the activity. -/
theorem run_finish_of_perform {s' : Session σ} {answer : Except Stop RunStats}
    (h : s.perform .run = (s', .run answer)) : run.finish s = (s', answer) := by
  rw [perform_run] at h
  obtain ⟨h₁, h₂⟩ := Prod.mk.inj h
  exact Prod.ext h₁ (Reply.run.inj h₂)

/-- The answer of the run of one node is that of the activity. -/
theorem runNode_finish_of_perform {id : NodeId} {s' : Session σ} {answer : Except Stop NodeRun}
    (h : s.perform (.runNode id) = (s', .runNode answer)) : (runNode id).finish s = (s', answer) := by
  rw [perform_runNode] at h
  obtain ⟨h₁, h₂⟩ := Prod.mk.inj h
  exact Prod.ext h₁ (Reply.runNode.inj h₂)

theorem perform_clearNode {id : NodeId} {e' : Executor σ} (h : s.executor.clearNode id = .ok e') :
    s.perform (.clearNode id) = (⟨e', s.host, s.journal ++ [.cleared id]⟩, .done) := by
  unfold perform act
  rw [Activity.finish_step]
  simp only [h]
  rfl

/-- **Every call leaves a coherent executor coherent,** whatever it answers. -/
theorem perform_coherent (h : s.executor.Coherent []) (call : Call) :
    (s.perform call).1.executor.Coherent [] := by
  have hs := moment_sound h
  cases call with
  | run => exact ((perform_run_steps h).sound hs).coherent
  | runNode id => exact ((perform_runNode_steps h id).sound hs).coherent
  | clear => exact h.cleared
  | clearNode id =>
    obtain ⟨e', he, _⟩ := h.clearNode_eq id
    rw [perform_clearNode he]
    exact h.clearedNode he
  | withOptions options => exact h.withOptions options

/-- Calls change nothing of the frame but the options. -/
theorem perform_frame (hs : s.executor.Coherent []) (call : Call) :
    (s.perform call).1.executor.frame
      = (s.executor.withOptions (s.perform call).1.executor.options).frame := by
  cases call with
  | run =>
    have hf := (perform_run_steps hs).frame
    rw [Executor.options_of_frame hf]
    exact hf
  | runNode id =>
    have hf := (perform_runNode_steps hs id).frame
    rw [Executor.options_of_frame hf]
    exact hf
  | clear => exact Executor.frame_clear s.executor
  | clearNode id =>
    obtain ⟨e', he, hcleared⟩ := hs.clearNode_eq id
    have hf := hcleared.frame
    rw [perform_clearNode he]
    show e'.frame = (s.executor.withOptions e'.options).frame
    rw [Executor.options_of_frame hf]
    exact hf
  | withOptions options => rfl

theorem performAll_frame (hs : s.executor.Coherent []) (calls : List Call) :
    (s.performAll calls).1.executor.frame
      = (s.executor.withOptions (s.performAll calls).1.executor.options).frame := by
  induction calls generalizing s with
  | nil => rfl
  | cons call calls ih =>
    apply (ih (perform_coherent hs call)).trans
    have hfirst := perform_frame hs call
    exact congrArg (fun f : Executor.Frame σ =>
      { f with options := (s.performAll (call :: calls)).1.executor.options }) hfirst

/-- The logic stays with the executor. -/
theorem perform_logic (hs : s.executor.Coherent []) (call : Call) :
    (s.perform call).1.executor.logic = s.executor.logic :=
  congrArg Executor.Frame.logic (perform_frame hs call)

theorem performAll_logic (hs : s.executor.Coherent []) (calls : List Call) :
    (s.performAll calls).1.executor.logic = s.executor.logic :=
  congrArg Executor.Frame.logic (performAll_frame hs calls)

theorem Reachable.coherent (h : Reachable s) : s.executor.Coherent [] := by
  induction h with
  | @start plan graph logic host s hs =>
    obtain ⟨s', hs', hcoh, _⟩ := start_eq_ok plan graph logic host
    obtain rfl := Except.ok.inj (hs'.symm.trans hs)
    exact hcoh
  | perform _ call ih => exact perform_coherent ih call

theorem Reachable.sound (h : Reachable s) : Moment.Sound ⟨[], s⟩ := moment_sound h.coherent

theorem Reachable.of_perform (h : Reachable s) {call : Call} {s' : Session σ} {reply : Reply}
    (hcall : s.perform call = (s', reply)) : Reachable s' := by
  have hnext := h.perform call
  rwa [hcall] at hnext

theorem Reachable.performAll (h : Reachable s) (calls : List Call) :
    Reachable (s.performAll calls).1 := by
  induction calls generalizing s with
  | nil => exact h
  | cons call calls ih => exact ih (h.perform call)

/-- **Cache and controllers agree after every call.** A node has an entry just if its controller says that
it has run, no node is about to be invoked or in flight, and no entry tells of a failure. -/
theorem cache_agrees_with_controllers (plan : Plan) (graph : Graph) (logic : Option (Logic σ))
    (host : σ) :
    ∃ s, Session.start plan graph logic host = .ok s ∧ ∀ calls : List Call,
      let e := (s.performAll calls).1.executor
      (∀ id, e.cache.has id = true
        ↔ ∃ c, e.controller? id = .ok (some c) ∧ (c.state = .cached ∨ c.state = .succeeded))
      ∧ (∀ c ∈ e.controllers.items, c.state ≠ .ready ∧ c.state ≠ .running)
      ∧ e.working = false
      ∧ ∀ id r, e.cache.get? id = some r → r.get? errorKey = none := by
  obtain ⟨s, hs, _⟩ := start_eq_ok plan graph logic host
  refine ⟨s, hs, ?_⟩
  intro calls
  have hcoh := ((Reachable.start hs).performAll calls).coherent
  intro e
  have hrest : ∀ c ∈ e.controllers.items, c.state ≠ .ready ∧ c.state ≠ .running := by
    intro c hc
    have hfind := hcoh.wellFormed.indexed.find?_key hc
    refine ⟨hcoh.notReady _ c hfind, ?_⟩
    intro hrun
    exact absurd ((hcoh.flying _).mpr ⟨c, hfind, hrun⟩) List.not_mem_nil
  refine ⟨?_, hrest, ?_, hcoh.clean⟩
  · intro id
    rw [Cache.has_iff, hcoh.stored, hcoh.wellFormed.controller?_eq]
    simp only [Except.ok.injEq]
  · unfold Executor.working
    rw [List.any_eq_false]
    intro c hc
    simpa using (hrest c hc).2

end Session

/-! ## A small plan -/

namespace Sample

/-- Two producers, and a consumer of the first one. -/
def plan : Plan where
  stages :=
    [.static [{ id := ⟨"a"⟩ }, { id := ⟨"b"⟩ }],
      .static [{ id := ⟨"c"⟩, incoming := [⟨{ id := ⟨"a"⟩ }, "out", "in"⟩] }]]

/-- A producer that is listed three times, and its consumer. -/
def repeating : Plan where
  stages :=
    [.static [{ id := ⟨"a"⟩ }, { id := ⟨"a"⟩ }],
      .static [{ id := ⟨"a"⟩ }, { id := ⟨"c"⟩, incoming := [⟨{ id := ⟨"a"⟩ }, "out", "in"⟩] }]]

/-- A producer with two links to one consumer and one to another in between, each link named on both
sides. -/
def parallel : Plan where
  stages :=
    [.static
        [{ id := ⟨"a"⟩
           outgoing :=
             [⟨{ id := ⟨"c"⟩ }, "x", "p"⟩, ⟨{ id := ⟨"b"⟩ }, "x", "q"⟩,
               ⟨{ id := ⟨"c"⟩ }, "y", "r"⟩] }],
      .static
        [{ id := ⟨"b"⟩, incoming := [⟨{ id := ⟨"a"⟩ }, "x", "q"⟩] },
          { id := ⟨"c"⟩
            incoming := [⟨{ id := ⟨"a"⟩ }, "x", "p"⟩, ⟨{ id := ⟨"a"⟩ }, "y", "r"⟩] }]]

/-- The nodes of `Sample.plan`; the first one is configured with its output. -/
def graph : Graph where
  nodes :=
    [{ id := ⟨"a"⟩, kind := "", configuration := some (SortedMap.empty.insert "out" (.bool true)) },
      { id := ⟨"b"⟩, kind := "" }, { id := ⟨"c"⟩, kind := "" }]

/-- Logic that gives the outputs of `Sample.parallel` whatever it is handed. -/
def twoOutputs : Logic Unit := fun _ _ =>
  .done (.returned ((SortedMap.empty.insert "x" (.bool true)).insert "y" (.bool false)))

end Sample

end StageFlow
