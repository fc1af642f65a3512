import StageFlow.Proofs.Calls

/-!
# Failing stages

Under concurrent dispatch a run that fails has passed some stages and has settled the next one completely;
nothing has been done for the stages after it.

## Contents
- **Stages before the failure.** What stages that are passed leave behind.
- **The failing stage.** `runStages_error` finds it.
- **Runs.** `failing_stage_settles`.
-/

namespace StageFlow.Session

open Executor (Invocation)

variable {σ : Type} {s s' : Session σ} {logic : Logic σ} {stats stats' : RunStats}

/-! ## Stages before the failure -/

/-- What a concurrent stage adds to the journal: all its nodes start before any of them ends. -/
def stageEvents (batch : List Ending) : List Event :=
  batch.map (fun x => x.1.event) ++ batch.map Ending.event

/-- An ending has been taken in: a result is in the cache, a failure is not. -/
def TakenIn (e : Executor σ) (x : Ending) : Prop :=
  ∃ c, e.controller? x.1.id = .ok (some c) ∧
    match x.outcome with
    | .ok values => c.state = .succeeded ∧ e.cache.get? x.1.id = some (.ofObject values)
    | .error _ => c.state = .failed ∧ e.cache.get? x.1.id = none

/-- A stage takes in all its endings. -/
theorem Served.takenIn {ids : List NodeId} {batch : List Ending} (h : Served s ids batch s')
    (hw : s'.executor.WellFormed) {x : Ending} (hx : x ∈ batch) : TakenIn s'.executor x := by
  obtain ⟨hget, c, hc, hstate⟩ := h.of_mem hx
  refine ⟨c, by rw [hw.controller?_eq, hc], ?_⟩
  unfold Ending.entry? at hget
  cases ho : x.outcome with
  | ok values =>
    rw [ho] at hget hstate
    exact ⟨hstate, hget⟩
  | error err =>
    rw [ho] at hget hstate
    exact ⟨hstate, hget⟩

/-- A concurrent stage, with what it adds to the journal. -/
theorem runStage_concurrent_eq (logic : Logic σ) (stage : Stage) (stats : RunStats)
    (hs : Moment.Sound ⟨[], s⟩)
    (hd : s.executor.options.dispatch = .concurrent) :
    ∃ s' batch stats', (runStage logic stage stats).finish s = (s', stageAnswer batch stats')
      ∧ Served s (stage.records.map (·.id)) batch s'
      ∧ s'.journal = s.journal ++ stageEvents batch := by
  obtain ⟨s', batch, stats', heq, hserved, _, hjournal, _⟩ :=
    runConcurrent_eq logic.yields_trivial stage.records stats hs
  refine ⟨s', batch, stats', ?_, hserved, by rw [hjournal, stageEvents, List.append_assoc]⟩
  rw [runStage_concurrent stage stats hd, heq]

/-- **Concurrent stages that are passed** have had no failures, and have touched their own nodes only. -/
theorem runStages_concurrent_ok (stages : List Stage) (hs : Moment.Sound ⟨[], s⟩)
    (hd : s.executor.options.dispatch = .concurrent)
    (h : (runStages logic stages stats).finish s = (s', .ok stats')) :
    ∃ batches : List (List Ending), s'.journal = s.journal ++ batches.flatMap stageEvents
      ∧ (∀ batch ∈ batches, ∀ x ∈ batch, ∃ values, x.outcome = .ok values
        ∧ s'.executor.cache.get? x.1.id = some (.ofObject values))
      ∧ ∀ id, (∀ stage ∈ stages, id ∉ stage.records.map (·.id)) →
        s'.executor.controllers.find? id = s.executor.controllers.find? id
          ∧ s'.executor.cache.get? id = s.executor.cache.get? id := by
  induction stages generalizing s stats with
  | nil =>
    obtain ⟨rfl, -⟩ := Prod.mk.inj h
    exact ⟨[], (List.append_nil _).symm, fun _ hb => absurd hb List.not_mem_nil,
      fun _ _ => ⟨rfl, rfl⟩⟩
  | cons stage stages ih =>
    obtain ⟨s₁, batch, stats₁, heq, hserved, hjournal⟩ :=
      runStage_concurrent_eq logic stage stats hs hd
    cases ha : stageAnswer batch stats₁ with
    | error stop =>
      rw [ha] at heq
      rw [runStages_cons_error stage stages heq] at h
      exact absurd (Prod.mk.inj h).2 (by simp)
    | ok stats₂ =>
      rw [ha] at heq
      rw [runStages_cons_ok stage stages heq] at h
      obtain ⟨hf, _⟩ := stageAnswer_eq_ok ha
      have hsound := hserved.steps.sound hs
      have hframe := hserved.steps.frame
      have hd₁ : s₁.executor.options.dispatch = .concurrent := by
        rw [Executor.options_of_frame hframe, hd]
      obtain ⟨batches, hj, hbatches, hothers⟩ := ih hsound hd₁ h
      refine ⟨batch :: batches, ?_, ?_, ?_⟩
      · rw [hj, hjournal, List.flatMap_cons, List.append_assoc]
      · intro b hb x hx
        rcases List.mem_cons.mp hb with rfl | hb
        -- what the first stage has stored stays through the others
        · obtain ⟨values, ho⟩ := firstFailure?_eq_none.mp hf x hx
          obtain ⟨hget, _⟩ := hserved.of_mem hx
          unfold Ending.entry? at hget
          rw [ho] at hget
          have hsteps := runStages_steps logic stages stats₂ hsound
          rw [h] at hsteps
          exact ⟨values, ho, hsteps.extends hsound _ _ hget⟩
        · exact hbatches b hb x hx
      · intro id hid
        obtain ⟨hfind, hget⟩ := hothers id fun st hst => hid st (List.mem_cons_of_mem stage hst)
        have hout := hid stage List.mem_cons_self
        exact ⟨hfind.trans (hserved.find?_of_not_mem hout), hget.trans (hserved.get?_of_not_mem hout)⟩

/-! ## The failing stage -/

/-- A run over stages that fails has passed the stages before one that fails. -/
theorem runStages_error (stages : List Stage) {stop : Stop}
    (h : (runStages logic stages stats).finish s = (s', .error stop)) :
    ∃ k stage began stats₁, stages[k]? = some stage
      ∧ (runStages logic (stages.take k) stats).finish s = (began, .ok stats₁)
      ∧ (runStage logic stage stats₁).finish began = (s', .error stop) := by
  induction stages generalizing s stats with
  | nil => exact absurd (Prod.mk.inj h).2 (by simp)
  | cons stage stages ih =>
    cases hr : (runStage logic stage stats).finish s with
    | mk s₁ answer =>
      cases answer with
      -- the stage that fails is the first one
      | error stop₁ =>
        rw [runStages_cons_error stage stages hr] at h
        exact ⟨0, stage, s, stats, rfl, rfl, hr.trans h⟩
      | ok stats₁ =>
        rw [runStages_cons_ok stage stages hr] at h
        obtain ⟨k, st, began, stats₂, hk, htake, hst⟩ := ih h
        refine ⟨k + 1, st, began, stats₂, hk, ?_, hst⟩
        rw [List.take_succ_cons, runStages_cons_ok stage _ hr, htake]

/-! ## Runs -/

/-- **A failing concurrent stage settles completely and stops the run.** All stages before it have passed,
and their results stay. Each of its own nodes that was due when it began is invoked, once, and its ending is
taken in; the answer is the failure of the first one that failed. No other node is touched, and nothing is
invoked after it. -/
theorem failing_stage_settles {stop : Stop} (hs : Reachable s)
    (hd : s.executor.options.dispatch = .concurrent)
    (hrun : s.perform .run = (s', .run (.error stop))) (hstop : stop ≠ .error .missingLogic) :
    ∃ logic k began stats,
      s.executor.logic = some logic ∧ k < s.executor.plan.stages.length
      -- the stages before
      ∧ (runStages logic (s.executor.plan.stages.take k) {}).finish s = (began, .ok stats)
      ∧ (∃ passed : List (List Ending), began.journal = s.journal ++ passed.flatMap stageEvents
        ∧ ∀ batch ∈ passed, ∀ x ∈ batch, ∃ values, x.outcome = .ok values
          ∧ s'.executor.cache.get? x.1.id = some (.ofObject values))
      -- the stage itself
      ∧ (∃ batch : List Ending, s'.journal = began.journal ++ stageEvents batch
        ∧ batch.map Prod.fst = (distinctFrom [] (s.executor.plan.stageIds k)).filterMap began.executor.due?
        ∧ (∀ id ∈ s.executor.plan.stageIds k, ∀ c, began.executor.controller? id = .ok (some c) →
          began.executor.cache.has id = false → c.inputsAvailable began.executor.cache = true →
          (batch.map fun x => x.1.id).count id = 1)
        ∧ (∀ x ∈ batch, TakenIn s'.executor x)
        ∧ ∃ before x after err, batch = before ++ x :: after
          ∧ (∀ y ∈ before, ∃ values, y.outcome = .ok values)
          ∧ x.outcome = .error err ∧ stop = .error (.nodeFailed x.1.id err.message))
      -- everything else
      ∧ ∀ id, (∀ j ≤ k, id ∉ s.executor.plan.stageIds j) →
        s'.executor.controller? id = s.executor.controller? id
          ∧ s'.executor.cache.get? id = s.executor.cache.get? id := by
  have hsound := hs.sound
  have hanswer := run_finish_of_perform hrun
  cases hl : s.executor.logic with
  | none =>
    rw [run_finish_of_none hl] at hanswer
    exact absurd (Except.error.inj (Prod.mk.inj hanswer).2).symm hstop
  | some logic =>
    rw [run_finish hl] at hanswer
    obtain ⟨k, stage, began, stats, hk, htake, hstage⟩ := runStages_error s.executor.plan.stages hanswer
    have hids : s.executor.plan.stageIds k = stage.records.map (·.id) := by
      unfold Plan.stageIds
      rw [hk]
    -- up to the stage
    have hsteps := runStages_steps logic (s.executor.plan.stages.take k) {} hsound
    rw [htake] at hsteps
    have hbegan := hsteps.sound hsound
    have hdbegan : began.executor.options.dispatch = .concurrent := by
      rw [Executor.options_of_frame hsteps.frame, hd]
    obtain ⟨passed, hjpassed, hpassed, hothers⟩ :=
      runStages_concurrent_ok (s.executor.plan.stages.take k) hsound hd htake
    -- the stage
    obtain ⟨s₂, batch, stats₂, heq, hserved, hjournal⟩ :=
      runStage_concurrent_eq logic stage stats hbegan hdbegan
    rw [hstage] at heq
    obtain ⟨rfl, hans⟩ := Prod.mk.inj heq
    have hfirst := stageAnswer_eq_error hans.symm
    have hcoh := (hserved.steps.sound hbegan).coherent
    obtain ⟨before, x, after, err, hbatch, hbefore, hx, hstopeq⟩ := firstFailure?_eq_some hfirst
    refine ⟨logic, k, began, stats, rfl, (List.getElem?_eq_some_iff.mp hk).1, htake,
      ⟨passed, hjpassed, fun b hb y hy => ?_⟩,
      ⟨batch, hjournal, by rw [hids, hserved.due], fun id hid c hc hhas havail => ?_,
        fun y hy => hserved.takenIn hcoh.wellFormed hy, before, x, after, err, hbatch, hbefore, hx,
        hstopeq⟩, fun id hid => ?_⟩
    · obtain ⟨values, ho, hget⟩ := hpassed b hb y hy
      exact ⟨values, ho, hserved.steps.extends hbegan _ _ hget⟩
    · have hw := hbegan.coherent.wellFormed
      rw [hw.controller?_eq, Except.ok.injEq] at hc
      obtain ⟨i, hi⟩ := hw.due?_isSome hc (Cache.has_eq_false_iff.mp hhas) havail
      obtain ⟨y, hy, rfl⟩ := hserved.mem_of_due (hids ▸ hid) hi
      rw [← Executor.id_of_due? hi]
      exact List.count_eq_one_of_mem hserved.nodup (List.mem_map_of_mem hy)
    · have hout : id ∉ stage.records.map (·.id) := by
        rw [← hids]
        exact hid k (Nat.le_refl k)
      have hbefore : ∀ st ∈ s.executor.plan.stages.take k, id ∉ st.records.map (·.id) := by
        intro st hst
        obtain ⟨j, hj, rfl⟩ := List.mem_take_iff_getElem.mp hst
        have hnot := hid j (by omega)
        unfold Plan.stageIds at hnot
        rw [List.getElem?_eq_getElem (by omega)] at hnot
        exact hnot
      obtain ⟨hfind, hget⟩ := hothers id hbefore
      rw [hcoh.wellFormed.controller?_eq, hsound.coherent.wellFormed.controller?_eq]
      exact ⟨by rw [hserved.find?_of_not_mem hout, hfind], (hserved.get?_of_not_mem hout).trans hget⟩

/-- Logic that fails at one node. -/
def failsAt (id : NodeId) : Logic Unit := fun node _ =>
  .done (if node.id = id then .failed "broken" else .returned ∅)

/-- The first of two nodes keeps its result when the second one fails, and the third is not invoked. -/
theorem failing_stage_settles_sample :
    ∃ s : Session Unit, Session.start Sample.plan Sample.graph (some (failsAt ⟨"b"⟩)) () = .ok s
      ∧ (s.perform .run).2 = .run (.error (.error (.nodeFailed ⟨"b"⟩ "broken")))
      ∧ ∃ (began : Session Unit) (batch : List Ending),
        (s.perform .run).1.journal = began.journal ++ stageEvents batch
          ∧ ∀ x ∈ batch, TakenIn (s.perform .run).1.executor x := by
  obtain ⟨s, hstart, hanswer, hd⟩ : ∃ s : Session Unit,
      Session.start Sample.plan Sample.graph (some (failsAt ⟨"b"⟩)) () = .ok s
      ∧ (s.perform .run).2 = .run (.error (.error (.nodeFailed ⟨"b"⟩ "broken")))
      ∧ s.executor.options.dispatch = .concurrent := by
    refine ⟨_, (by rw [start, Executor.new, Plan.records_eq]; rfl), ?_, ?_⟩
    · rfl
    · rfl
  obtain ⟨_, _, began, _, _, _, _, _, ⟨batch, hjournal, _, _, htaken, _⟩, _⟩ :=
    failing_stage_settles (.start hstart) hd (Prod.ext rfl hanswer) (by simp)
  exact ⟨s, hstart, hanswer, began, batch, hjournal, htaken⟩

end StageFlow.Session
