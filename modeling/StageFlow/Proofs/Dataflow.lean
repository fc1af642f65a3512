import StageFlow.Proofs.Provenance

/-!
# What a run computes

In a plan whose stages follow the connections, a run that succeeds leaves a result for each node whose
inputs are there, and the result is what the logic computes of them. Invocations may have failed before:
what is missing is made up for, and what is there is right already.

## Contents
- **Stages that succeed.** `runStage_ok`, in either dispatch.
- **Layers.** `Layered`, plans whose stages follow the connections.
- **Runs over layers.** `runStages_filled`: just the nodes whose inputs are there have results.
- **Runs.** `dataflow_correct`.
-/

namespace StageFlow

open Executor (Invocation)

namespace Session

variable {σ : Type} {s s' t : Session σ} {logic : Logic σ} {stats stats' : RunStats}
variable {P : NodeDescriptor → Object → Object → Prop}

/-! ## Stages that succeed -/

/-- A stage of independent nodes that succeeds has served all of them, and none has failed. -/
theorem runStage_ok (stage : Stage) (hs : Moment.Sound ⟨[], s⟩)
    (hind : Independent s.executor (stage.records.map (·.id)))
    (h : (runStage logic stage stats).finish s = (s', .ok stats')) :
    ∃ batch, Served s (stage.records.map (·.id)) batch s' ∧ firstFailure? batch = none := by
  cases hd : s.executor.options.dispatch with
  | concurrent =>
    obtain ⟨s₁, batch, stats₁, heq, hserved, _⟩ :=
      runConcurrent_eq logic.yields_trivial stage.records stats hs
    rw [runStage_concurrent stage stats hd, heq] at h
    obtain ⟨rfl, ha⟩ := Prod.mk.inj h
    exact ⟨batch, hserved, (stageAnswer_eq_ok ha).1⟩
  | sequential =>
    obtain ⟨s₁, done, rest, batch, stats₁, hids, heq, hserved, hrest, _⟩ :=
      runSequential_eq logic.yields_trivial stage.records stats hs hind
    rw [runStage_sequential stage stats hd, heq] at h
    obtain ⟨rfl, ha⟩ := Prod.mk.inj h
    obtain ⟨hf, _⟩ := stageAnswer_eq_ok ha
    obtain ⟨rfl, _⟩ := hrest hf
    rw [List.append_nil] at hids
    exact ⟨batch, hids ▸ hserved, hf⟩

/-- After a stage without failure, just those of its nodes have results whose inputs were there. -/
theorem Served.has_iff {ids : List NodeId} {batch : List Ending} (h : Served s ids batch s')
    (hok : firstFailure? batch = none) (hs : Moment.Sound ⟨[], s⟩) (hg : Grounded P s.executor)
    {id : NodeId} (hid : id ∈ ids) {c : Controller} (hc : s.executor.controllers.find? id = some c) :
    s'.executor.cache.has id = true ↔ c.inputsAvailable s.executor.cache = true := by
  rw [Cache.has_iff]
  constructor
  · rintro ⟨r, hr⟩
    rw [h.cache, Cache.entryAfter?] at hr
    -- a result is from this stage or from before; its inputs were there either way
    cases hend : endingOf? batch id with
    | some x =>
      obtain ⟨hx, rfl⟩ := mem_of_endingOf? hend
      obtain ⟨d, _, hd, _, _, ha, _⟩ := Executor.due?_eq_some.mp (h.due_of_mem hx).2
      obtain rfl := Option.some.inj (hc.symm.trans hd)
      exact ha
    | none =>
      rw [hend] at hr
      obtain ⟨d, _, _, hd, _, ha, _⟩ := hg id r hr
      obtain rfl := Option.some.inj (hc.symm.trans hd)
      exact ha
  · intro ha
    -- what had no result was due, and has not failed
    cases hr : s.executor.cache.get? id with
    | some r => exact ⟨r, h.steps.extends hs id r hr⟩
    | none =>
      obtain ⟨i, hi⟩ := hs.coherent.wellFormed.due?_isSome hc hr ha
      obtain ⟨x, hx, rfl⟩ := h.mem_of_due hid hi
      obtain ⟨values, ho⟩ := firstFailure?_eq_none.mp hok x hx
      obtain ⟨hget, _⟩ := h.of_mem hx
      rw [Executor.id_of_due? hi, Ending.entry?, ho] at hget
      exact ⟨_, hget⟩

/-! ## Layers -/

/-- The stages of a plan follow the connections: no node is listed twice, and what a node needs of listed
nodes comes from earlier stages. -/
structure Layered (e : Executor σ) (p : Plan) : Prop where
  once : (p.listed.map (·.id)).Nodup
  earlier : ∀ k, ∀ id ∈ p.stageIds k, ∀ c, e.controllers.find? id = some c → ∀ b ∈ c.bindings,
    b.source ∈ p.listed.map (·.id) → ∃ j < k, b.source ∈ p.stageIds j

theorem listed_cons (stage : Stage) (stages : List Stage) :
    (Plan.mk (stage :: stages)).listed.map (·.id)
      = stage.records.map (·.id) ++ (Plan.mk stages).listed.map (·.id) := by
  rw [Plan.listed, List.flatMap_cons, List.map_append]
  rfl

theorem mem_listed_of_mem_stageIds {p : Plan} {k : Nat} {id : NodeId} (h : id ∈ p.stageIds k) :
    id ∈ p.listed.map (·.id) := by
  unfold Plan.stageIds at h
  cases hk : p.stages[k]? with
  | none =>
    rw [hk] at h
    exact absurd h List.not_mem_nil
  | some stage =>
    rw [hk] at h
    obtain ⟨r, hr, rfl⟩ := List.mem_map.mp h
    exact List.mem_map_of_mem (List.mem_flatMap.mpr ⟨stage, List.mem_of_getElem? hk, hr⟩)

namespace Layered

variable {e e' : Executor σ} {stage : Stage} {stages : List Stage}

/-- It is enough to look at the controllers one by one. -/
theorem of_items {p : Plan} (honce : (p.listed.map (·.id)).Nodup)
    (h : ∀ k : Fin p.stages.length, ∀ c ∈ e.controllers.items, c.id ∈ p.stageIds k →
      ∀ b ∈ c.bindings, b.source ∈ p.listed.map (·.id) → ∃ j < k.val, b.source ∈ p.stageIds j) :
    Layered e p := by
  refine ⟨honce, ?_⟩
  intro k id hid c hc b hb hsrc
  obtain rfl : c.id = id := Executor.id_of_find? hc
  by_cases hk : k < p.stages.length
  · exact h ⟨k, hk⟩ c (KeyedVec.mem_of_find? hc) hid b hb hsrc
  · unfold Plan.stageIds at hid
    rw [List.getElem?_eq_none (Nat.le_of_not_lt hk)] at hid
    exact absurd hid List.not_mem_nil

theorem of_frame {p : Plan} (h : Layered e p) (hf : e'.frame = e.frame) : Layered e' p := by
  refine ⟨h.once, ?_⟩
  intro k id hid c hc b hb
  obtain ⟨d, hd, hbd⟩ := Executor.find?_of_frame hf.symm hc
  exact h.earlier k id hid d hd b (hbd ▸ hb)

theorem apart (h : Layered e ⟨stage :: stages⟩) {id : NodeId} (hid : id ∈ stage.records.map (·.id)) :
    id ∉ (Plan.mk stages).listed.map (·.id) := by
  have honce := h.once
  rw [listed_cons, List.nodup_append] at honce
  exact fun hm => honce.2.2 id hid id hm rfl

/-- The first stage needs nothing of listed nodes. -/
theorem first (h : Layered e ⟨stage :: stages⟩) {id : NodeId} (hid : id ∈ stage.records.map (·.id))
    {c : Controller} (hc : e.controllers.find? id = some c) {b : InputBinding} (hb : b ∈ c.bindings) :
    b.source ∉ (Plan.mk (stage :: stages)).listed.map (·.id) := by
  intro hsrc
  obtain ⟨j, hj, _⟩ := h.earlier 0 id hid c hc b hb hsrc
  exact Nat.not_lt_zero j hj

theorem tail (h : Layered e ⟨stage :: stages⟩) : Layered e ⟨stages⟩ := by
  have honce := h.once
  rw [listed_cons, List.nodup_append] at honce
  refine ⟨honce.2.1, ?_⟩
  intro k id hid c hc b hb hsrc
  have hsrc' : b.source ∈ (Plan.mk (stage :: stages)).listed.map (·.id) := by
    rw [listed_cons]
    exact List.mem_append_right _ hsrc
  obtain ⟨j, hj, hmem⟩ := h.earlier (k + 1) id hid c hc b hb hsrc'
  cases j with
  | zero => exact absurd hsrc (h.apart hmem)
  | succ j => exact ⟨j, Nat.lt_of_succ_lt_succ hj, hmem⟩

theorem independent (h : Layered e ⟨stage :: stages⟩) :
    Independent e (stage.records.map (·.id)) := by
  have honce := h.once
  rw [listed_cons, List.nodup_append] at honce
  refine ⟨honce.1.filter _, fun id hid c hc b hb hsrc => absurd ?_ (h.first hid hc hb)⟩
  rw [listed_cons]
  exact List.mem_append_left _ hsrc

end Layered

/-! ## Runs over layers -/

theorem inputsAvailable_congr {c c' : Controller} {cache cache' : Cache}
    (hb : c'.bindings = c.bindings)
    (h : ∀ b ∈ c.bindings, cache'.get? b.source = cache.get? b.source) :
    c'.inputsAvailable cache' = true ↔ c.inputsAvailable cache = true := by
  rw [Controller.inputsAvailable_iff, Controller.inputsAvailable_iff, hb]
  apply forall₂_congr
  intro b hmem
  unfold Cache.output?
  rw [h b hmem]

/-- **A run over layers that succeeds** changes the entries of listed nodes only, and of these just those
have results whose inputs are there. -/
theorem runStages_filled (stages : List Stage) (hs : Moment.Sound ⟨[], s⟩)
    (hg : Grounded (fun _ _ _ => True) s.executor) (hl : Layered s.executor ⟨stages⟩)
    (h : (runStages logic stages stats).finish s = (t, .ok stats')) :
    (∀ id, id ∉ (Plan.mk stages).listed.map (·.id) →
        t.executor.cache.get? id = s.executor.cache.get? id)
      ∧ ∀ id ∈ (Plan.mk stages).listed.map (·.id), ∀ c, s.executor.controllers.find? id = some c →
        (t.executor.cache.has id = true ↔ c.inputsAvailable t.executor.cache = true) := by
  induction stages generalizing s stats with
  | nil =>
    obtain ⟨rfl, -⟩ := Prod.mk.inj h
    exact ⟨fun _ _ => rfl, fun id hid => absurd hid List.not_mem_nil⟩
  | cons stage stages ih =>
    cases hr : (runStage logic stage stats).finish s with
    | mk s₁ answer =>
      cases answer with
      | error stop =>
        rw [runStages_cons_error stage stages hr] at h
        exact absurd (Prod.mk.inj h).2 (by simp)
      | ok stats₁ =>
        rw [runStages_cons_ok stage stages hr] at h
        obtain ⟨batch, hserved, hok⟩ := runStage_ok stage hs hl.independent hr
        have hframe := hserved.steps.frame
        have hg₁ : Grounded (fun _ _ _ => True) s₁.executor :=
          hserved.steps.grounded hs (inProgress_nil s) hg fun _ _ _ _ _ => trivial
        obtain ⟨hother, hlisted⟩ := ih (hserved.steps.sound hs) hg₁ (hl.tail.of_frame hframe) h
        have hsame : ∀ id, id ∉ (Plan.mk (stage :: stages)).listed.map (·.id) →
            t.executor.cache.get? id = s.executor.cache.get? id := by
          intro id hid
          rw [listed_cons, List.mem_append, not_or] at hid
          rw [hother id hid.2, hserved.get?_of_not_mem hid.1]
        refine ⟨hsame, ?_⟩
        intro id hid c hc
        rw [listed_cons, List.mem_append] at hid
        rcases hid with hid | hid
        · -- a node of the first stage keeps what the stage has left, and its inputs are as they were
          have hhas : t.executor.cache.has id = s₁.executor.cache.has id := by
            unfold Cache.has
            rw [hother id (hl.apart hid)]
          rw [hhas, hserved.has_iff hok hs hg hid hc]
          exact (inputsAvailable_congr rfl fun b hb => hsame b.source (hl.first hid hc hb)).symm
        · obtain ⟨c₁, hc₁, hb⟩ := Executor.find?_of_frame hframe hc
          rw [hlisted id hid c₁ hc₁]
          exact inputsAvailable_congr hb fun _ _ => rfl

/-! ## Runs -/

/-- An invocation failed: the logic broke off, or told of a failure. -/
def Fails : Except String Object → Prop
  | .error _ => True
  | .ok values => isError values = true

/-- **A run that succeeds has computed the meaning of its plan,** whatever has failed before it. Each listed
node with a controller has a result just if all its inputs are there, and the result is what `f` makes of
them. -/
theorem dataflow_correct {plan : Plan} {graph : Graph} {l : Option (Logic σ)} {host : σ}
    (hstart : Session.start plan graph l host = .ok s) (hl : Layered s.executor plan)
    {calls : List Call} (hcalls : ∀ call ∈ calls, call.clears = false)
    (hrun : (s.performAll calls).1.perform .run = (t, .run (.ok stats)))
    (f : NodeDescriptor → Object → Object)
    (hf : ∀ node inputs result, Ran t.journal node inputs result →
      result = .ok (f node inputs) ∨ Fails result) :
    ∀ k, ∀ id ∈ plan.stageIds k, ∀ c, t.executor.controller? id = .ok (some c) →
      (t.executor.cache.has id = true
        ↔ ∀ b ∈ c.bindings, ∃ v, t.executor.cache.output? b.source b.output = some v)
      ∧ ∀ r, t.executor.cache.get? id = some r → ∃ node inputs, graph.find? id = some node
        ∧ r = .ofObject (f node inputs)
        ∧ ∀ name, inputs.get? name
          = (c.bindings.filter fun b => b.input = name).getLast?.bind fun b =>
              t.executor.cache.output? b.source b.output := by
  obtain ⟨s', hs', hcoh, hempty, _, hplan, hgraph, _⟩ := start_eq_ok plan graph l host
  obtain rfl := Except.ok.inj (hs'.symm.trans hstart)
  have hframe := performAll_frame hcoh calls
  have hcoh₁ := ((Reachable.start hstart).performAll calls).coherent
  have hground₀ : Grounded (fun node inputs values => values = f node inputs) s'.executor :=
    grounded_of_empty hempty
  have hgrounded := fun hans => performAll_grounded hcoh hcalls hground₀ hans
  generalize (s'.performAll calls).1 = s₁ at hrun hframe hcoh₁ hgrounded
  have hsound := moment_sound hcoh₁
  have hsteps := perform_run_steps hcoh₁
  have hprefix := perform_journal_grows hcoh₁ .run
  rw [hrun] at hsteps hprefix
  -- what the journal tells of the logic's answers holds of all results
  have hans : Answers (fun node inputs values => values = f node inputs) t.journal := by
    intro node inputs values hran herr
    rcases hf node inputs _ hran with heq | hfail
    · exact Except.ok.inj heq
    · rw [Fails, herr] at hfail
      exact absurd hfail (by simp)
  have hg₁ := hgrounded (hans.of_isPrefix hprefix)
  have hg := hsteps.grounded hsound (inProgress_nil s₁) hg₁ hans
  -- the run goes over the layers
  have hplan₁ : s₁.executor.plan = plan := (Executor.plan_of_frame hframe).trans hplan
  have hoptions : Layered (s'.executor.withOptions s₁.executor.options) plan :=
    ⟨hl.once, hl.earlier⟩
  have hlayered := hoptions.of_frame hframe
  have hanswer := run_finish_of_perform hrun
  cases hlogic : s₁.executor.logic with
  | none =>
    rw [run_finish_of_none hlogic] at hanswer
    exact absurd (Prod.mk.inj hanswer).2 (by simp)
  | some logic =>
    rw [run_finish hlogic, hplan₁] at hanswer
    obtain ⟨_, hfilled⟩ := runStages_filled plan.stages hsound (hg₁.mono fun _ _ _ _ => trivial)
      hlayered hanswer
    intro k id hid c hc
    have hw := (hsteps.sound hsound).coherent.wellFormed
    rw [hw.controller?_eq, Except.ok.injEq] at hc
    obtain ⟨c₁, hc₁, hb⟩ := Executor.find?_of_frame hsteps.frame.symm hc
    refine ⟨?_, ?_⟩
    · rw [hfilled id (mem_listed_of_mem_stageIds hid) c₁ hc₁, Controller.inputsAvailable_iff, hb]
    · intro r hr
      obtain ⟨d, node, values, hd, hn, ha, rfl, rfl⟩ := hg id r hr
      obtain rfl := Option.some.inj (hc.symm.trans hd)
      refine ⟨node, _, ?_, rfl, get?_gatherInputs (Controller.inputsAvailable_iff.mp ha)⟩
      rw [← hn, Executor.graph_of_frame hsteps.frame, Executor.graph_of_frame hframe]
      exact congrArg (·.find? id) hgraph.symm

/-- Logic that fails the first time it is asked, and then gives back its inputs. -/
def failsOnce : Logic Bool := fun node inputs =>
  .step fun asked => (true, if asked then .returned (node.echo inputs) else .failed "not ready")

/-- A consumer that is asked for too early, a run that fails and another one that makes up for it. -/
theorem dataflow_correct_sample :
    ∃ s : Session Bool, Session.start Sample.plan Sample.graph (some failsOnce) false = .ok s
      ∧ let t := ((s.performAll [.runNode ⟨"c"⟩, .run, .withOptions .sequential]).1.perform .run).1
        t.executor.cache.has ⟨"c"⟩ = true ∧ ∀ k, ∀ id ∈ Sample.plan.stageIds k, ∀ c,
          t.executor.controller? id = .ok (some c) → (t.executor.cache.has id = true
            ↔ ∀ b ∈ c.bindings, ∃ v, t.executor.cache.output? b.source b.output = some v) := by
  obtain ⟨s, hstart, hlayered, hhas, hanswer, hran⟩ : ∃ s : Session Bool,
      Session.start Sample.plan Sample.graph (some failsOnce) false = .ok s
      ∧ Layered s.executor Sample.plan
      ∧ let t := (s.performAll [.runNode ⟨"c"⟩, .run, .withOptions .sequential]).1.perform .run
        t.1.executor.cache.has ⟨"c"⟩ = true ∧ t.2 = .run (.ok ⟨2, 1, 0⟩)
          ∧ ∀ x ∈ invocations t.1.journal, x.2.2 = .ok (x.1.echo x.2.1) ∨ Fails x.2.2 := by
    refine ⟨_, (by rw [start, Executor.new, Plan.records_eq]; rfl), ?_, ?_, ?_, ?_⟩
    · exact .of_items (by decide) (by decide)
    · rfl
    · rfl
    · refine List.forall_mem_cons.mpr ⟨Or.inr trivial, List.forall_mem_cons.mpr ⟨Or.inl rfl, ?_⟩⟩
      refine List.forall_mem_cons.mpr ⟨Or.inl rfl, List.forall_mem_cons.mpr ⟨Or.inl rfl, ?_⟩⟩
      exact fun _ h => absurd h List.not_mem_nil
  have hcalls : ∀ call ∈ [Call.runNode ⟨"c"⟩, .run, .withOptions .sequential],
      call.clears = false := by decide
  have hcomputed := dataflow_correct hstart hlayered hcalls (Prod.ext rfl hanswer)
    NodeDescriptor.echo fun _ _ _ h => hran _ (ran_iff_mem_invocations.mp h)
  exact ⟨s, hstart, hhas, fun k id hid c hc => (hcomputed k id hid c hc).1⟩

end Session

end StageFlow
