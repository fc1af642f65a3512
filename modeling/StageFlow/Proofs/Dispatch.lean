import StageFlow.Proofs.Calls

/-!
# The two dispatches

If no node of a stage concerns another one, and results depend on node and inputs alone, then it makes no
difference to a run whether the nodes of a stage are in flight together or follow each other; only after a
failure are there results of a concurrent stage that a sequential one does not come to.

## Contents
- **Agreement.** `Agree`, of two executors that differ in options and history at most.
- **Stages.** The two dispatches of one stage, step for step.
- **Runs.** `dispatches_agree`.
-/

namespace StageFlow

open Executor (Invocation)

/-! ## Agreement -/

/-- Two executors that differ in options and history at most. -/
structure Executor.Agree {σ : Type} (e e' : Executor σ) : Prop where
  plan : e'.plan = e.plan
  graph : e'.graph = e.graph
  controllers : e'.controllers = e.controllers
  cache : e'.cache = e.cache

namespace Session

variable {σ : Type} {s s' t t' : Session σ} {ids : List NodeId} {batch : List Ending}
variable {logic : Logic σ} {f : NodeDescriptor → Object → Except String Object}

theorem due?_of_agree (h : s.executor.Agree t.executor) : t.executor.due? = s.executor.due? := by
  funext id
  unfold Executor.due?
  rw [h.controllers, h.graph, h.cache]

theorem tracks_of_agree (h : s.executor.Agree t.executor) : t.executor.tracks = s.executor.tracks := by
  funext id
  unfold Executor.tracks
  rw [h.controllers]

theorem Independent.of_agree (hi : Independent s.executor ids) (h : s.executor.Agree t.executor) :
    Independent t.executor ids :=
  ⟨by rw [tracks_of_agree h]; exact hi.distinct, by rw [h.controllers]; exact hi.apart⟩

theorem Counts.of_agree {launched : Nat} {stats stats' : RunStats} (h : s.executor.Agree t.executor)
    (hc : Counts t.executor ids launched stats stats') :
    Counts s.executor ids launched stats stats' :=
  hc.congr fun k _ => ⟨congrFun (tracks_of_agree h) k, fun _ => by rw [h.cache]⟩

/-- Stages that list the same nodes, and in which each node has the same ending, leave executors that agree
if they find such. -/
theorem Served.agree {ids' : List NodeId} {batch' : List Ending} (h : Served s ids batch s')
    (h' : Served t ids' batch' t') (hids : ∀ k, k ∈ ids' ↔ k ∈ ids)
    (hends : ∀ k, endingOf? batch' k = endingOf? batch k) (hs : s.executor.WellFormed)
    (ha : s.executor.Agree t.executor) : s'.executor.Agree t'.executor := by
  -- in both, entries and states follow from the endings and from what was there before
  have hf := h.steps.frame
  have hf' := h'.steps.frame
  refine ⟨?_, ?_, ?_, ?_⟩
  · rw [Executor.plan_of_frame hf', Executor.plan_of_frame hf, ha.plan]
  · rw [Executor.graph_of_frame hf', Executor.graph_of_frame hf, ha.graph]
  · refine (hs.of_frame hf).indexed.ext ?_ ?_ ?_
    · rw [Executor.index_of_frame hf', Executor.index_of_frame hf, ha.controllers]
    · rw [Executor.keys_of_frame hf', Executor.keys_of_frame hf, ha.controllers]
    · intro key
      have hstate : ∀ c, servedState t.executor ids' batch' c = servedState s.executor ids batch c := by
        intro c
        unfold servedState
        simp only [hends, hids, ha.cache]
      rw [h'.find?, h.find?, ha.controllers]
      simp only [hstate]
  · refine Cache.ext_get? ?_
    intro k
    rw [h'.cache, h.cache, ha.cache, Cache.entryAfter?, Cache.entryAfter?, hends]

/-! ## Stages -/

/-- A batch whose endings are computed is determined by its invocations. -/
theorem batch_of_computed (h : ∀ x ∈ batch, x.2 = f x.1.node x.1.inputs) :
    batch = (batch.map Prod.fst).map fun i => (i, f i.node i.inputs) := by
  rw [List.map_map]
  conv_lhs => rw [← List.map_id batch]
  exact List.map_congr_left fun x hx => Prod.ext rfl (h x hx)

/-- What a sequential stage serves, a concurrent one serves first. -/
theorem batch_isPrefix {done rest : List NodeId} {batch' : List Ending}
    (h : Served s (done ++ rest) batch s') (h' : Served t done batch' t')
    (ha : s.executor.Agree t.executor) (hP : ∀ x ∈ batch, x.2 = f x.1.node x.1.inputs)
    (hP' : ∀ x ∈ batch', x.2 = f x.1.node x.1.inputs) : batch' <+: batch := by
  rw [batch_of_computed hP, batch_of_computed hP', h.due, h'.due, due?_of_agree ha]
  exact ((distinctFrom_isPrefix_append [] done rest).filterMap _).map _

/-- How the two dispatches of the same work end. -/
inductive SameEnd (s t : Session σ) :
    Session σ × Except Stop RunStats → Session σ × Except Stop RunStats → Prop
  /-- Both succeed, with the same counts and results, and have invoked the same nodes with the same
  inputs. -/
  | success {s' t' : Session σ} (stats : RunStats) (launched : List (NodeDescriptor × Object))
      (agree : s'.executor.Agree t'.executor)
      (left : launches s'.journal = launches s.journal ++ launched)
      (right : launches t'.journal = launches t.journal ++ launched) :
      SameEnd s t (s', .ok stats) (t', .ok stats)
  /-- Both fail for the same reason, and the first one has all the results of the second. -/
  | failure {s' t' : Session σ} (err : ExecutorError)
      (included : s'.executor.cache.Extends t'.executor.cache) :
      SameEnd s t (s', .error (.error err)) (t', .error (.error err))

/-- **The two dispatches of a stage end alike.** -/
theorem runStage_sameEnd (hl : logic.Computes f) (stage : Stage) (stats : RunStats)
    (hs : Moment.Sound ⟨[], s⟩) (ht : Moment.Sound ⟨[], t⟩) (ha : s.executor.Agree t.executor)
    (hds : s.executor.options.dispatch = .concurrent)
    (hdt : t.executor.options.dispatch = .sequential)
    (hind : Independent s.executor (stage.records.map (·.id))) :
    SameEnd s t ((runStage logic stage stats).finish s) ((runStage logic stage stats).finish t) := by
  obtain ⟨s', batch, stats₁, heq, hserved, hcounts, _, hP⟩ := runConcurrent_eq hl stage.records stats hs
  obtain ⟨t', done, rest, batch', stats₂, hids, heq', hserved', hok, hP'⟩ :=
    runSequential_eq hl stage.records stats ht (hind.of_agree ha)
  have hprefix := batch_isPrefix (hids ▸ hserved) hserved' ha hP hP'
  rw [runStage_concurrent stage stats hds, runStage_sequential stage stats hdt, heq, heq', stageAnswer,
    stageAnswer]
  cases hf : firstFailure? batch' with
  | none =>
    -- the sequential stage has come to its end, so the batches are the same
    obtain ⟨rfl, hcounts'⟩ := hok hf
    rw [List.append_nil] at hids
    have hbatch : batch' = batch := by
      apply hprefix.eq_of_length
      have hlen : (batch'.map Prod.fst).length = (batch.map Prod.fst).length := by
        rw [hserved'.due, hserved.due, hids, due?_of_agree ha]
      rwa [List.length_map, List.length_map] at hlen
    subst hbatch
    rw [← hids] at hserved'
    obtain rfl := (hcounts'.of_agree ha).unique hcounts
    rw [hf]
    refine .success stats₂ _ ?_ hserved.started hserved'.started
    exact hserved.agree hserved' (fun _ => Iff.rfl) (fun _ => rfl) hs.coherent.wellFormed ha
  | some stop =>
    -- the first failure of the part is the first of the whole
    obtain ⟨more, hmore⟩ := hprefix
    have hf' : firstFailure? batch = some stop := by
      rw [← hmore, firstFailure?_append, hf, Option.some_or]
    obtain ⟨_, x, _, err, _, _, _, rfl⟩ := firstFailure?_eq_some hf
    rw [hf']
    refine .failure _ ?_
    intro k r hr
    rw [hserved'.cache, Cache.entryAfter?, ha.cache] at hr
    cases hend : endingOf? batch' k with
    | some y =>
      have hend' : endingOf? batch k = some y := by
        rw [← hmore, endingOf?, List.find?_append]
        exact Option.or_eq_some_iff.mpr (Or.inl hend)
      rw [hend] at hr
      rw [hserved.cache, Cache.entryAfter?, hend']
      exact hr
    | none =>
      rw [hend] at hr
      exact hserved.steps.extends hs k r hr

/-- **The two dispatches of a run over stages end alike.** -/
theorem runStages_sameEnd (hl : logic.Computes f) (stages : List Stage) (stats : RunStats)
    (hs : Moment.Sound ⟨[], s⟩) (ht : Moment.Sound ⟨[], t⟩) (ha : s.executor.Agree t.executor)
    (hds : s.executor.options.dispatch = .concurrent)
    (hdt : t.executor.options.dispatch = .sequential)
    (hind : ∀ stage ∈ stages, Independent s.executor (stage.records.map (·.id))) :
    SameEnd s t ((runStages logic stages stats).finish s) ((runStages logic stages stats).finish t) := by
  induction stages generalizing s t stats with
  | nil => exact .success stats [] ha (List.append_nil _).symm (List.append_nil _).symm
  | cons stage stages ih =>
    have hstage := runStage_sameEnd hl stage stats hs ht ha hds hdt (hind stage List.mem_cons_self)
    have hsteps := runStage_steps logic stage stats hs
    have hsteps' := runStage_steps logic stage stats ht
    generalize hx : (runStage logic stage stats).finish s = x at hstage hsteps
    generalize hy : (runStage logic stage stats).finish t = y at hstage hsteps'
    cases hstage with
    | @failure s₁ t₁ err hext =>
      rw [runStages_cons_error stage stages hx, runStages_cons_error stage stages hy]
      exact .failure err hext
    | @success s₁ t₁ stats₁ launched hagree hleft hright =>
      rw [runStages_cons_ok stage stages hx, runStages_cons_ok stage stages hy]
      -- both go on, from executors that agree
      have hds₁ : s₁.executor.options.dispatch = .concurrent := by
        rw [Executor.options_of_frame hsteps.frame, hds]
      have hdt₁ : t₁.executor.options.dispatch = .sequential := by
        rw [Executor.options_of_frame hsteps'.frame, hdt]
      have hrest := ih stats₁ (hsteps.sound hs) (hsteps'.sound ht) hagree hds₁ hdt₁
        fun st hst => (hind st (List.mem_cons_of_mem stage hst)).of_frame hsteps.frame
      generalize (runStages logic stages stats₁).finish s₁ = x at hrest
      generalize (runStages logic stages stats₁).finish t₁ = y at hrest
      cases hrest with
      | failure err hext => exact .failure err hext
      | success stats₂ launched₂ hagree₂ hleft₂ hright₂ =>
        refine .success stats₂ (launched ++ launched₂) hagree₂ ?_ ?_
        · rw [hleft₂, hleft, List.append_assoc]
        · rw [hright₂, hright, List.append_assoc]

/-! ## Runs -/

/-- The session with another dispatch. -/
def under (s : Session σ) (dispatch : Dispatch) : Session σ :=
  (s.perform (.withOptions { dispatch })).1

/-- **Concurrent and sequential dispatch agree on independent stages.** -/
theorem dispatches_agree (hs : Reachable s)
    (hl : ∀ logic, s.executor.logic = some logic → ∃ f, logic.Computes f)
    (hind : ∀ k, Independent s.executor (s.executor.plan.stageIds k)) :
    let conc := (s.under .concurrent).perform .run
    let seq := (s.under .sequential).perform .run
    (∃ stats launched, conc.2 = .run (.ok stats) ∧ seq.2 = .run (.ok stats)
      ∧ seq.1.executor.cache = conc.1.executor.cache
      ∧ seq.1.executor.controllers = conc.1.executor.controllers
      ∧ launches conc.1.journal = launches s.journal ++ launched
      ∧ launches seq.1.journal = launches s.journal ++ launched)
    ∨ ∃ err, conc.2 = .run (.error (.error err)) ∧ seq.2 = .run (.error (.error err))
      ∧ ∀ id r, seq.1.executor.cache.get? id = some r → conc.1.executor.cache.get? id = some r := by
  have hconc : Moment.Sound ⟨[], s.under .concurrent⟩ := (hs.perform _).sound
  have hseq : Moment.Sound ⟨[], s.under .sequential⟩ := (hs.perform _).sound
  have hagree : (s.under .concurrent).executor.Agree (s.under .sequential).executor :=
    ⟨rfl, rfl, rfl, rfl⟩
  intro conc seq
  have hend : SameEnd (s.under .concurrent) (s.under .sequential)
      (run.finish (s.under .concurrent)) (run.finish (s.under .sequential)) := by
    cases hlogic : s.executor.logic with
    | none =>
      rw [run_finish_of_none (s := s.under .concurrent) hlogic,
        run_finish_of_none (s := s.under .sequential) hlogic]
      exact .failure .missingLogic fun _ _ hr => hr
    | some logic =>
      obtain ⟨f, hf⟩ := hl logic hlogic
      rw [run_finish (s := s.under .concurrent) hlogic, run_finish (s := s.under .sequential) hlogic]
      apply runStages_sameEnd hf s.executor.plan.stages {} hconc hseq hagree rfl rfl
      intro stage hm
      obtain ⟨k, hk⟩ := List.getElem?_of_mem hm
      have hk' := hind k
      rw [Plan.stageIds, hk] at hk'
      exact ⟨hk'.distinct, hk'.apart⟩
  have hc : conc = ((run.finish (s.under .concurrent)).1, .run (run.finish (s.under .concurrent)).2) :=
    perform_run _
  have hq : seq = ((run.finish (s.under .sequential)).1, .run (run.finish (s.under .sequential)).2) :=
    perform_run _
  generalize run.finish (s.under .concurrent) = x at hend hc
  generalize run.finish (s.under .sequential) = y at hend hq
  cases hend with
  | success stats launched ha hleft hright =>
    exact Or.inl ⟨stats, launched, by rw [hc], by rw [hq], by rw [hc, hq, ha.cache],
      by rw [hc, hq, ha.controllers], by rw [hc, hleft]; rfl, by rw [hq, hright]; rfl⟩
  | failure err hext =>
    exact Or.inr ⟨err, by rw [hc], by rw [hq], by rw [hc, hq]; exact hext⟩

/-- Both dispatches of the sample come to the same results. -/
theorem dispatches_agree_sample :
    ∃ s : Session Unit, Session.start Sample.plan Sample.graph (some .echo) () = .ok s
      ∧ ((s.under .sequential).perform .run).1.executor.cache
        = ((s.under .concurrent).perform .run).1.executor.cache := by
  obtain ⟨s, hstart, hind, hanswer, hlogic⟩ : ∃ s : Session Unit,
      Session.start Sample.plan Sample.graph (some .echo) () = .ok s
      ∧ (∀ k, Independent s.executor (s.executor.plan.stageIds k))
      ∧ ((s.under .concurrent).perform .run).2 = .run (.ok ⟨3, 0, 0⟩)
      ∧ s.executor.logic = some .echo := by
    refine ⟨_, (by rw [start, Executor.new, Plan.records_eq]; rfl), ?_, ?_, ?_⟩
    · rintro (_ | _ | k)
      · exact .of_items (by decide) (by decide)
      · exact .of_items (by decide) (by decide)
      · exact .of_items List.nodup_nil fun _ _ h => absurd h List.not_mem_nil
    · rfl
    · rfl
  have hcomputes : ∀ logic, s.executor.logic = some logic → ∃ f, logic.Computes f := by
    intro logic h
    obtain rfl := Option.some.inj (hlogic.symm.trans h)
    exact ⟨fun node inputs => .ok (node.echo inputs), fun _ _ => rfl⟩
  rcases dispatches_agree (.start hstart) hcomputes hind with ⟨_, _, _, _, hcache, _⟩ | ⟨_, herr, _⟩
  · exact ⟨s, hstart, hcache⟩
  · rw [hanswer] at herr
    exact absurd herr (by simp)

end Session

end StageFlow
