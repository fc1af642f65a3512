import StageFlow.Proofs.EarlyStop
import StageFlow.Proofs.SingleNode

/-!
# Errors as failure objects

An error is passed on as words, and as an object under a reserved key of which the words can be read off again.
For most errors the object is made from the words. An error of an application comes with the object that the
logic returned, next to words that were read off it, so the two have to be seen to agree. A run passes on the
words of the node's own error, behind a heading that names the node.

## Contents
- **Agreement.** `ExecutorError.Faithful`, and that it holds of every judgement of an invocation.
- **One node.** What an error of the run of one node is.
- **Runs.** `Failing`, what makes a run fail, and `run_failing`, which finds it.
- **Calls.** `errors_are_faithful`.
-/

namespace StageFlow

open Executor (Invocation NodeRun judge)

/-! ## Agreement -/

/-- The object of an error tells of a failure, and what it tells is the error in words. -/
structure ExecutorError.Faithful (e : ExecutorError) : Prop where
  isError : isError e.values = true
  message : errorMessage? e.values = some e.message

theorem errorMessage?_errorValues (message : String) :
    errorMessage? (errorValues message) = some message := by
  rw [errorMessage?, errorValues, SortedMap.get?_insert, if_pos rfl]
  rfl

/-- What has a message of failure tells of one. -/
theorem ExecutorError.Faithful.of_message {e : ExecutorError} (h : errorMessage? e.values = some e.message) :
    e.Faithful := by
  refine ⟨?_, h⟩
  rw [← Bool.not_eq_false]
  intro hno
  rw [errorMessage?_eq_none_iff.mpr hno] at h
  exact absurd h (by simp)

/-- An error of which the object is made from the words. -/
theorem ExecutorError.Faithful.of_errorValues {e : ExecutorError} (h : e.values = errorValues e.message) :
    e.Faithful :=
  .of_message (h ▸ errorMessage?_errorValues e.message)

/-- **What an invocation amounts to agrees with its object**, be it one that the logic returned. -/
theorem judge_faithful {id : NodeId} {result : Except String Object} {e : ExecutorError}
    (h : judge id result = .error e) : e.Faithful := by
  cases result with
  | error message =>
    obtain rfl := Except.error.inj h
    exact .of_errorValues rfl
  | ok values =>
    rw [judge] at h
    split at h
    · rename_i message hmessage
      obtain rfl := Except.error.inj h
      exact .of_message hmessage
    · exact absurd h (by simp)

/-- Only what was returned is left as an object. -/
theorem Outcome.guarded_eq_ok {o : Outcome} {values : Object} :
    o.guarded = .ok values ↔ o = .returned values := by
  cases o with
  | returned returned => simp [guarded]
  | failed message => simp [guarded]
  | panicked message => cases message <;> simp [guarded]

/-- An invocation that amounts to an error of the application has returned the object of the error. -/
theorem judge_eq_application {id k : NodeId} {result : Except String Object} {message : String}
    {values : Object} (h : judge id result = .error (.application k message values)) :
    k = id ∧ result = .ok values := by
  cases result with
  | error message => exact absurd (Except.error.inj h) (by simp)
  | ok returned =>
    rw [judge] at h
    split at h
    · obtain ⟨rfl, -, rfl⟩ := ExecutorError.application.inj (Except.error.inj h)
      exact ⟨rfl, rfl⟩
    · exact absurd h (by simp)

namespace Session

variable {σ : Type} {s s' : Session σ} {id : NodeId} {logic : Logic σ} {batch : List Ending} {stop : Stop}

/-! ## One node -/

/-- The run of a node answers with an error if the node was due and its invocation amounts to the error. -/
theorem Served.of_nodeAnswer_error (h : Served s [id] batch s')
    (ha : nodeAnswer s.executor id batch = .error stop) :
    ∃ x err, batch = [x] ∧ s.executor.due? id = some x.1 ∧ x.outcome = .error err ∧ stop = .error err := by
  rcases h.single with ⟨rfl, _⟩ | ⟨x, rfl, hdue⟩
  · cases hr : s.executor.cache.get? id <;> simp [nodeAnswer, hr] at ha
  · obtain ⟨_, _, _, _, hnone, _⟩ := Executor.due?_eq_some.mp hdue
    simp only [nodeAnswer, hnone] at ha
    cases ho : x.outcome with
    | ok values => simp [ho, NodeRun.ofOutcome] at ha
    | error err =>
      rw [ho, NodeRun.ofOutcome, Except.error.injEq] at ha
      exact ⟨x, err, rfl, hdue, ho, ha.symm⟩

/-- **A node that is run alone and fails** was handed to the logic, and its error is what that came to. -/
theorem runNode_error (hs : Moment.Sound ⟨[], s⟩) (hl : s.executor.logic = some logic) {c : Controller}
    (hc : s.executor.controllers.find? id = some c) {e : ExecutorError}
    (h : (runNode id).finish s = (s', .error (.error e))) :
    ∃ i, s.executor.due? id = some i
      ∧ ((logic i.node i.inputs).finish s.host).2.verdict id = .error e
      ∧ s'.journal = s.journal ++ [.started i.node i.inputs,
        .ended id ((logic i.node i.inputs).finish s.host).2.guarded] := by
  rw [runNode_finish id hl] at h
  obtain ⟨t, batch, heq, hserved, _⟩ := runWith_served logic hs hc
  obtain ⟨x, _, _, hdue, _, _⟩ := hserved.of_nodeAnswer_error (Prod.mk.inj (heq.symm.trans h)).2
  obtain ⟨history, hfull⟩ := runWith_of_due logic hs.coherent hc hdue
  obtain ⟨rfl, hanswer⟩ := Prod.mk.inj (h.symm.trans hfull)
  refine ⟨x.1, hdue, ?_, rfl⟩
  cases hv : ((logic x.1.node x.1.inputs).finish s.host).2.verdict id with
  | ok values => simp [hv, NodeRun.ofOutcome] at hanswer
  | error err =>
    rw [hv, NodeRun.ofOutcome, Except.error.injEq, Stop.error.injEq] at hanswer
    rw [hanswer]

/-- A node that is due stays so, with the same inputs, until it has a result. -/
theorem due?_of_steps {flight flight' : List Invocation} (h : Steps ⟨flight, s⟩ ⟨flight', s'⟩)
    (hs : Moment.Sound ⟨flight, s⟩) {i : Invocation} (hi : s.executor.due? id = some i)
    (hnone : s'.executor.cache.get? id = none) : s'.executor.due? id = some i := by
  obtain ⟨c, node, hc, hn, _, havail, rfl⟩ := Executor.due?_eq_some.mp hi
  obtain ⟨c', hc', hn', havail', hinputs⟩ : Supplied s'.executor ⟨id, node, _⟩ :=
    .of_frame ⟨c, hc, hn, havail, rfl⟩ h.frame (h.extends hs)
  exact Executor.due?_eq_some.mpr ⟨c', node, hc', hn', hnone, havail', congrArg _ hinputs⟩

/-! ## Runs -/

/-- The session with other logic and another state of the host. -/
def withLogic (s : Session σ) (logic : Logic σ) (host : σ) : Session σ :=
  { s with host, executor := { s.executor with logic := some logic } }

/-- An invocation is due, and whatever logic ends it with the result: the node that is run alone answers with
the error. -/
structure FailsAlone (s : Session σ) (i : Invocation) (result : Except String Object) (own : ExecutorError) :
    Prop where
  due : s.executor.due? i.id = some i
  answer : ∀ (logic : Logic σ) (host : σ), ((logic i.node i.inputs).finish host).2.guarded = result →
    ((runNode i.id).finish (s.withLogic logic host)).2 = .error (.error own)

/-- What makes a run from `s` fail that ends at `s'`. When all before the node is done, at `t`, the invocation
is due; the logic is handed it and ends with the result, which is an error of the node's own. That is what a
run of the node alone would have answered at `t`, and still would at `s'`; in sequential dispatch it is what
one has answered. -/
structure Failing (logic : Logic σ) (s t : Session σ) (i : Invocation) (result : Except String Object)
    (own : ExecutorError) (s' : Session σ) : Prop where
  reached : Steps ⟨[], s⟩ ⟨[], t⟩
  yields : ∃ o, (logic i.node i.inputs).MayEnd o ∧ result = o.guarded
  noted : ∃ events, s'.journal = t.journal ++ events ∧ i.event ∈ events ∧ .ended i.id result ∈ events
  before : FailsAlone t i result own
  after : FailsAlone s' i result own
  sequential : s.executor.options.dispatch = .sequential →
    (runNode i.id).finish t = (s', .error (.error own))

variable {t : Session σ} {i : Invocation} {result : Except String Object} {own : ExecutorError}
variable {stats : RunStats}

/-- Logic has no part in coherence. -/
theorem coherent_withLogic (hs : s.executor.Coherent []) (logic : Logic σ) (host : σ) :
    (s.withLogic logic host).executor.Coherent [] where
  wellFormed := ⟨hs.wellFormed.indexed, hs.wellFormed.positions, hs.wellFormed.described⟩
  flying := hs.flying
  notReady := hs.notReady
  stored := hs.stored
  clean := hs.clean

/-- A node that is due fails alone if that is what the result amounts to. -/
theorem FailsAlone.of_due (hs : s.executor.Coherent []) (hi : s.executor.due? i.id = some i)
    (hown : judge i.id result = .error own) : FailsAlone s i result own where
  due := hi
  answer logic host hresult := by
    rw [runNode_of_due (coherent_withLogic hs logic host) rfl hi]
    show NodeRun.ofOutcome (((logic i.node i.inputs).finish host).2.verdict i.id) = _
    rw [← judge_guarded, hresult, hown]
    rfl

/-- What failed in a part of a run that began later makes the run fail. -/
theorem Failing.of_steps {s₁ : Session σ} (h : Failing logic s₁ t i result own s')
    (hsteps : Steps ⟨[], s⟩ ⟨[], s₁⟩) : Failing logic s t i result own s' :=
  { h with
    reached := hsteps.trans h.reached
    sequential hd := h.sequential (by rw [Executor.options_of_frame hsteps.frame, hd]) }

/-- What failed in a concurrent stage was due when the stage began. -/
theorem runConcurrent_failing (rs : List NodeRecord) (hs : Moment.Sound ⟨[], s⟩)
    (hd : s.executor.options.dispatch = .concurrent)
    (h : (runConcurrent logic rs stats).finish s = (s', .error stop)) :
    ∃ i result own, Failing logic s s i result own s' ∧ judge i.id result = .error own
      ∧ stop = .error (own.inNode i.id) := by
  obtain ⟨s₁, batch, stats₁, heq, hserved, _, hjournal, hyields⟩ :=
    runConcurrent_eq logic.yields_mayEnd rs stats hs
  obtain ⟨rfl, hanswer⟩ := Prod.mk.inj (h.symm.trans heq)
  obtain ⟨before, x, after, own, rfl, _, hx, hstop⟩ :=
    firstFailure?_eq_some (stageAnswer_eq_error hanswer.symm)
  have hmem : x ∈ before ++ x :: after := List.mem_append_right before List.mem_cons_self
  have hdue := (hserved.due_of_mem hmem).2
  have hnone : s'.executor.cache.get? x.1.id = none := by
    rw [(hserved.of_mem hmem).1, Ending.entry?, hx]
  refine ⟨x.1, x.2, own, ?_, hx, hstop⟩
  exact
    { reached := .refl
      yields := hyields x hmem
      noted := ⟨_, hjournal.trans (List.append_assoc _ _ _),
        List.mem_append_left _ (List.mem_map_of_mem hmem),
        List.mem_append_right _ (List.mem_map_of_mem (f := Ending.event) hmem)⟩
      before := .of_due hs.coherent hdue hx
      after := .of_due (hserved.steps.sound hs).coherent (due?_of_steps hserved.steps hs hdue hnone) hx
      sequential := fun hseq => absurd (hd.symm.trans hseq) (by simp) }

/-- What failed in a sequential stage was due when the entries before it had been passed. -/
theorem runSequential_failing (rs : List NodeRecord) (hs : Moment.Sound ⟨[], s⟩)
    (hl : s.executor.logic = some logic)
    (h : (runSequential logic rs stats).finish s = (s', .error stop)) :
    ∃ t i result own, Failing logic s t i result own s' ∧ judge i.id result = .error own
      ∧ stop = .error (own.inNode i.id) := by
  obtain ⟨before, r, _, mid, _, batch, _, hpassed, heq, hserved, hfailed⟩ := runSequential_error rs hs h
  have hsteps := runSequential_steps logic before stats hs
  rw [hpassed] at hsteps
  have hmid := hsteps.sound hs
  have hlmid : mid.executor.logic = some logic := (Executor.logic_of_frame hsteps.frame).trans hl
  obtain ⟨x, own, rfl, hid, hx, hstop⟩ := hserved.eq_singleton_of_failed hfailed
  have hdue : mid.executor.due? r.id = some x.1 := hid ▸ (hserved.due_of_mem List.mem_cons_self).2
  obtain ⟨c, _, hc, _, hmissing, _⟩ := Executor.due?_eq_some.mp hdue
  -- the node's own run is the last one of the stage
  have hrun : (runNode r.id).finish mid = (s', .error (.error own)) := by
    rw [runNode_finish r.id hlmid, heq]
    simp only [nodeAnswer, hmissing, hx, NodeRun.ofOutcome]
  obtain ⟨i, hi, hverdict, hjournal⟩ := runNode_error hmid hlmid hc hrun
  obtain rfl : x.1 = i := Option.some.inj (hdue.symm.trans hi)
  rw [← hid] at hi hrun hverdict hjournal hstop
  rw [← judge_guarded] at hverdict
  have hnone : s'.executor.cache.get? x.1.id = none := by
    rw [(hserved.of_mem List.mem_cons_self).1, Ending.entry?, hx]
  refine ⟨mid, x.1, _, own, ?_, hverdict, hstop⟩
  exact
    { reached := hsteps
      yields := ⟨_, (logic x.1.node x.1.inputs).always_mayEnd.finish mid.host, rfl⟩
      noted := ⟨_, hjournal, List.mem_cons_self, List.mem_cons_of_mem _ List.mem_cons_self⟩
      before := .of_due hmid.coherent hi hverdict
      after := .of_due (hserved.steps.sound hmid).coherent (due?_of_steps hserved.steps hmid hi hnone)
        hverdict
      sequential := fun _ => hrun }

/-- **What makes a run fail,** in either dispatch: the run passes on the words of the node's own error. -/
theorem run_failing (hs : Moment.Sound ⟨[], s⟩) (hl : s.executor.logic = some logic)
    (h : run.finish s = (s', .error stop)) :
    ∃ t i result own, Failing logic s t i result own s' ∧ judge i.id result = .error own
      ∧ stop = .error (own.inNode i.id) := by
  rw [run_finish hl] at h
  obtain ⟨k, stage, began, stats, _, htake, hstage⟩ := runStages_error s.executor.plan.stages h
  have hsteps := runStages_steps logic (s.executor.plan.stages.take k) {} hs
  rw [htake] at hsteps
  have hbegan := hsteps.sound hs
  cases hd : began.executor.options.dispatch with
  | concurrent =>
    rw [runStage_concurrent stage stats hd] at hstage
    obtain ⟨i, result, own, hfailing, hown⟩ := runConcurrent_failing stage.records hbegan hd hstage
    exact ⟨began, i, result, own, hfailing.of_steps hsteps, hown⟩
  | sequential =>
    rw [runStage_sequential stage stats hd] at hstage
    obtain ⟨t, i, result, own, hfailing, hown⟩ := runSequential_failing stage.records hbegan
      ((Executor.logic_of_frame hsteps.frame).trans hl) hstage
    exact ⟨t, i, result, own, hfailing.of_steps hsteps, hown⟩

/-! ## Calls -/

/-- A run that fails answers with a faithful error: there is no logic, or a node has failed. -/
theorem run_faithful (hs : Moment.Sound ⟨[], s⟩) (h : run.finish s = (s', .error stop)) :
    ∃ e, stop = .error e ∧ e.Faithful := by
  cases hl : s.executor.logic with
  | none =>
    rw [run_finish_of_none hl] at h
    exact ⟨_, (Except.error.inj (Prod.mk.inj h).2).symm, .of_errorValues rfl⟩
  | some logic =>
    obtain ⟨_, _, _, _, _, _, rfl⟩ := run_failing hs hl h
    exact ⟨_, rfl, .of_errorValues rfl⟩

/-- The run of a node that fails answers with a faithful error: there is no logic or no controller, or the
node's own error. -/
theorem runNode_faithful (hs : Moment.Sound ⟨[], s⟩) (h : (runNode id).finish s = (s', .error stop)) :
    ∃ e, stop = .error e ∧ e.Faithful := by
  rcases runNode_cases id hs with ⟨_, heq⟩ | ⟨_, _, _, heq⟩ | ⟨_, _, _, _, heq, hserved, _⟩
  · obtain ⟨_, hstop⟩ := Prod.mk.inj (heq.symm.trans h)
    exact ⟨_, (Except.error.inj hstop).symm, .of_errorValues rfl⟩
  · obtain ⟨_, hstop⟩ := Prod.mk.inj (heq.symm.trans h)
    exact ⟨_, (Except.error.inj hstop).symm, .of_errorValues rfl⟩
  · obtain ⟨_, hanswer⟩ := Prod.mk.inj (heq.symm.trans h)
    obtain ⟨_, e, _, _, ho, hstop⟩ := hserved.of_nodeAnswer_error hanswer
    exact ⟨e, hstop, judge_faithful ho⟩

/-- An error of the application is answered with the object that the logic has returned. -/
theorem runNode_application (hs : Moment.Sound ⟨[], s⟩) {k : NodeId} {message : String} {values : Object}
    (h : (runNode id).finish s = (s', .error (.error (.application k message values)))) :
    k = id ∧ ∃ logic i, s.executor.logic = some logic ∧ s.executor.due? id = some i
      ∧ ((logic i.node i.inputs).finish s.host).2 = .returned values
      ∧ s'.journal = s.journal ++ [i.event, .ended id (.ok values)] := by
  rcases runNode_cases id hs with ⟨_, heq⟩ | ⟨_, _, _, heq⟩ | ⟨logic, _, _, hl, heq, hserved, _⟩
  · exact absurd (Prod.mk.inj (heq.symm.trans h)).2 (by simp)
  · exact absurd (Prod.mk.inj (heq.symm.trans h)).2 (by simp)
  · obtain ⟨x, _, _, hdue, _, _⟩ := hserved.of_nodeAnswer_error (Prod.mk.inj (heq.symm.trans h)).2
    obtain ⟨c, _, hc, _⟩ := Executor.due?_eq_some.mp hdue
    obtain ⟨i, hi, hverdict, hjournal⟩ := runNode_error hs hl hc h
    rw [← judge_guarded] at hverdict
    obtain ⟨rfl, hreturned⟩ := judge_eq_application hverdict
    rw [hreturned] at hjournal
    exact ⟨rfl, logic, i, hl, hi, Outcome.guarded_eq_ok.mp hreturned, hjournal⟩

/-- **Errors agree with their objects,** in either dispatch. Whatever a run answers with, or the run of one
node, is an error; its object tells of a failure, and tells it in the words of the error. An error of the
application has the object that the logic has returned. If a node makes the plan fail, the words of its own
error stand behind its name. -/
theorem errors_are_faithful (hs : Reachable s) :
    (∀ s' stop, s.perform .run = (s', .run (.error stop)) → ∃ e, stop = .error e ∧ e.Faithful)
    ∧ (∀ id s' stop, s.perform (.runNode id) = (s', .runNode (.error stop)) →
        ∃ e, stop = .error e ∧ e.Faithful)
    ∧ (∀ id s' k message returned,
        s.perform (.runNode id)
          = (s', .runNode (.error (.error (.application k message returned)))) →
        k = id ∧ ∃ logic i, s.executor.logic = some logic ∧ s.executor.due? id = some i
          ∧ ((logic i.node i.inputs).finish s.host).2
            = .returned (ExecutorError.application k message returned).values
          ∧ s'.journal = s.journal ++ [i.event, .ended id (.ok returned)])
    ∧ ∀ s' k message, s.perform .run = (s', .run (.error (.error (.nodeFailed k message)))) →
        ∃ logic t i result own text, s.executor.logic = some logic ∧ i.id = k
          ∧ Failing logic s t i result own s'
          ∧ errorMessage? own.values = some text
          ∧ (ExecutorError.nodeFailed k message).message = "Error in node '" ++ k.text ++ "': " ++ text := by
  have hsound := hs.sound
  refine ⟨fun s' stop h => run_faithful hsound (run_finish_of_perform h),
    fun id s' stop h => runNode_faithful hsound (runNode_finish_of_perform h),
    fun id s' k message returned h => runNode_application hsound (runNode_finish_of_perform h), ?_⟩
  intro s' k message h
  have hanswer := run_finish_of_perform h
  cases hl : s.executor.logic with
  | none =>
    rw [run_finish_of_none hl] at hanswer
    exact absurd (Prod.mk.inj hanswer).2 (by simp)
  | some logic =>
    obtain ⟨t, i, result, own, hfailing, hown, hstop⟩ := run_failing hsound hl hanswer
    obtain ⟨rfl, rfl⟩ := ExecutorError.nodeFailed.inj (Stop.error.inj hstop)
    exact ⟨logic, t, i, result, own, own.message, rfl, rfl, hfailing, (judge_faithful hown).message, rfl⟩

/-- Logic that returns failure objects without words. -/
def failsWordless : Logic Unit := fun _ _ =>
  .done (.returned (SortedMap.empty.insert errorKey (.list [.bool true])))

/-- A failure without words is told as its JSON text, by the node alone and by the run. -/
theorem errors_are_faithful_sample :
    ∃ s t u : Session Unit, ∃ failed own : ExecutorError, Reachable s
      ∧ s.perform .run = (t, .run (.error (.error failed)))
      ∧ s.perform (.runNode ⟨"a"⟩) = (u, .runNode (.error (.error own)))
      ∧ failed.Faithful ∧ own.Faithful
      ∧ (∃ i, s.executor.due? ⟨"a"⟩ = some i
        ∧ ((failsWordless i.node i.inputs).finish s.host).2 = .returned own.values)
      ∧ failed.message = "Error in node 'a': [true]"
      ∧ ∃ began i result error, Failing failsWordless s began i result error t := by
  obtain ⟨s, hstart, hl, hrun, hnode⟩ : ∃ s : Session Unit,
      Session.start Sample.plan Sample.graph (some failsWordless) () = .ok s
      ∧ s.executor.logic = some failsWordless
      ∧ (s.perform .run).2 = .run (.error (.error (.nodeFailed ⟨"a"⟩ "[true]")))
      ∧ (s.perform (.runNode ⟨"a"⟩)).2 = .runNode (.error (.error (.application ⟨"a"⟩ "[true]"
        (SortedMap.empty.insert errorKey (.list [.bool true]))))) :=
    ⟨_, (by rw [start, Executor.new, Plan.records_eq]; rfl), rfl, rfl, rfl⟩
  obtain ⟨hruns, hnodes, happlication, hfails⟩ := errors_are_faithful (.start hstart)
  obtain ⟨_, hfailed, hfaithful⟩ := hruns _ _ (Prod.ext rfl hrun)
  obtain rfl := Stop.error.inj hfailed
  obtain ⟨_, hown, hfaithful'⟩ := hnodes _ _ _ (Prod.ext rfl hnode)
  obtain rfl := Stop.error.inj hown
  obtain ⟨_, logic, i, hl', hi, hreturned, _⟩ := happlication _ _ _ _ _ (Prod.ext rfl hnode)
  obtain rfl := Option.some.inj (hl.symm.trans hl')
  obtain ⟨logic, began, j, result, error, _, hl', _, hfailing, _⟩ := hfails _ _ _ (Prod.ext rfl hrun)
  obtain rfl := Option.some.inj (hl.symm.trans hl')
  exact ⟨s, _, _, _, _, .start hstart, Prod.ext rfl hrun, Prod.ext rfl hnode, hfaithful, hfaithful',
    ⟨i, hi, hreturned⟩, rfl, began, j, result, error, hfailing⟩

end Session

end StageFlow
