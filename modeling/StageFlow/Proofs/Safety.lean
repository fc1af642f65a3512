import StageFlow.Proofs.Rounds

/-!
# Safety

No call on an executor breaks off, whatever the plan, the graph and the logic. All that an operation relies
on, that positions lead to items and to nodes and that only a ready node is started, holds whenever it is
relied on. Logic that panics makes an error of its node's invocation, and so does logic that fails; these
and failure objects are the only errors that a run passes on.

## Contents
- **Panics.** `Outcome.verdict`, what the end of an invocation amounts to.
- **Breaches.** `Reply.breach?`, and that no call of a coherent session has one.
- **Runs.** `Handles`: what a run hands to the logic, how that ends, and what the run answers because of it.
- **Calls.** `calls_never_break`.
-/

namespace StageFlow

open Executor (Invocation NodeRun judge)

/-! ## Panics -/

/-- What the end of an invocation of a node amounts to. A panic is an error of the invocation. -/
def Outcome.verdict (id : NodeId) : Outcome → Except ExecutorError Object
  | returned values =>
    match errorMessage? values with
    | some message => .error (.application id message values)
    | none => .ok values
  | failed message => .error (.invoke id message)
  | panicked message => .error (.invoke id (message.getD "Node logic panicked"))

/-- The end of an invocation never amounts to an unknown node. -/
theorem Outcome.verdict_ne_unknownNode (o : Outcome) (id k : NodeId) :
    o.verdict id ≠ .error (.unknownNode k) := by
  cases o with
  | returned values =>
    simp only [verdict]
    split <;> simp
  | failed message => simp [verdict]
  | panicked message => simp [verdict]

theorem judge_guarded (id : NodeId) (o : Outcome) : judge id o.guarded = o.verdict id := by
  cases o with
  | returned values => rfl
  | failed message => rfl
  | panicked message => cases message <;> rfl

/-! ## Breaches -/

/-- The condition that did not hold, if the call has broken off. -/
def Reply.breach? : Reply → Option Breach
  | .run (.error (.breach b)) | .runNode (.error (.breach b)) | .breach b => some b
  | _ => none

namespace Executor

variable {σ : Type} {e : Executor σ} {id : NodeId} {c : Controller}

/-- What a look-up has found can be written to, whatever the executor, so that no step of a node's life is
lost. -/
theorem advance_of_get? (h : e.controllers.get? id = .ok (some c)) (step : Transition.Step)
    (old new : Controller) :
    ∃ controllers, e.controllers.modifyKey id (fun _ => new) = .ok (controllers, true)
      ∧ e.advance step id old new
        = { e with controllers, history := e.history ++ [⟨id, step, old.state, new.state⟩] } := by
  obtain ⟨controllers, hwrite⟩ : ∃ controllers,
      e.controllers.modifyKey id (fun _ => new) = .ok (controllers, true) := by
    unfold KeyedVec.get? KeyedVec.at? at h
    unfold KeyedVec.modifyKey KeyedVec.setAt
    cases hp : e.controllers.position? id with
    | none =>
      rw [hp] at h
      exact absurd h (by simp)
    | some index =>
      rw [hp] at h
      cases hi : e.controllers.items[index]? with
      | none =>
        simp only [hi] at h
        exact absurd h (by simp [Except.map])
      | some d =>
        have hlt : index < e.controllers.items.length := (List.getElem?_eq_some_iff.mp hi).1
        simp only [hlt, if_true]
        exact ⟨_, rfl⟩
  refine ⟨controllers, hwrite, ?_⟩
  unfold advance
  rw [hwrite]

theorem WellFormed.progress (hw : e.WellFormed) : ∃ settled, e.progress = .ok settled := by
  have hsize : e.controllers.size = .ok e.controllers.items.length := if_pos hw.indexed.sizes
  unfold Executor.progress KeyedVec.isEmpty
  rw [hsize]
  cases e.controllers.items.isEmpty with
  | true => exact ⟨_, rfl⟩
  | false => exact ⟨_, rfl⟩

end Executor

namespace Session

variable {σ : Type} {s s₁ s' : Session σ} {stats stats' : RunStats} {id : NodeId}
variable {rounds : List (List NodeId)} {batch : List Ending} {logic : Logic σ}
variable {P : NodeDescriptor → Object → Except String Object → Prop}
variable {result : Session σ × Except Stop RunStats}

/-- A run answers with the first failure in it, if there is one. -/
theorem Rounds.error_iff (h : Rounds P s stats rounds batch result) (stop : Stop) :
    result.2 = .error stop ↔ firstFailure? batch = some stop := by
  induction h with
  | done s stats => simp [firstFailure?]
  | pass _ passed _ _ _ ih =>
    rw [ih, firstFailure?_append, passed, Option.none_or]
  | fail _ failed _ =>
    rw [failed]
    simp

/-- The run of one node answers with no breach. -/
theorem nodeAnswer_ne_breach (e : Executor σ) (id : NodeId) (batch : List Ending) (b : Breach) :
    nodeAnswer e id batch ≠ .error (.breach b) := by
  unfold nodeAnswer
  split
  · simp
  · rename_i x _ _
    cases hx : x.outcome <;> simp [NodeRun.ofOutcome]
  · simp

theorem run_ne_breach (hs : s.executor.Coherent []) (b : Breach) :
    (run.finish s).2 ≠ .error (.breach b) := by
  cases hl : s.executor.logic with
  | none =>
    rw [run_finish_of_none hl]
    simp
  | some logic =>
    obtain ⟨batch, hrounds⟩ := run_rounds hl logic.yields_trivial (moment_sound hs)
    intro hbreach
    obtain ⟨_, _, _, _, _, _, _, hstop⟩ := firstFailure?_eq_some ((hrounds.error_iff _).mp hbreach)
    simp at hstop

theorem runNode_ne_breach (hs : s.executor.Coherent []) (id : NodeId) (b : Breach) :
    ((runNode id).finish s).2 ≠ .error (.breach b) := by
  rcases runNode_cases id (moment_sound hs) with
    ⟨_, heq⟩ | ⟨_, _, _, heq⟩ | ⟨_, s', batch, _, heq, _⟩
  · simp [heq]
  · simp [heq]
  · rw [heq]
    exact nodeAnswer_ne_breach s.executor id batch b

/-- **No call of a coherent session breaks off.** -/
theorem perform_breach? (hs : s.executor.Coherent []) (call : Call) :
    (s.perform call).2.breach? = none := by
  unfold perform act
  cases call with
  | run =>
    rw [Activity.finish_map]
    have hne := run_ne_breach hs
    cases ha : (run.finish s).2 with
    | ok stats => rfl
    | error stop =>
      cases stop with
      | error err => rfl
      | breach b => exact absurd ha (hne b)
  | runNode id =>
    rw [Activity.finish_map]
    have hne := runNode_ne_breach hs id
    cases ha : ((runNode id).finish s).2 with
    | ok run => rfl
    | error stop =>
      cases stop with
      | error err => rfl
      | breach b => exact absurd ha (hne b)
  | clear => rfl
  | clearNode id =>
    obtain ⟨e', he, _⟩ := hs.clearNode_eq id
    rw [Activity.finish_step]
    simp only [he]
    rfl
  | withOptions options => rfl

theorem performAll_breach? (hs : s.executor.Coherent []) (calls : List Call) :
    ∀ reply ∈ (s.performAll calls).2, reply.breach? = none := by
  induction calls generalizing s with
  | nil => exact fun reply hreply => absurd hreply List.not_mem_nil
  | cons call calls ih =>
    intro reply hreply
    rcases List.mem_cons.mp hreply with rfl | hreply
    · exact perform_breach? hs call
    · exact ih (perform_coherent hs call) reply hreply

end Session

/-! ## Runs -/

/-- A node that was handed to the logic, with its inputs and the end that it came to. -/
structure Handled where
  node : NodeDescriptor
  inputs : Object
  outcome : Outcome

/-- What the end amounts to. -/
def Handled.verdict (x : Handled) : Except ExecutorError Object := x.outcome.verdict x.node.id

/-- What a run answers because of it, if it is a failure. -/
def Handled.failure? (x : Handled) : Option Stop :=
  match x.verdict with
  | .ok _ => none
  | .error err => some (.error (err.inNode x.node.id))

theorem Handled.failure?_eq_some {x : Handled} {stop : Stop} (h : x.failure? = some stop) :
    ∃ err, x.verdict = .error err ∧ stop = .error (err.inNode x.node.id) := by
  unfold failure? at h
  cases hv : x.verdict with
  | ok values => simp [hv] at h
  | error err =>
    rw [hv] at h
    exact ⟨err, rfl, (Option.some.inj h).symm⟩

namespace Session

variable {σ : Type} {s s₁ s' : Session σ} {stats stats' : RunStats} {id : NodeId}
variable {rounds : List (List NodeId)} {batch : List Ending} {logic : Logic σ}
variable {P : NodeDescriptor → Object → Except String Object → Prop}
variable {result : Session σ × Except Stop RunStats}

/-- What a run with a logic comes to: all that is handed to the logic ends as the logic may end, a node whose
end is a failure is left failed and without a result, and the run answers with the first failure if there is
one. No error that it passes on is that of an unknown node. -/
structure Handles (logic : Logic σ) (s : Session σ) (handled : List Handled) (s' : Session σ)
    (answer : Except Stop RunStats) : Prop where
  started : launches s'.journal = launches s.journal ++ handled.map fun x => (x.node, x.inputs)
  ended : ∀ x ∈ handled, (logic x.node x.inputs).MayEnd x.outcome
  failed : ∀ x ∈ handled, ∀ err, x.verdict = .error err →
    s'.executor.outputs? x.node.id = none
      ∧ ∃ c, s'.executor.controller? x.node.id = .ok (some c) ∧ c.state = .failed
  known : ∀ stop, answer = .error stop → ∃ x ∈ handled, ∃ err, x.verdict = .error err
    ∧ stop = .error (err.inNode x.node.id) ∧ ∀ k, err ≠ .unknownNode k
  answer : ∀ stop, answer = .error stop ↔ handled.findSome? Handled.failure? = some stop

/-- A node that has failed in a run is left as it has failed. -/
theorem Rounds.of_failed (h : Rounds P s stats rounds batch result) {x : Ending} (hx : x ∈ batch)
    {err : ExecutorError} (ho : x.outcome = .error err) :
    result.1.executor.cache.get? x.1.id = none
      ∧ ∃ c, result.1.executor.controllers.find? x.1.id = some c ∧ c.state = .failed := by
  induction h with
  | done s stats => exact absurd hx List.not_mem_nil
  | pass _ passed _ _ _ ih =>
    rcases List.mem_append.mp hx with hx | hx
    · -- nothing fails in a round that is passed
      obtain ⟨values, hok⟩ := firstFailure?_eq_none.mp passed x hx
      rw [ho] at hok
      exact absurd hok (by simp)
    · exact ih hx
  | fail served _ _ =>
    obtain ⟨hget, c, hc, hstate⟩ := served.of_mem hx
    rw [ho] at hstate
    rw [hget, Ending.entry?, ho]
    exact ⟨rfl, c, hc, hstate⟩

theorem Rounds.yields (h : Rounds P s stats rounds batch result) :
    ∀ x ∈ batch, P x.1.node x.1.inputs x.2 := by
  induction h with
  | done s stats => exact fun x hx => absurd hx List.not_mem_nil
  | pass _ _ _ yields _ ih =>
    intro x hx
    exact (List.mem_append.mp hx).elim (yields x) (ih x)
  | fail _ _ yields => exact yields

/-- **What a run comes to.** -/
theorem run_handles (hs : s.executor.Coherent []) (hl : s.executor.logic = some logic) :
    ∃ handled, Handles logic s handled (run.finish s).1 (run.finish s).2 := by
  obtain ⟨batch, hrounds⟩ := run_rounds hl logic.yields_mayEnd (moment_sound hs)
  have hw := (hrounds.steps.sound (moment_sound hs)).coherent.wellFormed
  have : Nonempty Outcome := ⟨.panicked none⟩
  choose! outcome hmay hguard using hrounds.yields
  let handle : Ending → Handled := fun x => ⟨x.1.node, x.1.inputs, outcome x⟩
  have hverdict : ∀ x ∈ batch, (handle x).verdict = x.outcome := by
    intro x hx
    show (outcome x).verdict x.1.node.id = judge x.1.id x.2
    rw [hrounds.node_id x hx, ← judge_guarded, ← hguard x hx]
  have hfailure : (batch.map handle).findSome? Handled.failure? = firstFailure? batch := by
    have hsame : batch.filterMap (Handled.failure? ∘ handle) = batch.filterMap Ending.failure? := by
      apply List.filterMap_congr
      intro x hx
      have hid : (handle x).node.id = x.1.id := hrounds.node_id x hx
      show (handle x).failure? = x.failure?
      unfold Handled.failure? Ending.failure?
      cases ho : x.outcome <;> simp only [hverdict x hx, hid, ho]
    rw [firstFailure?, List.findSome?_map, ← List.head?_filterMap, ← List.head?_filterMap, hsame]
  have hanswer : ∀ stop, (run.finish s).2 = .error stop
      ↔ (batch.map handle).findSome? Handled.failure? = some stop := by
    intro stop
    rw [hfailure]
    exact hrounds.error_iff stop
  refine ⟨batch.map handle, ?_, ?_, ?_, ?_, hanswer⟩
  · rw [hrounds.started, List.map_map]
    rfl
  · intro y hy
    obtain ⟨x, hx, rfl⟩ := List.mem_map.mp hy
    exact hmay x hx
  · intro y hy err herr
    obtain ⟨x, hx, rfl⟩ := List.mem_map.mp hy
    rw [hverdict x hx] at herr
    obtain ⟨hget, c, hc, hstate⟩ := hrounds.of_failed hx herr
    have hid : (handle x).node.id = x.1.id := hrounds.node_id x hx
    rw [hid, hw.controller?_eq, hc, Executor.outputs?, hget]
    exact ⟨rfl, c, rfl, hstate⟩
  · intro stop hstop
    obtain ⟨x, hx, hxstop⟩ := List.exists_of_findSome?_eq_some ((hanswer stop).mp hstop)
    obtain ⟨err, herr, rfl⟩ := Handled.failure?_eq_some hxstop
    refine ⟨x, hx, err, herr, rfl, ?_⟩
    rintro k rfl
    exact x.outcome.verdict_ne_unknownNode x.node.id k herr

/-- A node that is due is handed to the logic, and is answered with what that amounts to. -/
theorem runNode_of_due {i : Invocation} (hs : s.executor.Coherent []) (hl : s.executor.logic = some logic)
    (hi : s.executor.due? id = some i) :
    ((runNode id).finish s).2
      = NodeRun.ofOutcome (((logic i.node i.inputs).finish s.host).2.verdict id) := by
  obtain ⟨c, _, hc, _, hnone, _⟩ := Executor.due?_eq_some.mp hi
  obtain ⟨s', batch, heq, hserved, hends⟩ := runWith_served logic (moment_sound hs) hc
  rw [runNode_finish id hl, heq]
  -- the batch is the one node that is due
  rcases hserved.single with ⟨_, hdue⟩ | ⟨x, rfl, hdue⟩
  · rw [hi] at hdue
    exact absurd hdue (by simp)
  · obtain rfl : i = x.1 := Option.some.inj (hi.symm.trans hdue)
    have hid : x.1.id = id := Executor.id_of_due? hi
    simp only [nodeAnswer, hnone]
    rw [Ending.outcome, hends x List.mem_cons_self, judge_guarded, hid]

/-! ## Calls -/

/-- **Calls never break off.** Whatever plan and graph are, an executor can be set up, every call is answered
with a result or an error of its own, and controllers can be counted, found and written to. If the logic
panics on a node that is run alone, the answer is an error of its invocation. A run answers with an error
only if there is no logic or if an invocation has failed, and then with the failure of the first that has. -/
theorem calls_never_break (plan : Plan) (graph : Graph) (logic : Option (Logic σ)) (host : σ) :
    ∃ s, Session.start plan graph logic host = .ok s ∧ ∀ calls : List Call,
      let t := (s.performAll calls).1
      (∀ reply ∈ (s.performAll calls).2, reply.breach? = none)
      ∧ t.executor.controllers.validate = .ok ()
      ∧ (∃ settled, t.executor.progress = .ok settled)
      ∧ (∀ id, ∃ c, t.executor.controller? id = .ok c)
      ∧ (∀ id c step new, t.executor.controller? id = .ok (some c) →
          (t.executor.advance step id c new).history
            = t.executor.history ++ [⟨id, step, c.state, new.state⟩])
      ∧ (∀ id i l message, logic = some l → t.executor.due? id = some i →
          ((l i.node i.inputs).finish t.host).2 = .panicked message →
          (t.perform (.runNode id)).2
            = .runNode (.error (.error (.invoke id (message.getD "Node logic panicked")))))
      ∧ ∀ t' answer, t.perform .run = (t', .run answer) →
          match logic with
          | none => answer = .error (.error .missingLogic)
          | some l => ∃ handled, Handles l t handled t' answer := by
  obtain ⟨s, hstart, hcoh, _, _, _, _, hlogic⟩ := start_eq_ok plan graph logic host
  refine ⟨s, hstart, ?_⟩
  intro calls t
  have ht : t.executor.Coherent [] := ((Reachable.start hstart).performAll calls).coherent
  have hl : t.executor.logic = logic := (performAll_logic hcoh calls).trans hlogic
  refine ⟨performAll_breach? hcoh calls, ht.wellFormed.indexed.validate_eq, ht.wellFormed.progress,
    ?_, ?_, ?_, ?_⟩
  · intro id
    exact ⟨_, ht.wellFormed.controller?_eq id⟩
  · intro id c step new hc
    obtain ⟨controllers, _, hadvance⟩ := Executor.advance_of_get? hc step c new
    rw [hadvance]
  · rintro id i l message rfl hi hpanic
    rw [perform_runNode, runNode_of_due ht hl hi, hpanic]
    rfl
  · intro t' answer hrun
    have hfinish := run_finish_of_perform hrun
    cases logic with
    | none =>
      rw [run_finish_of_none hl] at hfinish
      exact (Prod.mk.inj hfinish).2.symm
    | some l =>
      have hhandles := run_handles ht hl
      rw [hfinish] at hhandles
      exact hhandles

/-- Logic that panics at once makes the first node of the plan fail. -/
example : ∃ s : Session Unit,
    Session.start Sample.plan Sample.graph (some fun _ _ => .done (.panicked none)) () = .ok s
      ∧ (s.perform .run).2 = .run (.error (.error (.nodeFailed ⟨"a"⟩ "Node logic panicked"))) :=
  ⟨_, (by rw [start, Executor.new, Plan.records_eq]; rfl), rfl⟩

end Session

end StageFlow
