import StageFlow.Proofs.Safety

/-!
# One node in full

What the run of one node answers and what it changes, row by row. Whether there is a logic, a controller and a
result, and whether the inputs are there, decides which row applies; the state of the controller has no part in
it. Each row says all that the session is afterwards, so that nothing else can have changed.

## Contents
- **Executors.** `Executor.inState`, an executor with one controller in another state.
- **Ways.** What `runWith` comes to for a node with a result, for one that waits and for one that is due.
- **Table.** `RunTable` and `runNode_table`.
-/

namespace StageFlow

open Executor (Invocation NodeRun judge)

/-! ## Executors -/

namespace Executor

variable {σ : Type} {e e' : Executor σ} {id : NodeId} {c : Controller} {state : NodeState}

/-- The executor with the controller of one node in another state. -/
def inState (e : Executor σ) (c : Controller) (state : NodeState) : Executor σ :=
  { e with controllers := e.controllers.replace { c with state } }

/-- An executor with the same frame in which searches find only one controller changed is the same but for
that controller, its results and its history. -/
theorem eq_inState (hw : e.WellFormed) (hc : e.controllers.find? id = some c) (hf : e'.frame = e.frame)
    (hfind : ∀ k, e'.controllers.find? k
      = if k = id then some { c with state } else e.controllers.find? k) :
    e' = { e.inState c state with cache := e'.cache, history := e'.history } := by
  obtain rfl : c.id = id := id_of_find? hc
  have hcontrollers : e'.controllers = e.controllers.replace { c with state } := by
    refine (hw.indexed.replace _).ext (index_of_frame hf) ?_ ?_
    · rw [KeyedVec.keys_replace, keys_of_frame hf]
    · intro k
      rw [hfind k, KeyedVec.find?_replace]
      by_cases hk : k = c.id
      · have hkey : k = Keyed.key { c with state } := hk
        rw [if_pos hk, if_pos hkey, hk, hc, Option.map_some]
      · have hkey : ¬ k = Keyed.key { c with state } := hk
        rw [if_neg hk, if_neg hkey]
  have heq := eq_of_frame hf
  rw [hcontrollers] at heq
  exact heq

/-- A controller in the state that it has. -/
theorem inState_self (hw : e.WellFormed) (hc : e.controllers.find? id = some c) :
    e.inState c c.state = e := by
  refine (eq_inState hw hc rfl ?_).symm
  intro k
  split
  · rename_i hk
    rw [hk, hc]
  · rfl

/-- What preparing a node leaves behind. -/
theorem PreparedTo.eq_inState (hp : e.PreparedTo c e') (hw : e.WellFormed)
    (hc : e.controllers.find? c.id = some c) :
    e' = { e.inState c (e.preparedState c) with history := e'.history } := by
  have heq := Executor.eq_inState hw hc hp.frame hp.find?
  rw [hp.cache] at heq
  exact heq

/-- What settling a node that has been prepared leaves behind. -/
theorem SettledTo.eq_inState {e₁ e₂ : Executor σ} {outcome : Except ExecutorError Object}
    (hs : e₁.SettledTo { c with state := e.preparedState c } outcome e₂) (hp : e.PreparedTo c e₁)
    (hw : e.WellFormed) (hc : e.controllers.find? c.id = some c) :
    e₂ = { e.inState c (.afterOutcome outcome) with
      cache := e.cache.absorb c.id outcome, history := e₂.history } := by
  have hfind : ∀ k, e₂.controllers.find? k
      = if k = c.id then some { c with state := .afterOutcome outcome } else e.controllers.find? k := by
    intro k
    rw [hs.find? k, hp.find? k]
    split <;> rfl
  have heq := Executor.eq_inState hw hc (hs.frame.trans hp.frame) hfind
  rw [hs.cache, hp.cache] at heq
  exact heq

end Executor

/-! ## Ways -/

namespace Session

variable {σ : Type} {s : Session σ} {id : NodeId} {c : Controller} {logic : Logic σ}

/-- An invocation leaves the host as the logic does, and touches nothing else. -/
theorem invoke_finish (logic : Logic σ) (i : Invocation) (s : Session σ) :
    (invoke logic i).finish s
      = ({ s with host := ((logic i.node i.inputs).finish s.host).1 },
          ((logic i.node i.inputs).finish s.host).2.guarded) := by
  unfold invoke
  rw [Activity.finish_zoom_eq host (fun h s => { s with host := h }) (fun _ _ => rfl) (fun _ _ _ => rfl)
    (fun _ => rfl), Activity.finish_map]

/-- A node with a result is seen to have it. -/
theorem runWith_of_get? (logic : Logic σ) (hs : s.executor.Coherent [])
    (hc : s.executor.controllers.find? id = some c) {r : NodeResult}
    (hr : s.executor.cache.get? id = some r) :
    ∃ history, (runWith logic id).finish s
      = ({ s with executor := { s.executor.inState c .cached with history } },
          .ok (.cached r.toObject)) := by
  obtain rfl : c.id = id := Executor.id_of_find? hc
  obtain ⟨e', hp, hprep⟩ := prepare_eq hs hc
  have heq := hp.eq_inState hs.wellFormed hc
  unfold runWith
  rw [Activity.finish_seq, Activity.finish_step, hprep]
  cases hs.assess hc with
  | inFlight _ hnone _ _ | idle _ hnone _ _ _ =>
    rw [hr] at hnone
    exact absurd hnone (by simp)
  | due i _ hi _ _ =>
    rw [Executor.due?_eq_none_of_get? hr] at hi
    exact absurd hi (by simp)
  | done r' _ hr' hv hstate =>
    obtain rfl := Option.some.inj (hr.symm.trans hr')
    rw [hstate] at heq
    refine ⟨e'.history, ?_⟩
    rw [hv, ← heq]
    simp only [Executor.Prepared.launched, List.map_nil, List.append_nil]
    rfl

/-- A node that has neither a result nor all its inputs is left as it is. -/
theorem runWith_of_idle (logic : Logic σ) (hs : s.executor.Coherent [])
    (hc : s.executor.controllers.find? id = some c) (hnone : s.executor.cache.get? id = none)
    (hdue : s.executor.due? id = none) :
    ∃ history, (runWith logic id).finish s
      = ({ s with executor := { s.executor with history } }, .ok .waiting) := by
  obtain rfl : c.id = id := Executor.id_of_find? hc
  obtain ⟨e', hp, hprep⟩ := prepare_eq hs hc
  have heq := hp.eq_inState hs.wellFormed hc
  unfold runWith
  rw [Activity.finish_seq, Activity.finish_step, hprep]
  cases hs.assess hc with
  | inFlight hrun _ _ _ => exact absurd hrun (hs.ne_running hc)
  | done r _ hr _ _ =>
    rw [hnone] at hr
    exact absurd hr (by simp)
  | due i _ hi _ _ =>
    rw [hdue] at hi
    exact absurd hi (by simp)
  | idle _ _ _ hv hstate =>
    rw [hstate, Executor.inState_self hs.wellFormed hc] at heq
    refine ⟨e'.history, ?_⟩
    rw [hv, ← heq]
    simp only [Executor.Prepared.launched, List.map_nil, List.append_nil]
    rfl

/-- A node that is due is handed to the logic once, and what that comes to is taken in. -/
theorem runWith_of_due (logic : Logic σ) (hs : s.executor.Coherent [])
    (hc : s.executor.controllers.find? id = some c) {i : Invocation}
    (hi : s.executor.due? id = some i) :
    let after := (logic i.node i.inputs).finish s.host
    ∃ history, (runWith logic id).finish s
      = (⟨{ s.executor.inState c (.afterOutcome (after.2.verdict id)) with
            cache := s.executor.cache.absorb id (after.2.verdict id), history },
          after.1, s.journal ++ [.started i.node i.inputs, .ended id after.2.guarded]⟩,
          NodeRun.ofOutcome (after.2.verdict id)) := by
  intro after
  obtain rfl : c.id = id := Executor.id_of_find? hc
  obtain ⟨e₁, hp, hprep⟩ := prepare_eq hs hc
  have hi_id : i.id = c.id := Executor.id_of_due? hi
  have hnone : s.executor.cache.get? c.id = none := by
    obtain ⟨_, _, _, _, hnone, _⟩ := Executor.due?_eq_some.mp hi
    exact hnone
  unfold runWith
  rw [Activity.finish_seq, Activity.finish_step, hprep]
  cases hs.assess hc with
  | inFlight hrun _ _ _ => exact absurd hrun (hs.ne_running hc)
  | done r _ hr _ _ =>
    rw [hnone] at hr
    exact absurd hr (by simp)
  | idle _ _ hdue _ _ =>
    rw [hi] at hdue
    exact absurd hdue (by simp)
  | due j _ hj hv _ =>
    obtain rfl := Option.some.inj (hi.symm.trans hj)
    -- the controller that is settled is the one that preparation has left running
    have hrunning := hp.find? c.id
    rw [if_pos rfl] at hrunning
    have hw₁ := hs.wellFormed.of_frame hp.frame
    obtain ⟨e₂, hse, hsettle⟩ :=
      settle_eq (s := ⟨e₁, after.1, s.journal ++ [i.event]⟩) hw₁ hrunning after.2.guarded
    have heq := hse.eq_inState hp hs.wellFormed hc
    rw [judge_guarded] at heq
    refine ⟨e₂.history, ?_⟩
    rw [hv, ← heq]
    show ((invoke logic i) >>= fun result => Activity.step (settle i.id result)).finish _ = _
    rw [Activity.finish_seq, invoke_finish, Activity.finish_step, hi_id]
    show settle c.id after.2.guarded ⟨e₁, after.1, s.journal ++ [i.event]⟩ = _
    rw [hsettle, judge_guarded, List.append_assoc]
    rfl

/-! ## Table -/

/-- What the run of a node answers and the session that it leaves behind, by whether there is a logic, a
controller and a result, and whether the inputs are there. Of the lives of controllers that an executor records
nothing is said. -/
structure RunTable (s : Session σ) (id : NodeId) (t : Session σ) (answer : Except Stop NodeRun) :
    Prop where
  noLogic : s.executor.logic = none → answer = .error (.error .missingLogic) ∧ t = s
  unknown : ∀ logic, s.executor.logic = some logic → s.executor.controller? id = .ok none →
    answer = .error (.error (.unknownNode id)) ∧ t = s
  cached : ∀ logic c values, s.executor.logic = some logic →
    s.executor.controller? id = .ok (some c) → s.executor.outputs? id = some values →
    answer = .ok (.cached values)
      ∧ ∃ history, t = { s with executor := { s.executor.inState c .cached with history } }
  waiting : ∀ logic c, s.executor.logic = some logic → s.executor.controller? id = .ok (some c) →
    s.executor.outputs? id = none →
    (∃ b ∈ c.bindings, s.executor.cache.output? b.source b.output = none) →
    answer = .ok .waiting
      ∧ ∃ history, t = { s with executor := { s.executor with history } }
  invoked : ∀ logic c, s.executor.logic = some logic → s.executor.controller? id = .ok (some c) →
    s.executor.outputs? id = none →
    (∀ b ∈ c.bindings, ∃ v, s.executor.cache.output? b.source b.output = some v) →
    ∃ node, s.executor.graph.find? id = some node ∧
      let inputs := Executor.gatherInputs s.executor.cache c.bindings
      let after := (logic node inputs).finish s.host
      t.host = after.1
      ∧ t.journal = s.journal ++ [.started node inputs, .ended id after.2.guarded]
      ∧ ∃ history,
        let failed := { s.executor.inState c .failed with history }
        match after.2 with
        | .returned values =>
          match errorMessage? values with
          | none => answer = .ok (.invoked values)
              ∧ t.executor = { s.executor.inState c .succeeded with
                  cache := s.executor.cache.set id (.ofObject values), history }
              ∧ t.executor.outputs? id = some values
          | some message => answer = .error (.error (.application id message values))
              ∧ t.executor = failed
        | .failed message => answer = .error (.error (.invoke id message)) ∧ t.executor = failed
        | .panicked message =>
          answer = .error (.error (.invoke id (message.getD "Node logic panicked")))
            ∧ t.executor = failed

/-- **The run of one node follows the table,** in every session and for every identifier. -/
theorem runNode_table (hs : Reachable s) (id : NodeId) :
    ∃ t answer, s.perform (.runNode id) = (t, .runNode answer) ∧ RunTable s id t answer := by
  have hcoh := hs.coherent
  have hw := hcoh.wellFormed
  refine ⟨_, _, perform_runNode s id, ?_⟩
  have hfind : ∀ {found}, s.executor.controller? id = .ok found →
      s.executor.controllers.find? id = found := by
    intro found hc
    rw [hw.controller?_eq] at hc
    exact Except.ok.inj hc
  have hmissing : s.executor.outputs? id = none → s.executor.cache.get? id = none :=
    Option.map_eq_none_iff.mp
  refine { noLogic := ?_, unknown := ?_, cached := ?_, waiting := ?_, invoked := ?_ }
  · intro hl
    rw [runNode_finish_of_none id hl]
    exact ⟨rfl, rfl⟩
  · intro logic hl hc
    rw [runNode_finish id hl, runWith_untracked hw (hfind hc)]
    exact ⟨rfl, rfl⟩
  · intro logic c values hl hc hout
    obtain ⟨r, hr, rfl⟩ := Option.map_eq_some_iff.mp hout
    obtain ⟨history, heq⟩ := runWith_of_get? logic hcoh (hfind hc) hr
    rw [runNode_finish id hl, heq]
    exact ⟨rfl, history, rfl⟩
  · rintro logic c hl hc hout ⟨b, hb, hnone⟩
    have hdue : s.executor.due? id = none := by
      rw [Option.eq_none_iff_forall_ne_some]
      intro i hi
      obtain ⟨d, _, hd, _, _, havail, _⟩ := Executor.due?_eq_some.mp hi
      obtain rfl := Option.some.inj ((hfind hc).symm.trans hd)
      obtain ⟨v, hv⟩ := Controller.inputsAvailable_iff.mp havail b hb
      rw [hnone] at hv
      exact absurd hv (by simp)
    obtain ⟨history, heq⟩ := runWith_of_idle logic hcoh (hfind hc) (hmissing hout) hdue
    rw [runNode_finish id hl, heq]
    exact ⟨rfl, history, rfl⟩
  · intro logic c hl hc hout hinputs
    obtain ⟨i, hi⟩ :=
      hw.due?_isSome (hfind hc) (hmissing hout) (Controller.inputsAvailable_iff.mpr hinputs)
    obtain ⟨d, node, hd, hn, _, _, rfl⟩ := Executor.due?_eq_some.mp hi
    obtain rfl := Option.some.inj ((hfind hc).symm.trans hd)
    obtain ⟨history, heq⟩ := runWith_of_due logic hcoh (hfind hc) hi
    rw [runNode_finish id hl, heq]
    refine ⟨node, hn, rfl, rfl, history, ?_⟩
    -- the rows below are those of what the logic came to
    generalize ((logic node (Executor.gatherInputs s.executor.cache c.bindings)).finish s.host).2
      = outcome
    cases outcome with
    | failed message | panicked message => exact ⟨rfl, rfl⟩
    | returned values =>
      simp only [Outcome.verdict]
      cases errorMessage? values with
      | some message => exact ⟨rfl, rfl⟩
      | none =>
        refine ⟨rfl, rfl, ?_⟩
        show ((s.executor.cache.set id (.ofObject values)).get? id).map NodeResult.toObject = _
        rw [Cache.get?_set, if_pos rfl, Option.map_some, NodeResult.toObject_ofObject]

/-- A consumer that has run and been cleared is invoked again, on the result that its producer still has. -/
theorem runNode_table_sample :
    ∃ (s t : Session Unit) (node : NodeDescriptor) (values : Object),
      Session.start Sample.plan Sample.graph (some .echo) () = .ok s
      ∧ node.id = ⟨"c"⟩ ∧ values.get? "in" = some (.bool true)
      ∧ (s.performAll [.run, .clearNode ⟨"c"⟩]).1.perform (.runNode ⟨"c"⟩)
        = (t, .runNode (.ok (.invoked values)))
      ∧ t.journal = (s.performAll [.run, .clearNode ⟨"c"⟩]).1.journal
        ++ [.started node values, .ended ⟨"c"⟩ (.ok values)]
      ∧ t.executor.outputs? ⟨"c"⟩ = some values := by
  obtain ⟨s, c, node, values, hstart, hl, hc, hout, hinputs, hnode, hid, hgathered, hin, hecho, hclean⟩ :
      ∃ (s : Session Unit) (c : Controller) (node : NodeDescriptor) (values : Object),
        Session.start Sample.plan Sample.graph (some .echo) () = .ok s
        ∧ let e := (s.performAll [.run, .clearNode ⟨"c"⟩]).1.executor
          e.logic = some .echo ∧ e.controller? ⟨"c"⟩ = .ok (some c) ∧ e.outputs? ⟨"c"⟩ = none
          ∧ (∀ b ∈ c.bindings, ∃ v, e.cache.output? b.source b.output = some v)
          ∧ e.graph.find? ⟨"c"⟩ = some node ∧ node.id = ⟨"c"⟩
          ∧ Executor.gatherInputs e.cache c.bindings = values ∧ values.get? "in" = some (.bool true)
          ∧ node.echo values = values ∧ errorMessage? values = none := by
    refine ⟨_, _, _, _, (by rw [start, Executor.new, Plan.records_eq]; rfl), rfl, rfl, rfl, ?_, rfl, rfl, rfl,
      rfl, rfl, rfl⟩
    exact List.forall_mem_cons.mpr ⟨⟨_, rfl⟩, fun _ h => absurd h List.not_mem_nil⟩
  obtain ⟨t, answer, hperform, htable⟩ :=
    runNode_table ((Reachable.start hstart).performAll [.run, .clearNode ⟨"c"⟩]) ⟨"c"⟩
  obtain ⟨_, hfound, _, hjournal, _, hrow⟩ := htable.invoked _ c hl hc hout hinputs
  obtain rfl := Option.some.inj (hnode.symm.trans hfound)
  -- what the node gives back are its inputs, so that the row is that of an invocation without an error
  have hended (host : Unit) : ((Logic.echo node values).finish host).2 = .returned values :=
    congrArg Outcome.returned hecho
  rw [hgathered, hended] at hjournal hrow
  simp only [hclean] at hrow
  obtain ⟨rfl, _, hserved⟩ := hrow
  exact ⟨s, t, node, values, hstart, hid, hin, hperform, hjournal, hserved⟩

end Session

end StageFlow
