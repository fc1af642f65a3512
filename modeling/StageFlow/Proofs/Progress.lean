import StageFlow.Proofs.Calls

/-!
# Progress

What has been run stays run. A run, of a plan or of one node, adds results and takes none away, and no node
goes back to waiting on its way, not even one that has failed and is tried again. Only clearing undoes
anything, and it undoes the nodes it names.

## Contents
- **Waiting.** A step never makes a node wait that had stopped waiting.
- **Continuation.** `Executor.Continues`: results, settled nodes and their number. Steps lead from an
  executor to one that continues it.
- **Results that stay.** `Call.spares`, and the entry of a node after calls that spare it.
- **Runs.** `runs_only_add`.
-/

namespace StageFlow

open Executor (Invocation NodeRun judge)

/-! ## Waiting -/

namespace Executor

variable {σ : Type} {e e' : Executor σ} {id : NodeId} {c : Controller}

/-- Preparing a node does not make it wait. -/
theorem preparedState_ne_waiting (h : c.state ≠ .waiting) : e.preparedState c ≠ .waiting := by
  unfold preparedState
  split
  · simp
  · split
    · simp
    · split
      · simp
      · exact h

theorem PreparedTo.not_waiting (hp : e.PreparedTo c e') (hc : e.controllers.find? c.id = some c)
    {k : NodeId} {d : Controller} (hd : e.controllers.find? k = some d) (hw : d.state ≠ .waiting) :
    ∃ d', e'.controllers.find? k = some d' ∧ d'.state ≠ .waiting := by
  rw [hp.exists_find?_iff fun d => d.state ≠ .waiting]
  split
  · rename_i hk
    rw [hk, hc] at hd
    exact preparedState_ne_waiting (Option.some.inj hd ▸ hw)
  · exact ⟨d, hd, hw⟩

/-- A node that is settled has succeeded or failed, and the others are as before. -/
theorem SettledTo.not_waiting {outcome : Except ExecutorError Object} (hs : e.SettledTo c outcome e')
    {k : NodeId} {d : Controller} (hd : e.controllers.find? k = some d) (hw : d.state ≠ .waiting) :
    ∃ d', e'.controllers.find? k = some d' ∧ d'.state ≠ .waiting := by
  rw [hs.find? k]
  split
  · refine ⟨_, rfl, ?_⟩
    cases outcome <;> simp [NodeState.afterOutcome]
  · exact ⟨d, hd, hw⟩

/-- Between runs a node is settled just if it is not waiting. -/
theorem Coherent.isSettled_iff (h : e.Coherent []) (hc : e.controllers.find? id = some c) :
    c.state.isSettled = true ↔ c.state ≠ .waiting := by
  have hready := h.notReady id c hc
  have hrun := h.ne_running hc
  cases hs : c.state <;> simp_all [NodeState.isSettled]

end Executor

namespace Session

variable {σ : Type} {m m' : Moment σ} {id : NodeId} {c : Controller}

/-- A step does not make a node wait. -/
theorem Step.not_waiting (h : Step m m') (hc : m.session.executor.controllers.find? id = some c)
    (hw : c.state ≠ .waiting) :
    ∃ c', m'.session.executor.controllers.find? id = some c' ∧ c'.state ≠ .waiting := by
  cases h with
  | prepare hd hp =>
    rw [← Executor.id_of_find? hd] at hd
    exact hp.not_waiting hd hc hw
  | act host => exact ⟨c, hc, hw⟩
  | settle hd hs => exact hs.not_waiting hc hw

/-- **No run makes a node wait** that had stopped waiting. -/
theorem Steps.not_waiting (h : Steps m m') (hc : m.session.executor.controllers.find? id = some c)
    (hw : c.state ≠ .waiting) :
    ∃ c', m'.session.executor.controllers.find? id = some c' ∧ c'.state ≠ .waiting := by
  induction h with
  | refl => exact ⟨c, hc, hw⟩
  | tail _ hlast ih =>
    obtain ⟨d, hd, hwd⟩ := ih
    exact hlast.not_waiting hd hwd

end Session

/-! ## Continuation -/

namespace Executor

variable {σ : Type}

/-- How many nodes are settled. -/
def settledCount (e : Executor σ) : Nat := e.controllers.items.countP (·.state.isSettled)

/-- An executor has come at least as far as another one. -/
structure Continues (e' e : Executor σ) : Prop where
  results : e'.cache.Extends e.cache
  settled : ∀ id c, e.controller? id = .ok (some c) → c.state.isSettled = true →
    ∃ c', e'.controller? id = .ok (some c') ∧ c'.state.isSettled = true
  count : e.settledCount ≤ e'.settledCount
  started : ∀ id c, e.controller? id = .ok (some c) → c.state ≠ .waiting →
    ∃ c', e'.controller? id = .ok (some c') ∧ c'.state ≠ .waiting

/-- The number of settled nodes is that of the identifiers whose nodes are settled. -/
theorem WellFormed.settledCount_eq {e : Executor σ} (hw : e.WellFormed) :
    e.settledCount
      = e.controllers.keys.countP fun id => (e.controllers.find? id).any (·.state.isSettled) :=
  hw.indexed.countP_items _

end Executor

namespace Session

variable {σ : Type} {s s' : Session σ}

/-- **Steps lead on.** What was settled between two runs is settled after the second. -/
theorem Steps.continues (h : Steps ⟨[], s⟩ ⟨[], s'⟩) (hs : s.executor.Coherent []) :
    s'.executor.Continues s.executor := by
  have hs' : s'.executor.Coherent [] := (h.sound (moment_sound hs)).coherent
  have hw := hs.wellFormed
  have hw' := hs'.wellFormed
  have hstarted : ∀ id c, s.executor.controllers.find? id = some c → c.state ≠ .waiting →
      ∃ c', s'.executor.controllers.find? id = some c' ∧ c'.state ≠ .waiting := by
    intro id c hc hwait
    exact h.not_waiting hc hwait
  have hsettled : ∀ id c, s.executor.controllers.find? id = some c → c.state.isSettled = true →
      ∃ c', s'.executor.controllers.find? id = some c' ∧ c'.state.isSettled = true := by
    intro id c hc hset
    obtain ⟨c', hc', hwait'⟩ := hstarted id c hc ((hs.isSettled_iff hc).mp hset)
    exact ⟨c', hc', (hs'.isSettled_iff hc').mpr hwait'⟩
  refine ⟨h.extends (moment_sound hs), ?_, ?_, ?_⟩
  · simpa only [hw.controller?_eq, hw'.controller?_eq, Except.ok.injEq] using hsettled
  · rw [hw.settledCount_eq, hw'.settledCount_eq, Executor.keys_of_frame h.frame]
    apply List.countP_mono_left
    intro id _ hany
    cases hc : s.executor.controllers.find? id with
    | none =>
      rw [hc] at hany
      exact absurd hany (by simp)
    | some c =>
      rw [hc, Option.any_some] at hany
      obtain ⟨c', hc', hset'⟩ := hsettled id c hc hany
      rw [hc', Option.any_some]
      exact hset'
  · simpa only [hw.controller?_eq, hw'.controller?_eq, Except.ok.injEq] using hstarted

end Session

/-! ## Results that stay -/

/-- Does the call leave the result of a node alone? -/
def Call.Spares (id : NodeId) : Call → Prop
  | .clear => False
  | .clearNode k => k ≠ id
  | .run | .runNode _ | .withOptions _ => True

namespace Session

variable {σ : Type} {s s₁ : Session σ} {id : NodeId} {r : NodeResult} {v : Object}

theorem perform_get?_of_spares (hs : s.executor.Coherent []) {call : Call} (hsp : call.Spares id)
    (hr : s.executor.cache.get? id = some r) : (s.perform call).1.executor.cache.get? id = some r := by
  cases call with
  | run => exact ((perform_run_steps hs).extends (moment_sound hs)) id r hr
  | runNode k => exact ((perform_runNode_steps hs k).extends (moment_sound hs)) id r hr
  | clear => exact absurd hsp (by simp [Call.Spares])
  | clearNode k =>
    have hne : id ≠ k := fun h => hsp h.symm
    obtain ⟨e', he, hcleared⟩ := hs.clearNode_eq k
    rw [perform_clearNode he]
    show e'.cache.get? id = some r
    rw [hcleared.cache, Cache.get?_erase, if_neg hne, hr]
  | withOptions options => exact hr

/-- An entry is kept by calls that spare it. -/
theorem performAll_get?_of_spares (hs : s.executor.Coherent []) {calls : List Call}
    (hsp : ∀ call ∈ calls, call.Spares id) (hr : s.executor.cache.get? id = some r) :
    (s.performAll calls).1.executor.cache.get? id = some r := by
  induction calls generalizing s with
  | nil => exact hr
  | cons call calls ih =>
    apply ih (perform_coherent hs call)
    · intro k hk
      exact hsp k (List.mem_cons_of_mem call hk)
    · exact perform_get?_of_spares hs (hsp call List.mem_cons_self) hr

/-- Only an ending without failure is answered as an invocation. -/
theorem nodeAnswer_eq_invoked {e : Executor σ} {batch : List Ending}
    (h : nodeAnswer e id batch = .ok (.invoked v)) : ∃ x ∈ batch, x.outcome = .ok v := by
  unfold nodeAnswer at h
  split at h
  · simp at h
  · rename_i x xs _
    refine ⟨x, List.mem_cons_self, ?_⟩
    cases hx : x.outcome with
    | ok values =>
      rw [hx] at h
      simpa [NodeRun.ofOutcome] using h
    | error err =>
      rw [hx] at h
      simp [NodeRun.ofOutcome] at h
  · simp at h

/-- A node that has just been invoked was handed to a logic, and has the object as its result. -/
theorem get?_of_invoked (hs : s.executor.Coherent [])
    (h : s.perform (.runNode id) = (s₁, .runNode (.ok (.invoked v)))) :
    (∃ logic, s.executor.logic = some logic) ∧ s₁.executor.cache.get? id = some (.ofObject v) := by
  have hanswer := runNode_finish_of_perform h
  rcases runNode_cases id (moment_sound hs) with
    ⟨_, heq⟩ | ⟨_, _, _, heq⟩ | ⟨logic, s', batch, hl, heq, hserved, _⟩
  · rw [heq] at hanswer
    exact absurd (Prod.mk.inj hanswer).2 (by simp)
  · rw [heq] at hanswer
    exact absurd (Prod.mk.inj hanswer).2 (by simp)
  · obtain ⟨rfl, hnode⟩ := Prod.mk.inj (heq.symm.trans hanswer)
    obtain ⟨x, hx, hout⟩ := nodeAnswer_eq_invoked hnode
    obtain ⟨hget, _⟩ := hserved.of_mem hx
    have hid : x.1.id = id := List.mem_singleton.mp (hserved.due_of_mem hx).1
    refine ⟨⟨logic, hl⟩, ?_⟩
    rw [← hid, hget, Ending.entry?, hout]

/-- A node with a result answers with it. -/
theorem runNode_of_get? (hs : s.executor.Coherent []) (hl : ∃ logic, s.executor.logic = some logic)
    (hr : s.executor.cache.get? id = some r) :
    (s.perform (.runNode id)).2 = .runNode (.ok (.cached r.toObject)) := by
  obtain ⟨logic, hl⟩ := hl
  obtain ⟨c, hc, _⟩ := (hs.stored id).mp ⟨r, hr⟩
  obtain ⟨s', batch, heq, _⟩ := runWith_eq logic.yields_trivial (moment_sound hs) hc
  rw [perform_runNode, runNode_finish id hl, heq]
  simp only [nodeAnswer, hr]

/-! ## Runs -/

/-- **Runs only add.** Whatever a run answers, all results are kept, what was settled is settled, and what
was not waiting does not wait. So the object that an invocation of a node gave is what the node answers with
as long as it is not cleared itself. -/
theorem runs_only_add (hs : Reachable s) :
    (s.perform .run).1.executor.Continues s.executor
      ∧ (∀ id, (s.perform (.runNode id)).1.executor.Continues s.executor)
      ∧ ∀ id s₁ v, s.perform (.runNode id) = (s₁, .runNode (.ok (.invoked v))) →
          ∀ calls : List Call, (∀ call ∈ calls, call.Spares id) →
            (s₁.performAll calls).1.executor.outputs? id = some v
              ∧ ((s₁.performAll calls).1.perform (.runNode id)).2 = .runNode (.ok (.cached v)) := by
  refine ⟨(perform_run_steps hs.coherent).continues hs.coherent, ?_, ?_⟩
  · intro id
    exact (perform_runNode_steps hs.coherent id).continues hs.coherent
  · intro id s₁ v h calls hsp
    obtain ⟨⟨logic, hl⟩, hget⟩ := get?_of_invoked hs.coherent h
    have hreach := hs.of_perform h
    have hl₁ : s₁.executor.logic = some logic := by
      have hcall := performAll_logic hs.coherent [.runNode id]
      rw [performAll, h] at hcall
      exact hcall.trans hl
    have hkept := performAll_get?_of_spares hreach.coherent hsp hget
    constructor
    · unfold Executor.outputs?
      rw [hkept, Option.map_some, NodeResult.toObject_ofObject]
    · have hlogic := (performAll_logic hreach.coherent calls).trans hl₁
      rw [runNode_of_get? (hreach.performAll calls).coherent ⟨logic, hlogic⟩ hkept,
        NodeResult.toObject_ofObject]

/-- The producer answers with what it gave at first, after its consumer has been run and cleared. -/
theorem runs_only_add_sample :
    ∃ s s₁ t : Session Unit, Reachable s
      ∧ ∃ v, s.perform (.runNode ⟨"a"⟩) = (s₁, .runNode (.ok (.invoked v)))
        ∧ (s₁.performAll [.run, .clearNode ⟨"c"⟩]).1 = t
        ∧ t.executor.outputs? ⟨"a"⟩ = some v
        ∧ (t.perform (.runNode ⟨"a"⟩)).2 = .runNode (.ok (.cached v)) := by
  obtain ⟨s, s₁, v, hstart, hrun⟩ : ∃ (s s₁ : Session Unit) (v : Object),
      Session.start Sample.plan Sample.graph (some .echo) () = .ok s
      ∧ s.perform (.runNode ⟨"a"⟩) = (s₁, .runNode (.ok (.invoked v))) :=
    ⟨_, _, _, (by rw [start, Executor.new, Plan.records_eq]; rfl), rfl⟩
  have hspared : ∀ call ∈ [Call.run, Call.clearNode ⟨"c"⟩], call.Spares ⟨"a"⟩ := by
    simp [Call.Spares]
  obtain ⟨_, _, hkept⟩ := runs_only_add (Reachable.start hstart)
  obtain ⟨houtputs, hreply⟩ := hkept ⟨"a"⟩ s₁ v hrun _ hspared
  exact ⟨s, s₁, _, Reachable.start hstart, v, hrun, rfl, houtputs, hreply⟩

end Session

end StageFlow
