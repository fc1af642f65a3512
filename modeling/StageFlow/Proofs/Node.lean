import Mathlib.Data.List.Basic
import StageFlow.Proofs.Construction
import StageFlow.Proofs.SortedMap

/-!
# The run of one node

What `prepare` and `settle` do to an executor whose cache and controllers agree. Both write to the
controller of one node, and `settle` also to the cache; either is said once here, and nothing later opens
the definitions again.

## Contents
- **Outcomes.** What an invocation leaves behind, by what it amounts to.
- **Growing caches.** Inputs that are there stay as they are when results are added.
- **Coherence.** `Coherent e flight`: cache and controllers agree while the nodes of `flight` are running.
- **What is due.** `due?`, the invocation that a node is ready for.
- **Preparation.** `Coherent.prepare`, and that it keeps coherence.
- **Settlement.** `WellFormed.settle`, and that it keeps coherence.
-/

namespace StageFlow

/-! ## Outcomes -/

/-- The state in which an invocation leaves its node. -/
def NodeState.afterOutcome : Except ExecutorError Object → NodeState
  | .ok _ => .succeeded
  | .error _ => .failed

/-- A cache after an invocation has ended: only a result without failure is stored. -/
def Cache.absorb (cache : Cache) (id : NodeId) : Except ExecutorError Object → Cache
  | .ok values => cache.set id (.ofObject values)
  | .error _ => cache

theorem Cache.get?_absorb (cache : Cache) (id k : NodeId) (outcome : Except ExecutorError Object) :
    (cache.absorb id outcome).get? k
      = if k = id then
          match outcome with
          | .ok values => some (.ofObject values)
          | .error _ => cache.get? k
        else cache.get? k := by
  cases outcome with
  | ok values => exact Cache.get?_set cache id _ k
  | error err => exact (ite_self _).symm

/-! ## Growing caches -/

/-- All results of a cache are in another one too. -/
def Cache.Extends (cache' cache : Cache) : Prop :=
  ∀ id r, cache.get? id = some r → cache'.get? id = some r

theorem Cache.Extends.output? {cache cache' : Cache} (h : cache'.Extends cache) {id : NodeId}
    {output : String} {v : Value} (hv : cache.output? id output = some v) :
    cache'.output? id output = some v := by
  rw [Cache.output?, Option.bind_eq_some_iff] at hv ⊢
  obtain ⟨r, hr, hv⟩ := hv
  exact ⟨r, h id r hr, hv⟩

namespace Controller

variable {c : Controller} {cache cache' : Cache}

theorem inputsAvailable_iff : c.inputsAvailable cache = true
    ↔ ∀ b ∈ c.bindings, ∃ v, cache.output? b.source b.output = some v := by
  simp [inputsAvailable, Option.isSome_iff_exists]

theorem inputsAvailable_of_extends (h : cache'.Extends cache)
    (ha : c.inputsAvailable cache = true) : c.inputsAvailable cache' = true := by
  rw [inputsAvailable_iff] at ha ⊢
  intro b hb
  obtain ⟨v, hv⟩ := ha b hb
  exact ⟨v, h.output? hv⟩

/-- Inputs that are all there do not change when results are added. -/
theorem gatherInputs_of_extends (h : cache'.Extends cache)
    (ha : c.inputsAvailable cache = true) :
    Executor.gatherInputs cache' c.bindings = Executor.gatherInputs cache c.bindings := by
  rw [inputsAvailable_iff] at ha
  unfold Executor.gatherInputs
  apply List.foldl_ext
  intro inputs b hb
  obtain ⟨v, hv⟩ := ha b hb
  rw [hv, h.output? hv]

end Controller

namespace Executor

/-- What an invocation amounts to for whoever asked for it. -/
def NodeRun.ofOutcome : Except ExecutorError Object → Except Stop NodeRun
  | .ok values => .ok (.invoked values)
  | .error err => .error (.error err)

/-- An invocation has a result just if it returned an object that does not tell of a failure. -/
theorem judge_eq_ok {id : NodeId} {result : Except String Object} {values : Object} :
    judge id result = .ok values ↔ result = .ok values ∧ isError values = false := by
  cases result with
  | error message => simp [judge]
  | ok o =>
    rw [judge]
    cases hm : errorMessage? o with
    | none =>
      have herr := errorMessage?_eq_none_iff.mp hm
      simp only [Except.ok.injEq]
      constructor
      · rintro rfl
        exact ⟨rfl, herr⟩
      · exact fun h => h.1
    | some message =>
      have herr : isError o ≠ false := fun h => by
        rw [errorMessage?_eq_none_iff.mpr h] at hm
        exact absurd hm (by simp)
      simp only [Except.ok.injEq, reduceCtorEq, false_iff]
      rintro ⟨rfl, h⟩
      exact herr h

variable {σ : Type} {e e' : Executor σ} {flight flight' : List NodeId} {id : NodeId} {c : Controller}

/-! ## Coherence -/

/-- Cache and controllers agree. That a node has run is said twice, by an entry of the cache and by the
state of a controller; `flight` names the nodes that are running. -/
structure Coherent (e : Executor σ) (flight : List NodeId) : Prop where
  wellFormed : e.WellFormed
  flying : ∀ id, id ∈ flight ↔ ∃ c, e.controllers.find? id = some c ∧ c.state = .running
  notReady : ∀ id c, e.controllers.find? id = some c → c.state ≠ .ready
  stored : ∀ id, (∃ r, e.cache.get? id = some r)
    ↔ ∃ c, e.controllers.find? id = some c ∧ (c.state = .cached ∨ c.state = .succeeded)
  clean : ∀ id r, e.cache.get? id = some r → r.get? errorKey = none

/-- What is neither done nor running is waiting or has failed. -/
theorem Coherent.idle (h : e.Coherent flight) (hc : e.controllers.find? id = some c)
    (hrun : c.state ≠ .running) (hnone : e.cache.get? id = none) :
    c.state = .waiting ∨ c.state = .failed := by
  have hdone : ¬ (c.state = .cached ∨ c.state = .succeeded) := by
    intro hs
    obtain ⟨r, hr⟩ := (h.stored id).mpr ⟨c, hc, hs⟩
    rw [hnone] at hr
    exact absurd hr (by simp)
  have hready := h.notReady id c hc
  cases hs : c.state with
  | waiting => exact Or.inl rfl
  | failed => exact Or.inr rfl
  | ready => exact absurd hs hready
  | running => exact absurd hs hrun
  | cached => exact absurd (Or.inl hs) hdone
  | succeeded => exact absurd (Or.inr hs) hdone

/-- While no node is in flight, none is running. -/
theorem Coherent.ne_running (h : e.Coherent []) (hc : e.controllers.find? id = some c) :
    c.state ≠ .running :=
  fun hrun => absurd ((h.flying id).mpr ⟨c, hc, hrun⟩) List.not_mem_nil

/-- A node in flight has no result. -/
theorem Coherent.get?_eq_none_of_mem (h : e.Coherent flight) (hid : id ∈ flight) :
    e.cache.get? id = none := by
  obtain ⟨c, hc, hrun⟩ := (h.flying id).mp hid
  rw [Option.eq_none_iff_forall_ne_some]
  intro r hr
  obtain ⟨c', hc', hs⟩ := (h.stored id).mp ⟨r, hr⟩
  rw [hc] at hc'
  rw [← Option.some.inj hc', hrun] at hs
  rcases hs with hs | hs <;> exact NodeState.noConfusion hs

/-! ## What is due -/

/-- The invocation that a node is ready for: one without a result, all of whose inputs are there. -/
def due? (e : Executor σ) (id : NodeId) : Option Invocation :=
  match e.controllers.find? id, e.graph.find? id with
  | some c, some node =>
    if !e.cache.has id && c.inputsAvailable e.cache then
      some ⟨id, node, gatherInputs e.cache c.bindings⟩
    else none
  | _, _ => none

theorem due?_eq_some {i : Invocation} :
    e.due? id = some i ↔ ∃ c node, e.controllers.find? id = some c ∧ e.graph.find? id = some node
      ∧ e.cache.get? id = none ∧ c.inputsAvailable e.cache = true
      ∧ i = ⟨id, node, gatherInputs e.cache c.bindings⟩ := by
  unfold due?
  split
  · rename_i c node hc hn
    rw [Option.ite_none_right_eq_some, Bool.and_eq_true, Bool.not_eq_true', Cache.has_eq_false_iff]
    constructor
    · rintro ⟨⟨hnone, havail⟩, hi⟩
      exact ⟨c, node, hc, hn, hnone, havail, (Option.some.inj hi).symm⟩
    · rintro ⟨c', node', hc', hn', hnone, havail, rfl⟩
      obtain rfl := Option.some.inj (hc.symm.trans hc')
      obtain rfl := Option.some.inj (hn.symm.trans hn')
      exact ⟨⟨hnone, havail⟩, rfl⟩
  · rename_i hno
    constructor
    · intro h
      exact absurd h (by simp)
    · rintro ⟨c, node, hc, hn, _⟩
      exact absurd hn (hno c node hc)

theorem id_of_due? {i : Invocation} (h : e.due? id = some i) : i.id = id := by
  obtain ⟨_, _, _, _, _, _, rfl⟩ := due?_eq_some.mp h
  rfl

/-- A node with a result is not due. -/
theorem due?_eq_none_of_get? {r : NodeResult} (h : e.cache.get? id = some r) : e.due? id = none := by
  rw [Option.eq_none_iff_forall_ne_some]
  intro i hi
  obtain ⟨_, _, _, _, hnone, _⟩ := due?_eq_some.mp hi
  rw [h] at hnone
  exact absurd hnone (by simp)

/-- A node whose inputs are there is due, unless it has a result. -/
theorem WellFormed.due?_isSome (hw : e.WellFormed) (hc : e.controllers.find? id = some c)
    (hnone : e.cache.get? id = none) (havail : c.inputsAvailable e.cache = true) :
    ∃ i, e.due? id = some i := by
  obtain ⟨node, hn⟩ := hw.describe hc
  exact ⟨_, due?_eq_some.mpr ⟨c, node, hc, hn, hnone, havail, rfl⟩⟩

/-! ## Preparation -/

/-- The state of a node after it has been prepared. -/
def preparedState (e : Executor σ) (c : Controller) : NodeState :=
  if c.state = .running then .running
  else if e.cache.has c.id then .cached
  else if c.inputsAvailable e.cache then .running
  else c.state

/-- What preparation says of a node: nothing is done with one in flight or with one that has a result. -/
def verdict (e : Executor σ) (c : Controller) : Prepared :=
  if c.state = .running then .waiting
  else
    match e.cache.get? c.id, e.due? c.id with
    | some r, _ => .cached r.toObject
    | none, some i => .ready i
    | none, none => .waiting

/-- The steps of a node's life that preparing it takes: none while it is in flight, and two if it is to be
invoked. -/
def preparation (e : Executor σ) (c : Controller) : List Transition :=
  if c.state = .running then []
  else if e.cache.has c.id then [⟨c.id, .assess, c.state, .cached⟩]
  else if c.inputsAvailable e.cache then
    [⟨c.id, .assess, c.state, .ready⟩, ⟨c.id, .start, .ready, .running⟩]
  else [⟨c.id, .assess, c.state, c.state⟩]

/-- The outcome of a preparation: the state of one controller is set. -/
structure PreparedTo (e : Executor σ) (c : Controller) (e' : Executor σ) : Prop where
  frame : e'.frame = e.frame
  cache : e'.cache = e.cache
  find? : ∀ k, e'.controllers.find? k
    = if k = c.id then some { c with state := e.preparedState c } else e.controllers.find? k
  history : e'.history = e.history ++ e.preparation c

/-- One step of a node's life, as seen through searches. -/
theorem WellFormed.advance (hw : e.WellFormed) (hc : e.controllers.find? id = some c)
    (step : Transition.Step) (state : NodeState) :
    (e.advance step id c { c with state }).frame = e.frame
      ∧ (e.advance step id c { c with state }).cache = e.cache
      ∧ ∀ k, (e.advance step id c { c with state }).controllers.find? k
          = if k = id then some { c with state } else e.controllers.find? k := by
  have hid : c.id = id := id_of_find? hc
  subst hid
  rw [advance_eq hw hc { c with state } rfl]
  refine ⟨frame_replace hw { c with state } hc rfl _ _, rfl, ?_⟩
  intro k
  show (e.controllers.replace { c with state }).find? k = _
  rw [KeyedVec.find?_replace]
  by_cases hk : k = c.id
  · have hkey : k = Keyed.key { c with state } := hk
    rw [if_pos hkey, if_pos hk, hk, hc]
    rfl
  · have hkey : ¬ k = Keyed.key { c with state } := hk
    rw [if_neg hkey, if_neg hk]

/-- One step of a node's life is one line of history. -/
theorem WellFormed.history_advance (hw : e.WellFormed) (hc : e.controllers.find? id = some c)
    (step : Transition.Step) (state : NodeState) :
    (e.advance step id c { c with state }).history = e.history ++ [⟨id, step, c.state, state⟩] := by
  have hid : c.id = id := id_of_find? hc
  rw [advance_eq hw hc { c with state } hid]

/-- **What preparing a node does.** -/
theorem Coherent.prepare (h : e.Coherent flight) (hc : e.controllers.find? id = some c) :
    ∃ e', e.prepare id = (e', .ok (e.verdict c)) ∧ e.PreparedTo c e' := by
  have hw := h.wellFormed
  have hid : c.id = id := id_of_find? hc
  subst hid
  unfold Executor.prepare
  rw [hw.indexed.get?_eq, hc]
  by_cases hrun : c.state = .running
  · -- in flight
    refine ⟨e, ?_, rfl, rfl, ?_, ?_⟩
    · simp only [verdict, if_pos hrun]
    · intro k
      unfold preparedState
      rw [if_pos hrun, ← hrun]
      split
      · rename_i hk
        rw [hk, hc]
      · rfl
    · rw [preparation, if_pos hrun, List.append_nil]
  simp only [if_neg hrun]
  cases hr : e.cache.get? c.id with
  | some r =>
    have hhas : e.cache.has c.id = true := Cache.has_iff.mpr ⟨r, hr⟩
    obtain ⟨hf, hca, hfind⟩ := hw.advance hc .assess .cached
    have hbefore : c.beforeInvoking e.cache = { c with state := .cached } := by
      unfold Controller.beforeInvoking
      rw [if_pos hhas]
    have hstate : e.preparedState c = .cached := by
      unfold preparedState
      rw [if_neg hrun, if_pos hhas]
    refine ⟨_, ?_, hf, hca, fun k => by rw [hstate]; exact hfind k, ?_⟩
    · simp only [hbefore, verdict, if_neg hrun, hca, hr, Option.map_some, Option.getD_some]
    · rw [preparation, if_neg hrun, if_pos hhas, hw.history_advance hc]
  | none =>
    have hhas : ¬ e.cache.has c.id = true := by simpa using Cache.has_eq_false_iff.mpr hr
    by_cases havail : c.inputsAvailable e.cache = true
    · obtain ⟨node, hn⟩ := hw.describe hc
      obtain ⟨p, hp, hnode⟩ := Graph.getElem?_position hn
      obtain ⟨hf, hca, hfind⟩ := hw.advance hc .assess .ready
      have hbefore : c.beforeInvoking e.cache = { c with state := .ready } := by
        unfold Controller.beforeInvoking
        rw [if_neg hhas, if_pos havail]
      have hstate : e.preparedState c = .running := by
        unfold preparedState
        rw [if_neg hrun, if_neg hhas, if_pos havail]
      have hdue : e.due? c.id = some ⟨c.id, node, gatherInputs e.cache c.bindings⟩ :=
        due?_eq_some.mpr ⟨c, node, hc, hn, hr, havail, rfl⟩
      -- the second step starts from the executor that the first one leaves
      have hready := hfind c.id
      rw [if_pos rfl] at hready
      obtain ⟨hf', hca', hfind'⟩ := (hw.of_frame hf).advance hready .start .running
      refine ⟨_, ?_, hf'.trans hf, hca'.trans hca, ?_, ?_⟩
      · simp only [hbefore, positions_of_frame hf, hw.positions, hp, graph_of_frame hf, hnode,
          Controller.startRunning, if_true, hca, verdict, if_neg hrun, hr, hdue]
      · intro k
        rw [hstate, hfind' k, hfind k]
        split <;> rfl
      · rw [preparation, if_neg hrun, if_neg hhas, if_pos havail,
          (hw.of_frame hf).history_advance hready, hw.history_advance hc, List.append_assoc]
        rfl
    · obtain ⟨hf, hca, hfind⟩ := hw.advance hc .assess c.state
      have hbefore : c.beforeInvoking e.cache = c := by
        unfold Controller.beforeInvoking
        rw [if_neg hhas, if_neg havail]
      have hstate : e.preparedState c = c.state := by
        unfold preparedState
        rw [if_neg hrun, if_neg hhas, if_neg havail]
      have hdue : e.due? c.id = none := by
        rw [Option.eq_none_iff_forall_ne_some]
        intro i hi
        obtain ⟨c', _, hc', _, _, havail', _⟩ := due?_eq_some.mp hi
        rw [hc] at hc'
        exact havail (Option.some.inj hc' ▸ havail')
      refine ⟨e.advance .assess c.id c c, ?_, hf, hca, fun k => by rw [hstate]; exact hfind k, ?_⟩
      · simp only [hbefore, verdict, if_neg hrun, hr, hdue]
        rcases h.idle hc hrun hr with hs | hs <;> simp only [hs]
      · rw [preparation, if_neg hrun, if_neg hhas, if_neg havail]
        exact hw.history_advance hc .assess c.state

/-- The invocations that a preparation gives rise to: one or none. -/
def Prepared.launched : Prepared → List Invocation
  | .ready i => [i]
  | _ => []

/-- The four ways in which a node can be found when it is prepared. -/
inductive Assessment (e : Executor σ) (c : Controller) : Prop
  | inFlight (run : c.state = .running) (missing : e.cache.get? c.id = none)
      (verdict : e.verdict c = .waiting) (state : e.preparedState c = .running)
  | done (r : NodeResult) (run : c.state ≠ .running) (stored : e.cache.get? c.id = some r)
      (verdict : e.verdict c = .cached r.toObject) (state : e.preparedState c = .cached)
  | due (i : Invocation) (run : c.state ≠ .running) (due : e.due? c.id = some i)
      (verdict : e.verdict c = .ready i) (state : e.preparedState c = .running)
  | idle (rest : c.state = .waiting ∨ c.state = .failed) (missing : e.cache.get? c.id = none)
      (due : e.due? c.id = none) (verdict : e.verdict c = .waiting)
      (state : e.preparedState c = c.state)

/-- A node of a coherent executor is found in one of the four ways. -/
theorem Coherent.assess (h : e.Coherent flight) (hc : e.controllers.find? id = some c) :
    e.Assessment c := by
  have hid : c.id = id := id_of_find? hc
  subst hid
  by_cases hrun : c.state = .running
  · have hnone := h.get?_eq_none_of_mem ((h.flying c.id).mpr ⟨c, hc, hrun⟩)
    exact .inFlight hrun hnone (by rw [verdict, if_pos hrun]) (by rw [preparedState, if_pos hrun])
  cases hr : e.cache.get? c.id with
  | some r =>
    have hhas : e.cache.has c.id = true := Cache.has_iff.mpr ⟨r, hr⟩
    exact .done r hrun hr (by simp only [verdict, if_neg hrun, hr])
      (by rw [preparedState, if_neg hrun, if_pos hhas])
  | none =>
    have hhas : ¬ e.cache.has c.id = true := by simpa using Cache.has_eq_false_iff.mpr hr
    cases hd : e.due? c.id with
    | some i =>
      obtain ⟨c', _, hc', _, _, havail, _⟩ := due?_eq_some.mp hd
      obtain rfl := Option.some.inj (hc.symm.trans hc')
      exact .due i hrun hd (by simp only [verdict, if_neg hrun, hr, hd])
        (by rw [preparedState, if_neg hrun, if_neg hhas, if_pos havail])
    | none =>
      have havail : ¬ c.inputsAvailable e.cache = true := by
        intro havail
        obtain ⟨i, hi⟩ := h.wellFormed.due?_isSome hc hr havail
        rw [hd] at hi
        exact absurd hi (by simp)
      exact .idle (h.idle hc hrun hr) hr hd (by simp only [verdict, if_neg hrun, hr, hd])
        (by rw [preparedState, if_neg hrun, if_neg hhas, if_neg havail])

/-- A node is launched only if it is due and not in flight. -/
theorem mem_launched {i : Invocation} (h : i ∈ (e.verdict c).launched) :
    c.state ≠ .running ∧ e.due? c.id = some i := by
  unfold verdict at h
  split at h
  · exact absurd h List.not_mem_nil
  · rename_i hrun
    split at h
    · exact absurd h List.not_mem_nil
    · rename_i j _ hj
      rw [List.mem_singleton.mp h]
      exact ⟨hrun, hj⟩
    · exact absurd h List.not_mem_nil

theorem PreparedTo.exists_find?_iff (hp : e.PreparedTo c e') (P : Controller → Prop) (k : NodeId) :
    (∃ d, e'.controllers.find? k = some d ∧ P d)
      ↔ if k = c.id then P { c with state := e.preparedState c }
        else ∃ d, e.controllers.find? k = some d ∧ P d := by
  rw [hp.find? k]
  split
  · simp
  · rfl

/-- What the state says of a node after it has been prepared: whether it is in flight, and whether it has a
result. -/
theorem Coherent.preparedState_iff (h : e.Coherent flight) (hc : e.controllers.find? id = some c) :
    (e.preparedState c = .running
        ↔ c.id ∈ flight ∨ c.id ∈ (e.verdict c).launched.map Invocation.id)
      ∧ e.preparedState c ≠ .ready
      ∧ ((∃ r, e.cache.get? c.id = some r)
        ↔ e.preparedState c = .cached ∨ e.preparedState c = .succeeded) := by
  obtain rfl : c.id = id := id_of_find? hc
  have hfly : c.id ∈ flight ↔ c.state = .running := by
    rw [h.flying, hc]
    simp
  rw [hfly]
  cases h.assess hc with
  | inFlight hrun hnone hv hs => simp [hv, hs, hrun, hnone]
  | done r hrun hr hv hs => simp [hv, hs, hrun, hr, Prepared.launched]
  | due i hrun hi hv hs =>
    obtain ⟨_, _, _, _, hnone, _⟩ := due?_eq_some.mp hi
    simp [hv, hs, hnone, Prepared.launched, id_of_due? hi]
  | idle hrest hnone _ hv hs =>
    rw [hv, hs, hnone]
    rcases hrest with hrest | hrest
    · simp [hrest, Prepared.launched]
    · simp [hrest, Prepared.launched]

/-- **Preparing a node keeps the executor coherent;** a node that is launched is in flight from then on. -/
theorem Coherent.prepared (h : e.Coherent flight) (hc : e.controllers.find? id = some c)
    (hp : e.PreparedTo c e') :
    e'.Coherent (flight ++ (e.verdict c).launched.map Invocation.id) := by
  obtain ⟨hrunning, hready, hstored⟩ := h.preparedState_iff hc
  refine ⟨h.wellFormed.of_frame hp.frame, ?_, ?_, ?_, ?_⟩
  · intro k
    rw [hp.exists_find?_iff, List.mem_append]
    split
    · rename_i hk
      rw [hk]
      exact hrunning.symm
    · rename_i hk
      rw [h.flying]
      apply or_iff_left
      -- only the node that is prepared can be launched
      intro hm
      obtain ⟨i, hi, rfl⟩ := List.mem_map.mp hm
      exact hk (id_of_due? (mem_launched hi).2)
  · intro k d hd
    rw [hp.find? k] at hd
    split at hd
    · rw [← Option.some.inj hd]
      exact hready
    · exact h.notReady k d hd
  · intro k
    rw [hp.exists_find?_iff, hp.cache]
    split
    · rename_i hk
      rw [hk]
      exact hstored
    · exact h.stored k
  · intro k r hr
    rw [hp.cache] at hr
    exact h.clean k r hr

/-! ## Settlement -/

/-- The outcome of a settlement: the state of one controller and at most one entry of the cache are set. -/
structure SettledTo (e : Executor σ) (c : Controller) (outcome : Except ExecutorError Object)
    (e' : Executor σ) : Prop where
  frame : e'.frame = e.frame
  cache : e'.cache = e.cache.absorb c.id outcome
  find? : ∀ k, e'.controllers.find? k
    = if k = c.id then some { c with state := NodeState.afterOutcome outcome } else e.controllers.find? k
  history : e'.history = e.history ++ [⟨c.id, .settle, c.state, .afterOutcome outcome⟩]

/-- **What settling a node does.** -/
theorem WellFormed.settle (hw : e.WellFormed) (hc : e.controllers.find? id = some c)
    (result : Except String Object) :
    ∃ e', e.settle id result = (e', NodeRun.ofOutcome (judge id result))
      ∧ e.SettledTo c (judge id result) e' := by
  have hid : c.id = id := id_of_find? hc
  subst hid
  unfold Executor.settle
  rw [hw.indexed.get?_eq, hc]
  cases hj : judge c.id result with
  | ok values =>
    obtain ⟨hf, hca, hfind⟩ := hw.advance hc .settle .succeeded
    let next := e.advance .settle c.id c (c.afterInvoking false)
    refine ⟨{ next with cache := next.cache.set c.id (.ofObject values) }, rfl, hf, ?_, hfind, ?_⟩
    · exact congrArg (fun cache : Cache => cache.set c.id (.ofObject values)) hca
    · exact hw.history_advance hc .settle .succeeded
  | error err =>
    obtain ⟨hf, hca, hfind⟩ := hw.advance hc .settle .failed
    exact ⟨_, rfl, hf, hca, hfind, hw.history_advance hc .settle .failed⟩

/-- **Settling a node in flight keeps the executor coherent;** the node is in flight no more. -/
theorem Coherent.settled (h : e.Coherent flight) (hc : e.controllers.find? id = some c)
    (hrun : c.state = .running) {result : Except String Object}
    (hs : e.SettledTo c (judge id result) e') (hf : ∀ k, k ∈ flight' ↔ k ∈ flight ∧ k ≠ id) :
    e'.Coherent flight' := by
  have hid : c.id = id := id_of_find? hc
  subst hid
  -- the node was in flight, so that no earlier result of it is left
  have hnone := h.get?_eq_none_of_mem ((h.flying c.id).mpr ⟨c, hc, hrun⟩)
  refine ⟨h.wellFormed.of_frame hs.frame, ?_, ?_, ?_, ?_⟩
  · intro k
    rw [hf, h.flying, hs.find?]
    by_cases hk : k = c.id
    · cases hj : judge c.id result <;> simp [hk, NodeState.afterOutcome]
    · simp [hk]
  · intro k d hd
    rw [hs.find?] at hd
    split at hd
    · rw [← Option.some.inj hd]
      cases hj : judge c.id result <;> simp [NodeState.afterOutcome]
    · exact h.notReady k d hd
  · intro k
    rw [hs.find?, hs.cache, Cache.get?_absorb]
    by_cases hk : k = c.id
    · cases hj : judge c.id result <;> simp [hk, NodeState.afterOutcome, hnone]
    · rw [if_neg hk, if_neg hk]
      exact h.stored k
  · intro k r hr
    rw [hs.cache, Cache.get?_absorb] at hr
    split at hr
    · rename_i hk
      cases hj : judge c.id result with
      | ok values =>
        rw [hj] at hr
        rw [← Option.some.inj hr, NodeResult.get?_ofObject]
        simpa [isError, SortedMap.contains] using (judge_eq_ok.mp hj).2
      | error err =>
        rw [hj] at hr
        exact h.clean k r hr
    · exact h.clean k r hr

end Executor

end StageFlow
