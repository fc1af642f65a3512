import StageFlow.Proofs.Preparation

/-!
# Stages as a whole

What a stage leaves behind, said from where it began: a batch of invocations with their endings, the ones
that were due, and for each node the state and the entry that follow from them. One node alone leaves the
same behind as a stage of it.

## Contents
- **Batches.** `endingOf?` and `firstFailure?`.
- **Settlement.** `Settles`, the state in which taking in a batch leaves a session.
- **Stages.** `Served`, from preparation and settlement; two that do not concern each other make one.
- **Concurrent stages.** `runCounted`, which gives back its counts even if the stage fails, and
  `runConcurrent_eq`.
- **One node.** `runWith_eq`.
-/

namespace StageFlow

open Executor (Invocation NodeRun judge)

/-! ## Batches -/

/-- The ending of a node in a batch. -/
def endingOf? (batch : List Ending) (id : NodeId) : Option Ending := batch.find? fun x => x.1.id = id

/-- What an ending leaves in the cache. -/
def Ending.entry? (x : Ending) : Option NodeResult :=
  match x.outcome with
  | .ok values => some (.ofObject values)
  | .error _ => none

/-- What an ending makes of its stage if it is a failure. -/
def Ending.failure? (x : Ending) : Option Stop :=
  match x.outcome with
  | .ok _ => none
  | .error err => some (.error (err.inNode x.1.id))

/-- The first failure of a batch, as the stage reports it. -/
def firstFailure? (batch : List Ending) : Option Stop := batch.findSome? Ending.failure?

theorem Ending.failure?_eq_none {x : Ending} :
    x.failure? = none ↔ ∃ values, x.outcome = .ok values := by
  unfold failure?
  cases x.outcome with
  | ok values => simp
  | error err => simp

theorem endingOf?_eq_none {batch : List Ending} {id : NodeId} :
    endingOf? batch id = none ↔ id ∉ batch.map fun x => x.1.id := by
  simp [endingOf?]

theorem mem_of_endingOf? {batch : List Ending} {id : NodeId} {x : Ending}
    (h : endingOf? batch id = some x) : x ∈ batch ∧ x.1.id = id := by
  refine ⟨List.mem_of_find?_eq_some h, ?_⟩
  simpa using List.find?_some h

theorem endingOf?_cons (x : Ending) (batch : List Ending) (id : NodeId) :
    endingOf? (x :: batch) id = if x.1.id = id then some x else endingOf? batch id := by
  rw [endingOf?, List.find?_cons]
  by_cases h : x.1.id = id <;> simp [h, endingOf?]

/-- In a batch of distinct nodes each ending is that of its node. -/
theorem endingOf?_of_mem {batch : List Ending} (hd : (batch.map fun x => x.1.id).Nodup) {x : Ending}
    (hx : x ∈ batch) : endingOf? batch x.1.id = some x := by
  induction batch with
  | nil => exact absurd hx List.not_mem_nil
  | cons y ys ih =>
    rw [List.map_cons, List.nodup_cons] at hd
    rw [endingOf?_cons]
    -- an ending further down is that of another node
    rcases List.mem_cons.mp hx with rfl | hx
    · exact if_pos rfl
    · rw [if_neg, ih hd.2 hx]
      intro heq
      exact hd.1 (heq ▸ List.mem_map_of_mem hx)

theorem firstFailure?_eq_none {batch : List Ending} :
    firstFailure? batch = none ↔ ∀ x ∈ batch, ∃ values, x.outcome = .ok values := by
  unfold firstFailure?
  rw [List.findSome?_eq_none_iff]
  exact forall₂_congr fun x _ => Ending.failure?_eq_none

theorem firstFailure?_append (batch batch' : List Ending) :
    firstFailure? (batch ++ batch') = (firstFailure? batch).or (firstFailure? batch') := by
  rw [firstFailure?, List.findSome?_append]
  rfl

/-- A failure is that of a node all before which have succeeded. -/
theorem firstFailure?_eq_some {batch : List Ending} {stop : Stop} (h : firstFailure? batch = some stop) :
    ∃ before x after err, batch = before ++ x :: after
      ∧ (∀ y ∈ before, ∃ values, y.outcome = .ok values)
      ∧ x.outcome = .error err ∧ stop = .error (err.inNode x.1.id) := by
  obtain ⟨before, x, after, hbatch, hx, hbefore⟩ := List.findSome?_eq_some_iff.mp h
  cases ho : x.outcome with
  | ok values =>
    rw [Ending.failure?_eq_none.mpr ⟨values, ho⟩] at hx
    exact absurd hx (by simp)
  | error err =>
    unfold Ending.failure? at hx
    rw [ho] at hx
    exact ⟨before, x, after, err, hbatch, fun y hy => Ending.failure?_eq_none.mp (hbefore y hy),
      ho, (Option.some.inj hx).symm⟩

/-- The entry of a node after a batch has been taken in. -/
def Cache.entryAfter? (cache : Cache) (batch : List Ending) (id : NodeId) : Option NodeResult :=
  match endingOf? batch id with
  | some x => x.entry?
  | none => cache.get? id

/-- The state of a node after a batch has been taken in. -/
def Controller.stateAfter (c : Controller) (batch : List Ending) : NodeState :=
  match endingOf? batch c.id with
  | some x => .afterOutcome x.outcome
  | none => c.state

namespace Session

variable {σ : Type} {s s₁ s' : Session σ} {ids ids' : List NodeId} {batch batch' : List Ending}

/-! ## Settlement -/

/-- The state in which taking in a batch in flight leaves a session. -/
structure Settles (s : Session σ) (batch : List Ending) (s' : Session σ) : Prop where
  steps : Steps ⟨batch.map Prod.fst, s⟩ ⟨[], s'⟩
  journal : s'.journal = s.journal ++ batch.map Ending.event
  cache : ∀ k, s'.executor.cache.get? k = s.executor.cache.entryAfter? batch k
  find? : ∀ k, s'.executor.controllers.find? k
    = (s.executor.controllers.find? k).map fun c => { c with state := c.stateAfter batch }

theorem Settles.nil (s : Session σ) : Settles s [] s where
  steps := .refl
  journal := (List.append_nil _).symm
  cache _ := rfl
  find? _ := Option.map_id'.symm

/-- One ending more, taken in before the others. -/
theorem Settles.cons {x : Ending} {c : Controller} {e₁ : Executor σ}
    (hx : x.1.id ∉ batch.map fun y => y.1.id) (hnone : s.executor.cache.get? x.1.id = none)
    (hc : s.executor.controllers.find? x.1.id = some c) (hs : s.executor.SettledTo c x.outcome e₁)
    (h : Settles ⟨e₁, s.host, s.journal ++ [x.event]⟩ batch s') : Settles s (x :: batch) s' where
  steps := .head (Step.settle hc hs) h.steps
  journal := by rw [h.journal, List.map_cons, List.append_assoc, List.singleton_append]
  cache k := by
    -- no other ending of the batch writes to the entry of `x`
    have hid : c.id = x.1.id := Executor.id_of_find? hc
    rw [h.cache, Cache.entryAfter?, Cache.entryAfter?, endingOf?_cons]
    by_cases hk : x.1.id = k
    · subst hk
      rw [endingOf?_eq_none.mpr hx, if_pos rfl]
      show e₁.cache.get? x.1.id = x.entry?
      rw [hs.cache, Cache.get?_absorb, if_pos hid.symm, Ending.entry?]
      cases x.outcome with
      | ok values => rfl
      | error err => exact hnone
    · rw [if_neg hk]
      cases endingOf? batch k with
      | some y => rfl
      | none =>
        show e₁.cache.get? k = _
        rw [hs.cache, Cache.get?_absorb, if_neg fun he => hk (hid.symm.trans he.symm)]
  find? k := by
    have hid : c.id = x.1.id := Executor.id_of_find? hc
    rw [h.find? k]
    show (e₁.controllers.find? k).map _ = _
    rw [hs.find? k]
    by_cases hk : k = c.id
    · rw [if_pos hk, hk, hid, hc, Option.map_some, Option.map_some]
      have hnot : endingOf? batch x.1.id = none := endingOf?_eq_none.mpr hx
      simp only [Controller.stateAfter, hid, hnot, endingOf?_cons, if_true]
    · rw [if_neg hk]
      cases hd : s.executor.controllers.find? k with
      | none => rfl
      | some d =>
        have hne : ¬ x.1.id = d.id := fun he =>
          hk ((Executor.id_of_find? hd).symm.trans (he.symm.trans hid.symm))
        simp only [Option.map_some, Controller.stateAfter, endingOf?_cons, if_neg hne]

/-- **Taking in the endings of a batch in flight** never breaks off, and reports the first failure. -/
theorem settleStage_eq (batch : List Ending) (first : Option Stop)
    (hs : Moment.Sound ⟨batch.map Prod.fst, s⟩) :
    ∃ s', settleStage batch first s = (s', first.or (firstFailure? batch)) ∧ Settles s batch s' := by
  induction batch generalizing first s with
  | nil => exact ⟨s, by rw [settleStage, firstFailure?, List.findSome?_nil, Option.or_none], .nil s⟩
  | cons x batch ih =>
    obtain ⟨c, hc, hrun⟩ := hs.running (x := x.1) List.mem_cons_self
    obtain ⟨e₁, hse, heq⟩ := settle_eq hs.coherent.wellFormed hc x.2
    have hnone := hs.coherent.get?_eq_none_of_mem
      (List.mem_map_of_mem (f := Invocation.id) (List.mem_cons_self (a := x.1)))
    have hx : x.1.id ∉ batch.map fun y => y.1.id := by
      have hnodup := hs.distinct
      rw [List.map_map] at hnodup
      exact (List.nodup_cons.mp hnodup).1
    have hsound := (Step.settle (x := x) hc hse).sound hs
    rw [settleStage, heq]
    cases ho : x.outcome with
    | ok values =>
      obtain ⟨s', hrest, hset⟩ := ih first hsound
      have hj : judge x.1.id x.2 = .ok values := ho
      refine ⟨s', ?_, hset.cons hx hnone hc hse⟩
      rw [hj, firstFailure?, List.findSome?_cons, Ending.failure?_eq_none.mpr ⟨values, ho⟩]
      exact hrest
    | error err =>
      have hj : judge x.1.id x.2 = .error err := ho
      -- the first failure so far stays the first
      obtain ⟨s', hrest, hset⟩ := ih (first.or (some (.error (err.inNode x.1.id)))) hsound
      refine ⟨s', ?_, hset.cons hx hnone hc hse⟩
      have hfail : x.failure? = some (.error (err.inNode x.1.id)) := by rw [Ending.failure?, ho]
      rw [Option.or_assoc, Option.some_or] at hrest
      rw [hj, firstFailure?, List.findSome?_cons, hfail]
      exact hrest

/-! ## Stages -/

/-- The events of invocations handed to the logic, as pairs of node and inputs. -/
def launches (journal : List Event) : List (NodeDescriptor × Object) :=
  journal.filterMap fun
    | .started node inputs => some (node, inputs)
    | _ => none

@[simp] theorem launches_append (journal journal' : List Event) :
    launches (journal ++ journal') = launches journal ++ launches journal' :=
  List.filterMap_append

@[simp] theorem launches_started (is : List Invocation) :
    launches (is.map Invocation.event) = is.map fun i => (i.node, i.inputs) := by
  induction is with
  | nil => rfl
  | cons i is ih => exact congrArg (List.cons (i.node, i.inputs)) ih

@[simp] theorem launches_ended (batch : List Ending) : launches (batch.map Ending.event) = [] := by
  induction batch with
  | nil => rfl
  | cons x batch ih => exact ih

/-- The state of a node after a stage: one with a result has been seen to have it. -/
def servedState (e : Executor σ) (ids : List NodeId) (batch : List Ending) (c : Controller) :
    NodeState :=
  match endingOf? batch c.id with
  | some x => .afterOutcome x.outcome
  | none => if c.id ∈ ids ∧ e.cache.has c.id = true then .cached else c.state

/-- What a stage leaves behind: of the nodes listed each one that was due has been invoked, once and with
the inputs that it was due with, and its ending has been taken in. -/
structure Served (s : Session σ) (ids : List NodeId) (batch : List Ending) (s' : Session σ) : Prop where
  due : batch.map Prod.fst = (distinctFrom [] ids).filterMap s.executor.due?
  steps : Steps ⟨[], s⟩ ⟨[], s'⟩
  started : launches s'.journal = launches s.journal ++ batch.map fun x => (x.1.node, x.1.inputs)
  cache : ∀ k, s'.executor.cache.get? k = s.executor.cache.entryAfter? batch k
  find? : ∀ k, s'.executor.controllers.find? k
    = (s.executor.controllers.find? k).map fun c =>
        { c with state := servedState s.executor ids batch c }

namespace Served

/-- A node of the batch was due. -/
theorem due_of_mem (h : Served s ids batch s') {x : Ending} (hx : x ∈ batch) :
    x.1.id ∈ ids ∧ s.executor.due? x.1.id = some x.1 := by
  have hm : x.1 ∈ batch.map Prod.fst := List.mem_map_of_mem hx
  rw [h.due, List.mem_filterMap] at hm
  obtain ⟨id, hid, hd⟩ := hm
  rw [Executor.id_of_due? hd]
  exact ⟨(mem_distinctFrom.mp hid).1, hd⟩

/-- A node that was due is in the batch. -/
theorem mem_of_due (h : Served s ids batch s') {id : NodeId} (hid : id ∈ ids) {i : Invocation}
    (hi : s.executor.due? id = some i) : ∃ x ∈ batch, x.1 = i := by
  have hm : i ∈ batch.map Prod.fst := by
    rw [h.due, List.mem_filterMap]
    exact ⟨id, mem_distinctFrom.mpr ⟨hid, List.not_mem_nil⟩, hi⟩
  obtain ⟨x, hx, rfl⟩ := List.mem_map.mp hm
  exact ⟨x, hx, rfl⟩

/-- No node is invoked twice. -/
theorem nodup (h : Served s ids batch s') : (batch.map fun x => x.1.id).Nodup := by
  have hids : (batch.map fun x => x.1.id) = (batch.map Prod.fst).map Invocation.id := by
    rw [List.map_map]
    rfl
  rw [hids, h.due, List.map_filterMap]
  refine List.Nodup.filterMap ?_ (nodup_distinctFrom [] ids)
  intro a b k ha hb
  rw [Option.mem_def, Option.map_eq_some_iff] at ha hb
  obtain ⟨i, hi, rfl⟩ := ha
  obtain ⟨j, hj, hij⟩ := hb
  rw [← Executor.id_of_due? hi, ← hij, Executor.id_of_due? hj]

theorem endingOf?_eq_none_of_not_mem (h : Served s ids batch s') {id : NodeId} (hid : id ∉ ids) :
    endingOf? batch id = none := by
  rw [endingOf?_eq_none]
  intro hm
  obtain ⟨x, hx, rfl⟩ := List.mem_map.mp hm
  exact hid (h.due_of_mem hx).1

/-- A stage keeps the entries of the nodes that are not invoked in it. -/
theorem get?_of_not_invoked (h : Served s ids batch s') {id : NodeId}
    (hid : id ∉ batch.map fun x => x.1.id) :
    s'.executor.cache.get? id = s.executor.cache.get? id := by
  rw [h.cache, Cache.entryAfter?, endingOf?_eq_none.mpr hid]

/-- A stage keeps the entries of the nodes that are not listed in it. -/
theorem get?_of_not_mem (h : Served s ids batch s') {id : NodeId} (hid : id ∉ ids) :
    s'.executor.cache.get? id = s.executor.cache.get? id :=
  h.get?_of_not_invoked (endingOf?_eq_none.mp (h.endingOf?_eq_none_of_not_mem hid))

/-- A stage keeps the controllers of the nodes that are not listed in it. -/
theorem find?_of_not_mem (h : Served s ids batch s') {id : NodeId} (hid : id ∉ ids) :
    s'.executor.controllers.find? id = s.executor.controllers.find? id := by
  rw [h.find?]
  cases hc : s.executor.controllers.find? id with
  | none => rfl
  | some c =>
    obtain rfl : c.id = id := Executor.id_of_find? hc
    rw [Option.map_some, servedState, h.endingOf?_eq_none_of_not_mem hid]
    simp only [hid, false_and, if_false]

/-- A node of the batch has the entry that its ending leaves, and the state. -/
theorem of_mem (h : Served s ids batch s') {x : Ending} (hx : x ∈ batch) :
    s'.executor.cache.get? x.1.id = x.entry?
      ∧ ∃ c, s'.executor.controllers.find? x.1.id = some c
        ∧ c.state = .afterOutcome x.outcome := by
  have hend := endingOf?_of_mem h.nodup hx
  obtain ⟨c, _, hc, _⟩ := Executor.due?_eq_some.mp (h.due_of_mem hx).2
  have hid : c.id = x.1.id := Executor.id_of_find? hc
  refine ⟨by rw [h.cache, Cache.entryAfter?, hend], ⟨_, by rw [h.find?, hc]; rfl, ?_⟩⟩
  show servedState s.executor ids batch c = _
  unfold servedState
  rw [hid, hend]

/-- What a node outside a stage is due with does not depend on the stage, unless it has a producer there. -/
theorem due?_eq (h : Served s ids batch s') {id : NodeId} (hid : id ∉ ids)
    (hsrc : ∀ c, s.executor.controllers.find? id = some c → ∀ b ∈ c.bindings, b.source ∉ ids) :
    s'.executor.due? id = s.executor.due? id :=
  Executor.due?_congr h.steps.frame (h.get?_of_not_mem hid) fun c hc b hb =>
    h.get?_of_not_mem (hsrc c hc b hb)

/-- Nothing is done for a node without a controller. -/
theorem untracked {id : NodeId} (hid : s.executor.controllers.find? id = none) :
    Served s [id] [] s where
  due := by rw [filterMap_distinctFrom_cons_none (Executor.due?_eq_none_of_find? hid)]; rfl
  steps := .refl
  started := (List.append_nil _).symm
  cache _ := rfl
  find? k := by
    cases hc : s.executor.controllers.find? k with
    | none => rfl
    | some c =>
      have hne : c.id ≠ id := by
        rintro rfl
        rw [Executor.id_of_find? hc, hc] at hid
        exact absurd hid (by simp)
      simp [servedState, endingOf?, hne]

theorem nil (s : Session σ) : Served s [] [] s where
  due := rfl
  steps := .refl
  started := (List.append_nil _).symm
  cache _ := rfl
  find? k := by simp [servedState, endingOf?]

/-- **Stages that do not concern each other make one stage.** What the second one finds due must be what
was due before the first. -/
theorem append (h : Served s ids batch s₁) (h' : Served s₁ ids' batch' s')
    (hind : ∀ k ∈ ids', s.executor.tracks k = true
      → k ∉ ids ∧ s₁.executor.due? k = s.executor.due? k) (hw : s.executor.WellFormed) :
    Served s (ids ++ ids') (batch ++ batch') s' := by
  -- what the second stage finds due was due before the first
  have hdue : ∀ k ∈ ids', s₁.executor.due? k = s.executor.due? k := by
    intro k hk
    cases ht : s.executor.tracks k with
    | true => exact (hind k hk ht).2
    | false =>
      have hframe := h.steps.frame
      have ht' : s₁.executor.tracks k = false := by rw [Executor.tracks_of_frame hframe, ht]
      rw [Executor.due?_eq_none_of_find? (hw.tracks_eq_false_iff.mp ht),
        Executor.due?_eq_none_of_find? ((hw.of_frame hframe).tracks_eq_false_iff.mp ht')]
  have hends : ∀ k, endingOf? (batch ++ batch') k = (endingOf? batch k).or (endingOf? batch' k) :=
    fun k => List.find?_append
  -- no node with a controller is in both
  have hapart : ∀ k c, s.executor.controllers.find? k = some c → k ∈ ids → k ∉ ids' :=
    fun k c hc hk hk' => (hind k hk' (hw.tracks_iff.mpr ⟨c, hc⟩)).1 hk
  refine ⟨?_, h.steps.trans h'.steps, ?_, ?_, ?_⟩
  · rw [List.map_append, h.due, h'.due, filterMap_distinctFrom_append]
    · congr 1
      refine List.filterMap_congr fun k hk => hdue k (mem_distinctFrom.mp hk).1
    · intro k hk' hk
      cases hc : s.executor.controllers.find? k with
      | none => exact Executor.due?_eq_none_of_find? hc
      | some c => exact absurd hk' (hapart k c hc hk)
  · rw [h'.started, h.started, List.map_append, List.append_assoc]
  · intro k
    rw [h'.cache, Cache.entryAfter?, Cache.entryAfter?, hends, h.cache, Cache.entryAfter?]
    cases hb : endingOf? batch k with
    | none =>
      rw [Option.none_or]
    | some x =>
      obtain ⟨hx, rfl⟩ := mem_of_endingOf? hb
      obtain ⟨hmem, hd⟩ := h.due_of_mem hx
      obtain ⟨c, _, hc, _⟩ := Executor.due?_eq_some.mp hd
      rw [h'.endingOf?_eq_none_of_not_mem (hapart _ c hc hmem)]
      rfl
  · intro k
    rw [h'.find?, h.find?, Option.map_map]
    cases hc : s.executor.controllers.find? k with
    | none => rfl
    | some c =>
      have hid : c.id = k := Executor.id_of_find? hc
      subst hid
      simp only [Option.map_some, Function.comp_apply, Option.some.injEq]
      congr 1
      unfold servedState
      rw [hends]
      by_cases hk : c.id ∈ ids
      · have hk' := hapart _ c hc hk
        simp only [h'.endingOf?_eq_none_of_not_mem hk', Option.or_none, hk, hk', List.mem_append,
          true_or, false_and, if_false]
      · have hhas : s₁.executor.cache.has c.id = s.executor.cache.has c.id := by
          unfold Cache.has
          rw [h.get?_of_not_mem hk]
        simp only [h.endingOf?_eq_none_of_not_mem hk, Option.none_or, hk, List.mem_append,
          false_or, false_and, if_false, hhas]

end Served

/-! ## Concurrent stages -/

/-- Preparation and settlement, with the host at work in between, make a stage. -/
theorem Prepares.settles {pending : List Invocation} (hs : Moment.Sound ⟨[], s⟩)
    (hp : Prepares s [] ids pending s₁) (host : σ) (hset : Settles { s₁ with host } batch s')
    (hb : batch.map Prod.fst = pending) : Served s ids batch s' where
  due := by rw [hb, hp.due]; rfl
  steps := by
    have hmid : Steps ⟨pending, s₁⟩ ⟨batch.map Prod.fst, { s₁ with host }⟩ := by
      rw [hb]
      exact .single (.act host)
    exact (hp.steps.trans hmid).trans hset.steps
  started := by
    have hj : { s₁ with host }.journal = s.journal ++ pending.map Invocation.event := hp.journal
    rw [hset.journal, hj, ← hb, launches_append, launches_append, launches_started, launches_ended,
      List.append_nil, List.map_map]
    rfl
  cache k := by
    have hc : { s₁ with host }.executor.cache = s.executor.cache := hp.cache
    rw [hset.cache, hc]
  find? k := by
    rw [hset.find?]
    show (s₁.executor.controllers.find? k).map _ = _
    rw [hp.find?, Option.map_map]
    cases hc : s.executor.controllers.find? k with
    | none => rfl
    | some c =>
      obtain rfl : c.id = k := Executor.id_of_find? hc
      simp only [Option.map_some, Function.comp_apply, Option.some.injEq]
      by_cases hk : c.id ∈ ids
      · rw [if_pos hk]
        show ({ c with state := _ } : Controller) = _
        congr 1
        unfold Controller.stateAfter servedState
        show (match endingOf? batch c.id with
          | some x => NodeState.afterOutcome x.outcome
          | none => s.executor.preparedState c) = _
        cases hend : endingOf? batch c.id with
        | some x => rfl
        | none =>
          -- a node of the stage that is not in the batch was not due
          have hnotDue : ∀ i, s.executor.due? c.id ≠ some i := by
            intro i hi
            have hm : i ∈ batch.map Prod.fst := by
              rw [hb, hp.due, List.mem_filterMap]
              exact ⟨c.id, mem_distinctFrom.mpr ⟨hk, List.not_mem_nil⟩, hi⟩
            obtain ⟨x, hx, rfl⟩ := List.mem_map.mp hm
            refine endingOf?_eq_none.mp hend (List.mem_map.mpr ⟨x, hx, ?_⟩)
            exact Executor.id_of_due? hi
          cases hs.coherent.assess hc with
          | inFlight hrun _ _ _ => exact absurd hrun (hs.coherent.ne_running hc)
          | done r _ hr _ hstate =>
            have hhas := Cache.has_iff.mpr ⟨r, hr⟩
            simp only [hstate, hk, hhas, and_self, if_true]
          | due i _ hi _ _ => exact absurd hi (hnotDue i)
          | idle _ hnone _ _ hstate =>
            have hhas := Cache.has_eq_false_iff.mpr hnone
            simp only [hstate, hhas, Bool.false_eq_true, and_false, if_false]
      · rw [if_neg hk]
        simp only [Controller.stateAfter, servedState, hk, false_and, if_false]

variable {logic : Logic σ} {P : NodeDescriptor → Object → Except String Object → Prop}

/-- The answer of a stage. -/
def stageAnswer (batch : List Ending) (stats : RunStats) : Except Stop RunStats :=
  match firstFailure? batch with
  | none => .ok stats
  | some stop => .error stop

theorem stageAnswer_eq_ok {batch : List Ending} {stats stats' : RunStats}
    (h : stageAnswer batch stats = .ok stats') : firstFailure? batch = none ∧ stats = stats' := by
  unfold stageAnswer at h
  split at h
  · rename_i hf
    exact ⟨hf, Except.ok.inj h⟩
  · exact absurd h (by simp)

theorem stageAnswer_eq_error {batch : List Ending} {stats : RunStats} {stop : Stop}
    (h : stageAnswer batch stats = .error stop) : firstFailure? batch = some stop := by
  unfold stageAnswer at h
  split at h
  · exact absurd h (by simp)
  · rename_i stop' hf
    rw [hf, Except.error.inj h]

/-- The preparation of a stage, with its counts given back even if it breaks off. -/
def prepareCounted :
    List NodeRecord → RunStats → Session σ →
      Session σ × RunStats × Except Stop (List Invocation)
  | [], stats, s => (s, stats, .ok [])
  | r :: rs, stats, s =>
    if !s.executor.tracks r.id then prepareCounted rs stats s
    else
      match s.prepare r.id with
      | (s, .error stop) => (s, stats, .error (stop.inNode r.id))
      | (s, .ok p) =>
        let (s, stats, answer) := prepareCounted rs (stats.tally p) s
        (s, stats, answer.map (Executor.Prepared.launched p ++ ·))

/-- A preparation that breaks off forgets its counts. -/
theorem prepareStage_of_counted {rs : List NodeRecord} {stats stats' : RunStats} {s s' : Session σ}
    {answer : Except Stop (List Invocation)} (h : prepareCounted rs stats s = (s', stats', answer)) :
    prepareStage rs stats s = (s', answer.map (Prod.mk stats')) := by
  induction rs generalizing stats s answer with
  | nil =>
    obtain ⟨rfl, rfl, rfl⟩ := h
    rfl
  | cons r rs ih =>
    rw [prepareCounted] at h
    cases ht : s.executor.tracks r.id with
    | false =>
      rw [ht] at h
      rw [prepareStage, ht]
      exact ih h
    | true =>
      rcases hp : s.prepare r.id with ⟨s₁, stop | p⟩
      · rw [ht, hp] at h
        obtain ⟨rfl, rfl, rfl⟩ := h
        rw [prepareStage, ht, hp]
        rfl
      · rcases hrest : prepareCounted rs (stats.tally p) s₁ with ⟨s₂, stats₂, answer₂⟩
        simp only [ht, hp, hrest] at h
        obtain ⟨rfl, rfl, rfl⟩ := h
        rw [prepareStage_cons r rs stats ht hp (ih hrest)]
        cases answer₂ <;> rfl

/-- A concurrent stage, with its counts given back even if it fails. -/
def runCounted (logic : Logic σ) (records : List NodeRecord) (stats : RunStats) :
    Activity (Session σ) (RunStats × Option Stop) := do
  match ← .step (prepareCounted records stats) with
  | (stats, .error stop) => return (stats, some stop)
  | (stats, .ok []) => return (stats, none)
  | (stats, .ok pending) =>
    let results ← Activity.all (pending.map (invoke logic))
    let first ← .step (settleStage (pending.zip results) none)
    return ({ stats with invoked := stats.invoked + pending.length }, first)

/-- A concurrent stage that fails forgets its counts. -/
theorem runConcurrent_eq_counted (logic : Logic σ) (rs : List NodeRecord) (stats : RunStats) :
    runConcurrent logic rs stats
      = (runCounted logic rs stats).map fun x => x.2.elim (.ok x.1) .error := by
  unfold runConcurrent runCounted Activity.map
  show Activity.bind _ _ = Activity.bind (Activity.bind _ _) _
  rw [Activity.bind_assoc]
  refine congrArg₂ Activity.effect ?_ ?_
  · funext s
    rcases hcounted : prepareCounted rs stats s with ⟨s', stats', answer⟩
    rw [prepareStage_of_counted hcounted]
  · funext s
    rcases hcounted : prepareCounted rs stats s with ⟨s', stats', stop | _ | ⟨i, is⟩⟩
    · simp only [prepareStage_of_counted hcounted, hcounted]
      rfl
    · simp only [prepareStage_of_counted hcounted, hcounted]
      rfl
    · simp only [prepareStage_of_counted hcounted, hcounted]
      show Activity.bind _ _ = Activity.bind (Activity.bind _ _) _
      rw [Activity.bind_assoc]
      refine congrArg _ (funext fun results => congrArg (Activity.effect _) (funext fun s => ?_))
      show Activity.bind (.done _) _ = Activity.done _
      generalize (settleStage ((i :: is).zip results) none s).2 = first
      cases first <;> rfl

/-- **A concurrent stage serves its nodes,** all of them even if some fail, and counts them; it ends with
its first failure. All launches come before all endings. -/
theorem runCounted_eq (hl : logic.Yields P) (rs : List NodeRecord) (stats : RunStats)
    (hs : Moment.Sound ⟨[], s⟩) :
    ∃ s' batch stats', (runCounted logic rs stats).finish s = (s', stats', firstFailure? batch)
      ∧ Served s (rs.map (·.id)) batch s'
      ∧ Counts s.executor (rs.map (·.id)) batch.length stats stats'
      ∧ s'.journal = s.journal ++ batch.map (fun x => x.1.event) ++ batch.map Ending.event
      ∧ ∀ x ∈ batch, P x.1.node x.1.inputs x.2 := by
  obtain ⟨s₁, stats₁, pending, hprep, hp, hinvoked, hcounts⟩ := prepareStage_eq rs stats hs
  have hcounted : prepareCounted rs stats s = (s₁, stats₁, .ok pending) := by
    rcases hcounted : prepareCounted rs stats s with ⟨s₂, stats₂, stop | pending₂⟩
    · rw [prepareStage_of_counted hcounted] at hprep
      exact absurd (Prod.mk.inj hprep).2 (by simp [Except.map])
    · rw [prepareStage_of_counted hcounted] at hprep
      obtain ⟨rfl, hok⟩ := Prod.mk.inj hprep
      obtain ⟨rfl, rfl⟩ := Prod.mk.inj (Except.ok.inj hok)
      rfl
  unfold runCounted
  rw [Activity.finish_seq, Activity.finish_step, hcounted]
  cases pending with
  | nil =>
    refine ⟨s₁, [], stats₁, rfl, hp.settles hs s₁.host (.nil s₁) rfl, ?_, ?_, ?_⟩
    · rw [← hinvoked] at hcounts
      exact hcounts
    · simpa using hp.journal
    · exact fun x hx => absurd hx List.not_mem_nil
  | cons i is =>
    -- the logic touches nothing but the host's state, and gives one result for each invocation
    have hkeeps : (Activity.all ((i :: is).map (invoke logic))).Keeps
        fun s => (s.executor, s.journal) := by
      apply Activity.Keeps.all
      intro t ht
      obtain ⟨j, _, rfl⟩ := List.mem_map.mp ht
      exact invoke_keeps logic j
    obtain ⟨host, hall⟩ := finish_eq_of_keeps hkeeps s₁
    have hanswers := (Activity.Always.all fun j (_ : j ∈ i :: is) => invoke_always hl j).finish s₁
    obtain ⟨results, hresults⟩ : ∃ results,
        ((Activity.all ((i :: is).map (invoke logic))).finish s₁).2 = results := ⟨_, rfl⟩
    rw [hresults] at hanswers hall
    have hfst : ((i :: is).zip results).map Prod.fst = i :: is :=
      List.map_fst_zip (Nat.le_of_eq hanswers.length_eq)
    have hsound : Moment.Sound ⟨((i :: is).zip results).map Prod.fst, { s₁ with host }⟩ := by
      rw [hfst]
      exact (Step.act host).sound (hp.steps.sound hs)
    obtain ⟨s', hsettle, hset⟩ := settleStage_eq ((i :: is).zip results) none hsound
    have hserved := hp.settles hs host hset hfst
    have hlength : ((i :: is).zip results).length = (i :: is).length := by
      rw [← hfst, List.length_map, hfst]
    refine ⟨s', (i :: is).zip results, { stats₁ with invoked := stats₁.invoked + (i :: is).length },
      ?_, hserved, ?_, ?_, ?_⟩
    · simp only [Activity.finish_seq, Activity.finish_step, hall, hsettle, Option.none_or]
      rfl
    · rw [hinvoked, hlength]
      exact hcounts
    · have hj : { s₁ with host }.journal = s.journal ++ (i :: is).map Invocation.event := hp.journal
      rw [hset.journal, hj]
      congr 2
      rw [← hfst, List.map_map, hfst]
      rfl
    · intro x hx
      exact (List.forall₂_zip hanswers) hx

/-- The same, of the stage with its answer. -/
theorem runConcurrent_eq (hl : logic.Yields P) (rs : List NodeRecord) (stats : RunStats)
    (hs : Moment.Sound ⟨[], s⟩) :
    ∃ s' batch stats', (runConcurrent logic rs stats).finish s = (s', stageAnswer batch stats')
      ∧ Served s (rs.map (·.id)) batch s'
      ∧ Counts s.executor (rs.map (·.id)) batch.length stats stats'
      ∧ s'.journal = s.journal ++ batch.map (fun x => x.1.event) ++ batch.map Ending.event
      ∧ ∀ x ∈ batch, P x.1.node x.1.inputs x.2 := by
  obtain ⟨s', batch, stats', heq, hrest⟩ := runCounted_eq hl rs stats hs
  refine ⟨s', batch, stats', ?_, hrest⟩
  rw [runConcurrent_eq_counted, Activity.finish_map, heq, stageAnswer]
  cases firstFailure? batch <;> rfl

/-! ## One node -/

/-- What the run of one node answers. -/
def nodeAnswer (e : Executor σ) (id : NodeId) (batch : List Ending) : Except Stop NodeRun :=
  match e.cache.get? id, batch with
  | some r, _ => .ok (.cached r.toObject)
  | none, x :: _ => NodeRun.ofOutcome x.outcome
  | none, [] => .ok .waiting

/-- A node that is alone in flight is settled with what the logic comes to. -/
theorem invoke_settles (logic : Logic σ) {i : Invocation} (hs : Moment.Sound ⟨[i], s⟩) :
    ∃ host result s', (invoke logic i >>= fun result => Activity.step (settle i.id result)).finish s
        = (s', NodeRun.ofOutcome (judge i.id result))
      ∧ Settles { s with host } [(i, result)] s'
      ∧ result = ((logic i.node i.inputs).finish s.host).2.guarded := by
  obtain ⟨host, hinvoke⟩ := finish_eq_of_keeps (invoke_keeps logic i) s
  have hends := invoke_answer logic i s
  obtain ⟨result, hresult⟩ : ∃ result, ((invoke logic i).finish s).2 = result := ⟨_, rfl⟩
  rw [hresult] at hends hinvoke
  have hsound : Moment.Sound ⟨[i], { s with host }⟩ := (Step.act host).sound hs
  obtain ⟨d, hd, _⟩ := hsound.running List.mem_cons_self
  obtain ⟨e, hse, hsettle⟩ := settle_eq hsound.coherent.wellFormed hd result
  have hmissing := hsound.coherent.get?_eq_none_of_mem List.mem_cons_self
  refine ⟨host, result, _, ?_, .cons (x := (i, result)) List.not_mem_nil hmissing hd hse (.nil _), hends⟩
  rw [Activity.finish_seq, hinvoke, Activity.finish_step, hsettle]
  rfl

/-- **The run of one node serves it,** and nothing else runs beside it. -/
theorem runWith_served (logic : Logic σ) {id : NodeId} {c : Controller}
    (hs : Moment.Sound ⟨[], s⟩) (hc : s.executor.controllers.find? id = some c) :
    ∃ s' batch, (runWith logic id).finish s = (s', nodeAnswer s.executor id batch)
      ∧ Served s [id] batch s'
      ∧ ∀ x ∈ batch, x.2 = ((logic x.1.node x.1.inputs).finish s.host).2.guarded := by
  have hcoherent : s.executor.Coherent [] := hs.coherent
  obtain ⟨e₁, hp, hprep⟩ := prepare_eq hcoherent hc
  have hprepares := Prepares.cons hs hc hp (.nil _ _)
  obtain rfl : c.id = id := Executor.id_of_find? hc
  unfold runWith
  rw [Activity.finish_seq, Activity.finish_step, hprep]
  cases hcoherent.assess hc with
  | inFlight hrun _ _ _ => exact absurd hrun (hcoherent.ne_running hc)
  | done r _ hr hv _ =>
    have hanswer : nodeAnswer s.executor c.id [] = .ok (.cached r.toObject) := by
      simp only [nodeAnswer, hr]
    rw [hv] at hprepares ⊢
    refine ⟨_, [], ?_, hprepares.settles hs s.host (.nil _) rfl, ?_⟩
    · rw [hanswer]
      rfl
    · intro x hx
      exact absurd hx List.not_mem_nil
  | idle _ hnone _ hv _ =>
    have hanswer : nodeAnswer s.executor c.id [] = .ok .waiting := by
      simp only [nodeAnswer, hnone]
    rw [hv] at hprepares ⊢
    refine ⟨_, [], ?_, hprepares.settles hs s.host (.nil _) rfl, ?_⟩
    · rw [hanswer]
      rfl
    · intro x hx
      exact absurd hx List.not_mem_nil
  | due i _ hi hv _ =>
    obtain ⟨_, _, _, _, hnone, _⟩ := Executor.due?_eq_some.mp hi
    have hid : i.id = c.id := Executor.id_of_due? hi
    rw [hv] at hprepares ⊢
    -- from here on one node is in flight
    obtain ⟨host, result, s', heq, hset, hend⟩ := invoke_settles logic (hprepares.steps.sound hs)
    have hanswer : nodeAnswer s.executor c.id [(i, result)] = NodeRun.ofOutcome (judge i.id result) := by
      simp only [nodeAnswer, hnone]
      rfl
    refine ⟨s', [(i, result)], ?_, hprepares.settles hs host hset rfl, ?_⟩
    · rw [hanswer]
      exact heq
    · intro x hx
      rw [List.mem_singleton.mp hx]
      exact hend

/-- What the logic always yields, the run of one node yields. -/
theorem runWith_eq (hl : logic.Yields P) {id : NodeId} {c : Controller}
    (hs : Moment.Sound ⟨[], s⟩) (hc : s.executor.controllers.find? id = some c) :
    ∃ s' batch, (runWith logic id).finish s = (s', nodeAnswer s.executor id batch)
      ∧ Served s [id] batch s' ∧ ∀ x ∈ batch, P x.1.node x.1.inputs x.2 := by
  obtain ⟨s', batch, heq, hserved, hends⟩ := runWith_served logic hs hc
  refine ⟨s', batch, heq, hserved, ?_⟩
  intro x hx
  rw [hends x hx]
  exact (hl x.1.node x.1.inputs).finish s.host

end Session

end StageFlow
