import StageFlow.Proofs.Dispatch
import StageFlow.Proofs.Failure
import StageFlow.Proofs.Rounds

/-!
# Early stops

A sequential stage returns at its first failure. What it lists after the node that has failed is left as it
was, whether or not it was ready when the stage began; a stage that fails settles in this dispatch only if
all that was ready in it comes before.

## Contents
- **The failing node.** `runSequential_error` finds it.
- **Passed rounds.** `Rounds.of_runnable`, on what they make of a node that could be invoked.
- **Runs.** `sequential_stage_stops_at_failure`, and a stage that does not settle.
-/

namespace StageFlow

/-- A node that could be invoked: it has no result, and all its inputs are there. -/
def Executor.Runnable {σ : Type} (e : Executor σ) (id : NodeId) : Prop :=
  ∃ c, e.controller? id = .ok (some c) ∧ e.cache.has id = false
    ∧ c.inputsAvailable e.cache = true

theorem Executor.WellFormed.runnable_iff {σ : Type} {e : Executor σ} (hw : e.WellFormed) {id : NodeId} :
    e.Runnable id ↔ ∃ c, e.controllers.find? id = some c ∧ e.cache.get? id = none
      ∧ c.inputsAvailable e.cache = true := by
  unfold Runnable
  simp only [hw.controller?_eq, Except.ok.injEq, Cache.has_eq_false_iff]

namespace Session

open Executor (Runnable)

variable {σ : Type} {s s₁ s' : Session σ} {stats stats' : RunStats} {id : NodeId} {ids : List NodeId}
variable {rounds : List (List NodeId)} {batch : List Ending} {logic : Logic σ}
variable {P : NodeDescriptor → Object → Except String Object → Prop}
variable {result : Session σ × Except Stop RunStats}

/-- A node has been invoked between two states of a session, and has ended by the second one. -/
def Settled (s s' : Session σ) (id : NodeId) : Prop :=
  (∃ launched, launches s'.journal = launches s.journal ++ launched
    ∧ id ∈ launched.map fun l => l.1.id)
  ∧ ∃ c, s'.executor.controller? id = .ok (some c) ∧ (c.state = .succeeded ∨ c.state = .failed)

/-! ## The failing node -/

/-- A sequential stage that fails has passed the nodes before one that fails, and ends there. -/
theorem runSequential_error (rs : List NodeRecord) {stop : Stop} (hs : Moment.Sound ⟨[], s⟩)
    (h : (runSequential logic rs stats).finish s = (s', .error stop)) :
    ∃ before r after mid stats₁ batch, rs = before ++ r :: after
      ∧ (runSequential logic before stats).finish s = (mid, .ok stats₁)
      ∧ (runWith logic r.id).finish mid = (s', nodeAnswer mid.executor r.id batch)
      ∧ Served mid [r.id] batch s' ∧ firstFailure? batch = some stop := by
  induction rs generalizing s stats with
  | nil => exact absurd (Prod.mk.inj h).2 (by simp)
  | cons r rs ih =>
    cases ht : s.executor.tracks r.id with
    | false =>
      rw [runSequential_cons_untracked r rs stats ht] at h
      obtain ⟨before, q, after, mid, stats₁, batch, rfl, hpass, hrest⟩ := ih hs h
      exact ⟨r :: before, q, after, mid, stats₁, batch, rfl,
        by rw [runSequential_cons_untracked r before stats ht, hpass], hrest⟩
    | true =>
      obtain ⟨c, hc⟩ := hs.coherent.wellFormed.tracks_iff.mp ht
      obtain ⟨s₁, batch, heq, hserved, _⟩ := runWith_eq logic.yields_trivial hs hc
      cases ha : nodeAnswer s.executor r.id batch with
      | error stop₁ =>
        rw [runSequential_cons_error r rs stats ht (ha ▸ heq)] at h
        obtain ⟨rfl, hstop⟩ := Prod.mk.inj h
        refine ⟨[], r, rs, s, stats, batch, rfl, rfl, heq, hserved, ?_⟩
        rw [hserved.firstFailure?_of_error ha, Except.error.inj hstop]
      | ok run =>
        rw [runSequential_cons_ok r rs stats ht (ha ▸ heq)] at h
        obtain ⟨before, q, after, mid, stats₁, batch', rfl, hpass, hrest⟩ :=
          ih (hserved.steps.sound hs) h
        exact ⟨r :: before, q, after, mid, stats₁, batch', rfl,
          by rw [runSequential_cons_ok r before stats ht (ha ▸ heq), hpass], hrest⟩

/-- The round of a node that fails is that node. -/
theorem Served.eq_singleton_of_failed (h : Served s [id] batch s') {stop : Stop}
    (hf : firstFailure? batch = some stop) :
    ∃ x err, batch = [x] ∧ x.1.id = id ∧ x.outcome = .error err
      ∧ stop = .error (.nodeFailed id err.message) := by
  rcases h.single with ⟨rfl, _⟩ | ⟨x, rfl, hx⟩
  · exact absurd hf (by simp [firstFailure?])
  · obtain rfl : x.1.id = id := Executor.id_of_due? hx
    unfold firstFailure? at hf
    cases ho : x.outcome with
    | ok values =>
      rw [List.findSome?_cons, Ending.failure?_eq_none.mpr ⟨values, ho⟩] at hf
      exact absurd hf (by simp)
    | error err =>
      rw [List.findSome?_cons, Ending.failure?, ho] at hf
      exact ⟨x, err, rfl, rfl, ho, (Option.some.inj hf).symm⟩

/-! ## Passed rounds -/

/-- **A node that could be invoked when a sequential stage began** is invoked if the stage has passed it,
and is found to have a result if the stage lists it again. -/
theorem Rounds.of_runnable (h : Rounds P s stats (Dispatch.sequential.rounds ids) batch (s', .ok stats'))
    (hs : Moment.Sound ⟨[], s⟩) (hr : Runnable s.executor id) (hid : id ∈ ids) :
    (id ∈ batch.map fun x => x.1.id)
      ∧ ∃ c, s'.executor.controllers.find? id = some c
        ∧ c.state = if ids.count id = 1 then .succeeded else .cached := by
  induction ids generalizing s stats batch with
  | nil => exact absurd hid List.not_mem_nil
  | cons k ids ih =>
    cases h with
    | @pass _ s₁ _ stats₁ _ _ batch₁ batch' _ served passed _ _ rest =>
      have served : Served s [k] batch₁ s₁ := served
      have rest : Rounds P s₁ stats₁ (Dispatch.sequential.rounds ids) batch' (s', .ok stats') := rest
      have hsound := served.steps.sound hs
      obtain ⟨c, hc, hnone, havail⟩ := hs.coherent.wellFormed.runnable_iff.mp hr
      rw [List.map_append, List.mem_append]
      by_cases hk : k = id
      · -- the first time that it is listed it is invoked, and from then on it has a result
        subst hk
        obtain ⟨i, hi⟩ := hs.coherent.wellFormed.due?_isSome hc hnone havail
        obtain ⟨x, hx, rfl⟩ := served.mem_of_due List.mem_cons_self hi
        obtain rfl : x.1.id = k := Executor.id_of_due? hi
        obtain ⟨values, ho, hget⟩ := served.get?_of_passed passed hx
        obtain ⟨_, c₁, hc₁, hstate⟩ := served.of_mem hx
        refine ⟨Or.inl (List.mem_map_of_mem hx), _, rest.find?_of_get? hsound hget hc₁, ?_⟩
        show (if x.1.id ∈ (Dispatch.sequential.rounds ids).flatten then _ else c₁.state) = _
        rw [Dispatch.flatten_rounds, hstate, ho, List.count_cons_self]
        by_cases hagain : x.1.id ∈ ids
        · have hcount := List.count_pos_iff.mpr hagain
          rw [if_pos hagain, if_neg (by omega)]
        · rw [if_neg hagain, if_pos (by rw [List.count_eq_zero.mpr hagain])]
          rfl
      · -- it could still be invoked after another node
        have hout : id ∉ [k] := fun hm => hk (List.mem_singleton.mp hm).symm
        have hr₁ : Runnable s₁.executor id := by
          refine hsound.coherent.wellFormed.runnable_iff.mpr ⟨c, ?_, ?_, ?_⟩
          · rw [served.find?_of_not_mem hout, hc]
          · rw [served.get?_of_not_mem hout, hnone]
          · exact Controller.inputsAvailable_of_extends (served.steps.extends hs) havail
        rw [List.count_cons_of_ne hk]
        obtain ⟨hmem, hstate⟩ := ih rest hsound hr₁ ((List.mem_cons.mp hid).resolve_left (Ne.symm hk))
        exact ⟨Or.inr hmem, hstate⟩

/-! ## Runs -/

/-- Which nodes settle in a run is decided by what is invoked in it. -/
theorem Rounds.settled_iff (h : Rounds P s stats rounds batch result)
    (hw : result.1.executor.WellFormed) (id : NodeId) :
    Settled s result.1 id ↔ id ∈ (batch.map fun x => x.1.id)
      ∧ ∃ c, result.1.executor.controllers.find? id = some c
        ∧ (c.state = .succeeded ∨ c.state = .failed) := by
  unfold Settled
  simp only [hw.controller?_eq, Except.ok.injEq]
  refine and_congr_left fun _ => ?_
  rw [← h.ids_started]
  constructor
  · rintro ⟨launched, hj, hid⟩
    rw [h.started] at hj
    rwa [List.append_cancel_left hj]
  · exact fun hid => ⟨_, h.started, hid⟩

/-- **What settles in a run that stops in a sequential stage,** of what could be invoked when the stage
began: the nodes that are listed once up to the one that fails. -/
theorem settled_iff_of_failed {began mid : Session σ} {stats₁ stats₂ : RunStats}
    {before : List NodeId} {r : NodeId} {batch₁ batch₂ : List Ending} {stop : Stop}
    (hpassed : Rounds P s stats rounds batch (began, .ok stats₁))
    (hstage : Rounds P began stats₁ (Dispatch.sequential.rounds before) batch₁ (mid, .ok stats₂))
    (hserved : Served mid [r] batch₂ s') (hfailed : firstFailure? batch₂ = some stop)
    (hP : ∀ x ∈ batch₂, P x.1.node x.1.inputs x.2) (hs : Moment.Sound ⟨[], s⟩)
    (hr : Runnable began.executor id) :
    Settled s s' id ↔ (before ++ [r]).count id = 1 := by
  have hbegan := hpassed.steps.sound hs
  have hmid := hstage.steps.sound hbegan
  have hw := (hserved.steps.sound hmid).coherent.wellFormed
  have hall : Rounds P s stats (rounds ++ (Dispatch.sequential.rounds before ++ [[r]]))
      (batch ++ (batch₁ ++ batch₂)) (s', .error stop) :=
    hpassed.append (hstage.append (.fail hserved hfailed hP))
  obtain ⟨c, hc, hnone, _⟩ := hbegan.coherent.wellFormed.runnable_iff.mp hr
  have hnew : id ∉ batch.map fun x => x.1.id := by
    intro hm
    obtain ⟨result, hresult⟩ := hpassed.get?_of_mem hs hm
    rw [hresult] at hnone
    exact absurd hnone (by simp)
  obtain ⟨x, err, rfl, hxid, hx, _⟩ := hserved.eq_singleton_of_failed hfailed
  rw [hall.settled_iff hw, List.map_append, List.map_append, List.mem_append, List.mem_append,
    List.count_append, or_iff_right hnew, List.map_singleton, hxid]
  by_cases hid : id = r
  · -- the node that fails had no result, so it is not listed before
    subst hid
    have hout : id ∉ before := by
      intro hbefore
      obtain ⟨hlisted, _⟩ := hstage.of_runnable hbegan hr hbefore
      obtain ⟨result, hresult⟩ := hstage.get?_of_mem hbegan hlisted
      have hdue := (hserved.due_of_mem List.mem_cons_self).2
      rw [hxid, Executor.due?_eq_none_of_get? hresult] at hdue
      exact absurd hdue (by simp)
    obtain ⟨_, d, hd, hstate⟩ := hserved.of_mem List.mem_cons_self
    rw [hx] at hstate
    rw [hxid] at hd
    rw [List.count_eq_zero.mpr hout, List.count_singleton_self]
    exact iff_of_true ⟨Or.inr List.mem_cons_self, d, hd, Or.inr hstate⟩ rfl
  · have hout : id ∉ [r] := fun hm => hid (List.mem_singleton.mp hm)
    rw [or_iff_left hout, hserved.find?_of_not_mem hout, List.count_eq_zero.mpr hout, Nat.add_zero]
    by_cases hbefore : id ∈ before
    · obtain ⟨hlisted, d, hd, hstate⟩ := hstage.of_runnable hbegan hr hbefore
      refine ⟨fun ⟨_, d', hd', hends⟩ => ?_, fun hone => ⟨hlisted, d, hd, Or.inl ?_⟩⟩
      · obtain rfl : d = d' := Option.some.inj (hd.symm.trans hd')
        by_contra hne
        rw [hstate, if_neg hne] at hends
        exact hends.elim NodeState.noConfusion NodeState.noConfusion
      · rw [hstate, if_pos hone]
    · rw [List.count_eq_zero.mpr hbefore]
      refine iff_of_false (fun ⟨hlisted, _⟩ => hbefore ?_) (by omega)
      rw [← Dispatch.flatten_rounds .sequential before]
      exact hstage.mem_flatten hlisted

/-- **A sequential run stops at the first failure, in the middle of its stage.** What the stage lists before
the node that fails has been passed, and what it only lists afterwards is left as the stage found it. So of
the nodes that could be invoked when the stage began, those have settled that are listed once up to the one
that fails; if they are listed twice before it, they have been found to have a result. -/
theorem sequential_stage_stops_at_failure {r : NodeId} {message : String} (hs : Reachable s)
    (hd : s.executor.options.dispatch = .sequential)
    (hrun : s.perform .run = (s', .run (.error (.error (.nodeFailed r message))))) :
    ∃ logic k began stats before after,
      s.executor.logic = some logic ∧ s.executor.plan.stageIds k = before ++ r :: after
      -- the stages before
      ∧ (runStages logic (s.executor.plan.stages.take k) {}).finish s = (began, .ok stats)
      -- what the stage has come to
      ∧ (∃ launched, launches s'.journal = launches began.journal ++ launched
        ∧ ∀ l ∈ launched, l.1.id ∈ before ++ [r])
      ∧ (∃ c, s'.executor.controller? r = .ok (some c) ∧ c.state = .failed)
      ∧ (∀ id ∈ s.executor.plan.stageIds k, began.executor.Runnable id →
        (Settled s s' id ↔ (before ++ [r]).count id = 1))
      -- everything else
      ∧ ∀ id ∉ before ++ [r],
        s'.executor.controller? id = began.executor.controller? id
          ∧ s'.executor.cache.get? id = began.executor.cache.get? id := by
  have hsound := hs.sound
  have hanswer := run_finish_of_perform hrun
  cases hl : s.executor.logic with
  | none =>
    rw [run_finish_of_none hl] at hanswer
    exact absurd (Prod.mk.inj hanswer).2 (by simp)
  | some logic =>
    rw [run_finish hl] at hanswer
    obtain ⟨k, stage, began, stats, hk, htake, hstage⟩ := runStages_error s.executor.plan.stages hanswer
    -- up to the stage
    obtain ⟨batch, hpassed⟩ :=
      runStages_rounds logic.yields_trivial (s.executor.plan.stages.take k) {} hsound
    rw [htake] at hpassed
    have hbegan := hpassed.steps.sound hsound
    have hdbegan : began.executor.options.dispatch = .sequential := by
      rw [Executor.options_of_frame hpassed.steps.frame, hd]
    -- up to the node
    rw [runStage_sequential stage stats hdbegan] at hstage
    obtain ⟨before, q, after, mid, stats₂, batch₂, hrecords, hbefore, _, hserved, hfailed⟩ :=
      runSequential_error stage.records hbegan hstage
    obtain ⟨batch₁, hrounds⟩ := runSequential_rounds logic.yields_trivial before stats hbegan
    rw [hbefore] at hrounds
    have hmid := hrounds.steps.sound hbegan
    have hw := (hserved.steps.sound hmid).coherent.wellFormed
    -- the node
    obtain ⟨x, err, rfl, hxid, hx, hstop⟩ := hserved.eq_singleton_of_failed hfailed
    obtain rfl : r = q.id := (ExecutorError.nodeFailed.inj (Stop.error.inj hstop)).1
    have hrun : Rounds (fun _ _ _ => True) began stats
        (Dispatch.sequential.rounds (before.map (·.id)) ++ [[q.id]]) (batch₁ ++ [x])
        (s', .error (.error (.nodeFailed q.id message))) :=
      hrounds.append (.fail hserved hfailed fun _ _ => trivial)
    have hlisted : (Dispatch.sequential.rounds (before.map (·.id)) ++ [[q.id]]).flatten
        = before.map (·.id) ++ [q.id] := by
      rw [List.flatten_append, Dispatch.flatten_rounds]
      rfl
    refine ⟨logic, k, began, stats, before.map (·.id), after.map (·.id), rfl, ?_, htake,
      ⟨_, hrun.started, fun l hl => ?_⟩, ?_, fun id _ hr => ?_, fun id hid => ?_⟩
    · unfold Plan.stageIds
      rw [hk]
      show stage.records.map (·.id) = _
      rw [hrecords, List.map_append, List.map_cons]
    · obtain ⟨y, hy, rfl⟩ := List.mem_map.mp hl
      rw [← hlisted, hrun.node_id y hy]
      exact hrun.mem_flatten (List.mem_map_of_mem hy)
    · obtain ⟨_, c, hc, hstate⟩ := hserved.of_mem List.mem_cons_self
      rw [hx] at hstate
      exact ⟨c, by rw [hw.controller?_eq, ← hxid, hc], hstate⟩
    · exact settled_iff_of_failed hpassed hrounds hserved hfailed (fun _ _ => trivial) hsound hr
    · rw [hw.controller?_eq, hbegan.coherent.wellFormed.controller?_eq]
      obtain ⟨hfind, hget⟩ := hrun.of_not_mem (hlisted ▸ hid)
      exact ⟨by rw [hfind], hget⟩

/-- The first node of the sample has settled when the second one fails. -/
theorem sequential_stage_stops_at_failure_sample :
    ∃ s : Session Unit, Reachable s ∧ s.executor.options.dispatch = .sequential
      ∧ (s.perform .run).2 = .run (.error (.error (.nodeFailed ⟨"b"⟩ "broken")))
      ∧ Settled s (s.perform .run).1 ⟨"a"⟩ := by
  obtain ⟨s₀, hstart, hanswer, hd, hids, hrunnable⟩ : ∃ s₀ : Session Unit,
      Session.start Sample.plan Sample.graph (some (failsAt ⟨"b"⟩)) () = .ok s₀
      ∧ ((s₀.under .sequential).perform .run).2
        = .run (.error (.error (.nodeFailed ⟨"b"⟩ "broken")))
      ∧ (s₀.under .sequential).executor.options.dispatch = .sequential
      ∧ (s₀.under .sequential).executor.plan = Sample.plan
      ∧ (s₀.under .sequential).executor.Runnable ⟨"a"⟩ := by
    refine ⟨_, (by rw [start, Executor.new, Plan.records_eq]; rfl), ?_, ?_, ?_, ?_⟩
    · rfl
    · rfl
    · rfl
    · exact ⟨_, rfl, rfl, rfl⟩
  have hs : Reachable (s₀.under .sequential) := (Reachable.start hstart).perform _
  refine ⟨_, hs, hd, hanswer, ?_⟩
  obtain ⟨_, k, began, _, before, after, _, hstage, hbefore, _, _, hsettled, _⟩ :=
    sequential_stage_stops_at_failure hs hd (Prod.ext rfl hanswer)
  rw [hids] at hstage hbefore hsettled
  -- only the first stage lists the node that fails
  have hk : k = 0 := by
    have hb : (⟨"b"⟩ : NodeId) ∈ Sample.plan.stageIds k := by
      rw [hstage]
      exact List.mem_append_right _ List.mem_cons_self
    rcases k with _ | _ | k
    · rfl
    · exact absurd hb (by decide)
    · exact absurd hb List.not_mem_nil
  subst hk
  obtain ⟨rfl, _⟩ := Prod.mk.inj hbefore
  have hone : (before ++ [(⟨"b"⟩ : NodeId)]).count ⟨"a"⟩ = 1 := by
    have hstage : [⟨"a"⟩, ⟨"b"⟩] = before ++ ⟨"b"⟩ :: after := hstage
    rcases before with _ | ⟨a, _ | ⟨b, rest⟩⟩
    · exact absurd (List.cons.inj hstage).1 (by decide)
    · rw [← (List.cons.inj hstage).1]
      rfl
    · exact absurd (List.cons.inj (List.cons.inj hstage).2).2.symm (by simp)
  exact (hsettled ⟨"a"⟩ List.mem_cons_self hrunnable).mpr hone

/-- The stage of the sample is left before its second node is invoked, though nothing was missing for it. -/
theorem sequential_stage_left_unsettled :
    ∃ s : Session Unit, Reachable s ∧ s.executor.options.dispatch = .sequential
      ∧ (s.perform .run).2 = .run (.error (.error (.nodeFailed ⟨"a"⟩ "broken")))
      ∧ ⟨"a"⟩ ∈ s.executor.plan.stageIds 0 ∧ ⟨"b"⟩ ∈ s.executor.plan.stageIds 0
      ∧ s.executor.Runnable ⟨"b"⟩
      ∧ ¬ Settled s (s.perform .run).1 ⟨"b"⟩ := by
  obtain ⟨s₀, hstart, hd, hanswer, ha, hb, hrunnable, hstate⟩ : ∃ s₀ : Session Unit,
      Session.start Sample.plan Sample.graph (some (failsAt ⟨"a"⟩)) () = .ok s₀
      ∧ (s₀.under .sequential).executor.options.dispatch = .sequential
      ∧ ((s₀.under .sequential).perform .run).2
        = .run (.error (.error (.nodeFailed ⟨"a"⟩ "broken")))
      ∧ ⟨"a"⟩ ∈ (s₀.under .sequential).executor.plan.stageIds 0
      ∧ ⟨"b"⟩ ∈ (s₀.under .sequential).executor.plan.stageIds 0
      ∧ (s₀.under .sequential).executor.Runnable ⟨"b"⟩
      ∧ ¬ Settled (s₀.under .sequential) ((s₀.under .sequential).perform .run).1 ⟨"b"⟩ := by
    refine ⟨_, (by rw [start, Executor.new, Plan.records_eq]; rfl), ?_, ?_, ?_, ?_, ?_, ?_⟩
    · rfl
    · rfl
    · exact List.mem_cons_self
    · exact List.mem_cons_of_mem _ List.mem_cons_self
    · exact ⟨_, rfl, rfl, rfl⟩
    · rintro ⟨_, c, hc, hends⟩
      obtain rfl := Option.some.inj (Except.ok.inj hc)
      exact hends.elim NodeState.noConfusion NodeState.noConfusion
  exact ⟨_, (Reachable.start hstart).perform _, hd, hanswer, ha, hb, hrunnable, hstate⟩

end Session

end StageFlow
