import StageFlow.Proofs.Calls

/-!
# Rounds

A run goes in rounds. A concurrent stage is one round; in a sequential stage each entry is a round of its
own. A round serves its entries from where the one before has left off, so that what is claimed of runs in
either dispatch, of whatever plan, is an induction over rounds.

## Contents
- **Rounds.** `Dispatch.rounds`, what is served together, and `Rounds`, a run over rounds.
- **Runs.** Stages and plans go in rounds.
- **Invocations.** No node is invoked in two rounds, since none fails and is passed.
- **One node.** What becomes of it in a run: what is listed, what is invoked, and what has a result.
- **Counts.** `Complete`: a round in which no entry waits launches all its entries without a result.
-/

namespace StageFlow

open Executor (Invocation NodeRun)

/-! ## Rounds -/

/-- What is served together of the entries of a stage. -/
def Dispatch.rounds : Dispatch → List NodeId → List (List NodeId)
  | concurrent, ids => [ids]
  | sequential, ids => ids.map fun id => [id]

/-- What is served together in a run. -/
def Plan.rounds (p : Plan) (d : Dispatch) : List (List NodeId) :=
  p.stages.flatMap fun stage => d.rounds (stage.records.map (·.id))

/-- The rounds of a stage have its entries. -/
theorem Dispatch.flatten_rounds (d : Dispatch) (ids : List NodeId) : (d.rounds ids).flatten = ids := by
  cases d with
  | concurrent => exact List.append_nil ids
  | sequential =>
    induction ids with
    | nil => rfl
    | cons id ids ih => exact congrArg (List.cons id) ih

/-- The rounds of a run have the entries of the plan. -/
theorem Plan.flatten_rounds (p : Plan) (d : Dispatch) :
    (p.rounds d).flatten = p.listed.map (·.id) := by
  unfold rounds listed
  induction p.stages with
  | nil => rfl
  | cons stage stages ih =>
    rw [List.flatMap_cons, List.flatMap_cons, List.flatten_append, List.map_append, d.flatten_rounds, ih]

namespace Session

variable {σ : Type} {s s₁ s' : Session σ} {stats stats₁ stats' : RunStats}
variable {id : NodeId} {ids : List NodeId} {rounds rounds' : List (List NodeId)} {batch batch' : List Ending}
variable {P : NodeDescriptor → Object → Except String Object → Prop}
variable {result : Session σ × Except Stop RunStats} {logic : Logic σ}

/-- A run over rounds, with all that is invoked in it. Each round is served, up to the first one that has a
failure; `P` holds of all results. -/
inductive Rounds (P : NodeDescriptor → Object → Except String Object → Prop) :
    Session σ → RunStats → List (List NodeId) → List Ending → Session σ × Except Stop RunStats → Prop
  | done (s : Session σ) (stats : RunStats) : Rounds P s stats [] [] (s, .ok stats)
  | pass {s s₁ : Session σ} {stats stats₁ : RunStats} {ids : List NodeId}
      {rounds : List (List NodeId)} {batch batch' : List Ending}
      {result : Session σ × Except Stop RunStats} (served : Served s ids batch s₁)
      (passed : firstFailure? batch = none)
      (counts : Counts s.executor ids batch.length stats stats₁)
      (yields : ∀ x ∈ batch, P x.1.node x.1.inputs x.2)
      (rest : Rounds P s₁ stats₁ rounds batch' result) :
      Rounds P s stats (ids :: rounds) (batch ++ batch') result
  | fail {s s' : Session σ} {stats : RunStats} {ids : List NodeId} {rounds : List (List NodeId)}
      {batch : List Ending} {stop : Stop} (served : Served s ids batch s')
      (failed : firstFailure? batch = some stop)
      (yields : ∀ x ∈ batch, P x.1.node x.1.inputs x.2) :
      Rounds P s stats (ids :: rounds) batch (s', .error stop)

namespace Rounds

/-- A run that has passed its rounds goes on with the next ones. -/
theorem append (h : Rounds P s stats rounds batch (s₁, .ok stats₁))
    (h' : Rounds P s₁ stats₁ rounds' batch' result) :
    Rounds P s stats (rounds ++ rounds') (batch ++ batch') result := by
  generalize hend : (s₁, Except.ok stats₁) = end₁ at h
  induction h with
  | done s stats =>
    obtain ⟨rfl, hstats⟩ := Prod.mk.inj hend
    obtain rfl := Except.ok.inj hstats
    exact h'
  | pass served passed counts yields _ ih =>
    rw [List.cons_append, List.append_assoc]
    exact .pass served passed counts yields (ih hend)
  | fail _ _ _ => exact absurd (Prod.mk.inj hend).2 (by simp)

/-- A run that has failed leaves out the next rounds. -/
theorem stop {stop : Stop} (h : Rounds P s stats rounds batch (s₁, .error stop))
    (rounds' : List (List NodeId)) : Rounds P s stats (rounds ++ rounds') batch (s₁, .error stop) := by
  generalize hend : (s₁, Except.error stop) = end₁ at h ⊢
  induction h with
  | done _ _ => exact absurd (Prod.mk.inj hend).2 (by simp)
  | pass served passed counts yields _ ih => exact .pass served passed counts yields (ih hend)
  | fail served failed yields => exact .fail served failed yields

theorem steps (h : Rounds P s stats rounds batch result) : Steps ⟨[], s⟩ ⟨[], result.1⟩ := by
  induction h with
  | done s stats => exact .refl
  | pass served _ _ _ _ ih => exact served.steps.trans ih
  | fail served _ _ => exact served.steps

/-- What is invoked in a run is what is started in it. -/
theorem started (h : Rounds P s stats rounds batch result) :
    launches result.1.journal = launches s.journal ++ batch.map fun x => (x.1.node, x.1.inputs) := by
  induction h with
  | done s stats => exact (List.append_nil _).symm
  | pass served _ _ _ _ ih => rw [ih, served.started, List.map_append, List.append_assoc]
  | fail served _ _ => exact served.started

end Rounds

/-! ## Runs -/

/-- A stage that is over in one go is one round. -/
theorem Rounds.single (served : Served s ids batch s') (stats : RunStats)
    (counts : firstFailure? batch = none → Counts s.executor ids batch.length stats stats')
    (yields : ∀ x ∈ batch, P x.1.node x.1.inputs x.2) :
    Rounds P s stats [ids] batch (s', stageAnswer batch stats') := by
  unfold stageAnswer
  cases hf : firstFailure? batch with
  | none =>
    rw [← List.append_nil batch]
    exact .pass served hf (counts hf) yields (.done s' stats')
  | some stop => exact .fail served hf yields

/-- Sequential entries are rounds of their own. -/
theorem runSequential_rounds (hl : logic.Yields P) (rs : List NodeRecord) (stats : RunStats)
    (hs : Moment.Sound ⟨[], s⟩) :
    ∃ batch, Rounds P s stats (Dispatch.sequential.rounds (rs.map (·.id))) batch
      ((runSequential logic rs stats).finish s) := by
  induction rs generalizing s stats with
  | nil => exact ⟨[], .done s stats⟩
  | cons r rs ih =>
    cases ht : s.executor.tracks r.id with
    | false =>
      have hnone := hs.coherent.wellFormed.tracks_eq_false_iff.mp ht
      obtain ⟨batch, hrest⟩ := ih stats hs
      rw [runSequential_cons_untracked r rs stats ht]
      exact ⟨batch, .pass (.untracked hnone) rfl (.skip ht (.nil _ stats))
        (fun _ hx => absurd hx List.not_mem_nil) hrest⟩
    | true =>
      obtain ⟨c, hc⟩ := hs.coherent.wellFormed.tracks_iff.mp ht
      obtain ⟨s₁, batch, heq, hserved, hP⟩ := runWith_eq hl hs hc
      cases ha : nodeAnswer s.executor r.id batch with
      | error stop =>
        rw [runSequential_cons_error r rs stats ht (ha ▸ heq)]
        exact ⟨batch, .fail hserved (hserved.firstFailure?_of_error ha) hP⟩
      | ok run =>
        obtain ⟨hf, hcount⟩ := hserved.counts_of_ok ht ha
        obtain ⟨batch', hrest⟩ := ih (stats.count run) (hserved.steps.sound hs)
        rw [runSequential_cons_ok r rs stats ht (ha ▸ heq)]
        exact ⟨batch ++ batch', .pass hserved hf (hcount (.nil _ _)) hP hrest⟩

/-- A stage goes in the rounds of its dispatch. -/
theorem runStage_rounds (hl : logic.Yields P) (stage : Stage) (stats : RunStats)
    (hs : Moment.Sound ⟨[], s⟩) :
    ∃ batch, Rounds P s stats (s.executor.options.dispatch.rounds (stage.records.map (·.id))) batch
      ((runStage logic stage stats).finish s) := by
  cases hd : s.executor.options.dispatch with
  | concurrent =>
    obtain ⟨s', batch, stats', heq, hserved, hcounts, _, hP⟩ :=
      runConcurrent_eq hl stage.records stats hs
    rw [runStage_concurrent stage stats hd, heq]
    exact ⟨batch, .single hserved stats (fun _ => hcounts) hP⟩
  | sequential =>
    rw [runStage_sequential stage stats hd]
    exact runSequential_rounds hl stage.records stats hs

/-- **A run over stages goes in rounds,** in either dispatch. -/
theorem runStages_rounds (hl : logic.Yields P) (stages : List Stage) (stats : RunStats)
    (hs : Moment.Sound ⟨[], s⟩) :
    ∃ batch, Rounds P s stats ((Plan.mk stages).rounds s.executor.options.dispatch) batch
      ((runStages logic stages stats).finish s) := by
  induction stages generalizing s stats with
  | nil => exact ⟨[], .done s stats⟩
  | cons stage stages ih =>
    obtain ⟨batch, hstage⟩ := runStage_rounds hl stage stats hs
    show ∃ batch, Rounds P s stats (s.executor.options.dispatch.rounds (stage.records.map (·.id))
      ++ (Plan.mk stages).rounds s.executor.options.dispatch) batch _
    cases hr : (runStage logic stage stats).finish s with
    | mk s₁ answer =>
      rw [hr] at hstage
      cases answer with
      | error stop =>
        rw [runStages_cons_error stage stages hr]
        exact ⟨batch, hstage.stop _⟩
      | ok stats₁ =>
        have hsteps := hstage.steps
        obtain ⟨batch', hrest⟩ := ih stats₁ (hsteps.sound hs)
        rw [Executor.options_of_frame hsteps.frame] at hrest
        rw [runStages_cons_ok stage stages hr]
        exact ⟨batch ++ batch', hstage.append hrest⟩

/-- **A run goes in the rounds of its plan.** -/
theorem run_rounds (h : s.executor.logic = some logic) (hl : logic.Yields P)
    (hs : Moment.Sound ⟨[], s⟩) :
    ∃ batch, Rounds P s {} (s.executor.plan.rounds s.executor.options.dispatch) batch
      (run.finish s) := by
  rw [run_finish h]
  exact runStages_rounds hl s.executor.plan.stages {} hs

/-- A run that has not failed had a logic, and has passed the rounds of its plan. -/
theorem Reachable.rounds_of_ok (h : Reachable s) (hrun : s.perform .run = (s', .run (.ok stats))) :
    ∃ logic batch, s.executor.logic = some logic
      ∧ Rounds (fun _ _ _ => True) s {} (s.executor.plan.rounds s.executor.options.dispatch) batch
          (s', .ok stats) := by
  have hanswer := run_finish_of_perform hrun
  cases hl : s.executor.logic with
  | none =>
    rw [run_finish_of_none hl] at hanswer
    exact absurd (Prod.mk.inj hanswer).2 (by simp)
  | some logic =>
    obtain ⟨batch, hrounds⟩ := run_rounds hl logic.yields_trivial h.sound
    rw [hanswer] at hrounds
    exact ⟨logic, batch, rfl, hrounds⟩

/-! ## Invocations -/

/-- A node whose invocation has not failed has a result from then on. -/
theorem Served.get?_of_passed (h : Served s ids batch s') (hok : firstFailure? batch = none)
    {x : Ending} (hx : x ∈ batch) :
    ∃ values, x.outcome = .ok values ∧ s'.executor.cache.get? x.1.id = some (.ofObject values) := by
  obtain ⟨values, ho⟩ := firstFailure?_eq_none.mp hok x hx
  obtain ⟨hget, _⟩ := h.of_mem hx
  rw [Ending.entry?, ho] at hget
  exact ⟨values, ho, hget⟩

/-- The node of an invocation in a stage bears its identifier. -/
theorem Served.node_id (h : Served s ids batch s') {x : Ending} (hx : x ∈ batch) :
    x.1.node.id = x.1.id := by
  obtain ⟨_, node, _, hn, _, _, heq⟩ := Executor.due?_eq_some.mp (h.due_of_mem hx).2
  have hnode : node.id = x.1.id := by simpa using List.find?_some hn
  rw [← hnode, heq]

namespace Rounds

theorem node_id (h : Rounds P s stats rounds batch result) : ∀ x ∈ batch, x.1.node.id = x.1.id := by
  induction h with
  | done s stats => exact fun x hx => absurd hx List.not_mem_nil
  | pass served _ _ _ _ ih =>
    intro x hx
    exact (List.mem_append.mp hx).elim served.node_id (ih x)
  | fail served _ _ => exact fun x hx => served.node_id hx

/-- The identifiers that the logic sees are those that the run is about. -/
theorem ids_started (h : Rounds P s stats rounds batch result) :
    (batch.map fun x => (x.1.node, x.1.inputs)).map (fun x => x.1.id) = batch.map fun x => x.1.id := by
  rw [List.map_map]
  exact List.map_congr_left h.node_id

/-- A node that is invoked in a run had no result when the run began. -/
theorem get?_eq_none (h : Rounds P s stats rounds batch result) (hs : Moment.Sound ⟨[], s⟩) :
    ∀ x ∈ batch, s.executor.cache.get? x.1.id = none := by
  have hdue : ∀ {s s' : Session σ} {ids batch}, Served s ids batch s' →
      ∀ x ∈ batch, s.executor.cache.get? x.1.id = none := by
    intro s s' ids batch served x hx
    obtain ⟨_, _, _, _, hnone, _⟩ := Executor.due?_eq_some.mp (served.due_of_mem hx).2
    exact hnone
  induction h with
  | done s stats => exact fun x hx => absurd hx List.not_mem_nil
  | @pass s s₁ _ _ _ _ _ _ _ served _ _ _ _ ih =>
    intro x hx
    rcases List.mem_append.mp hx with hx | hx
    · exact hdue served x hx
    · -- a result that it had before would have stayed
      have hlater := ih (served.steps.sound hs) x hx
      rw [Option.eq_none_iff_forall_ne_some]
      intro r hr
      rw [served.steps.extends hs _ r hr] at hlater
      exact absurd hlater (by simp)
  | fail served _ _ => exact hdue served

/-- **No node is invoked twice in a run.** -/
theorem nodup (h : Rounds P s stats rounds batch result) (hs : Moment.Sound ⟨[], s⟩) :
    (batch.map fun x => x.1.id).Nodup := by
  induction h with
  | done s stats => exact List.nodup_nil
  | @pass s s₁ _ _ _ _ _ _ _ served passed _ _ rest ih =>
    have hsound := served.steps.sound hs
    rw [List.map_append, List.nodup_append]
    refine ⟨served.nodup, ih hsound, ?_⟩
    intro id hid id' hid' heq
    obtain ⟨x, hx, rfl⟩ := List.mem_map.mp hid
    obtain ⟨y, hy, rfl⟩ := List.mem_map.mp hid'
    -- a round that is passed leaves results of its nodes
    obtain ⟨values, _, hget⟩ := served.get?_of_passed passed hx
    have hnone := rest.get?_eq_none hsound y hy
    rw [← heq, hget] at hnone
    exact absurd hnone (by simp)
  | fail served _ _ => exact served.nodup

end Rounds

/-! ## One node -/

/-- What no round lists is left alone. -/
theorem Rounds.of_not_mem (h : Rounds P s stats rounds batch result) (hid : id ∉ rounds.flatten) :
    result.1.executor.controllers.find? id = s.executor.controllers.find? id
      ∧ result.1.executor.cache.get? id = s.executor.cache.get? id := by
  induction h with
  | done s stats => exact ⟨rfl, rfl⟩
  | pass served _ _ _ _ ih =>
    rw [List.flatten_cons, List.mem_append, not_or] at hid
    obtain ⟨hfind, hget⟩ := ih hid.2
    exact ⟨hfind.trans (served.find?_of_not_mem hid.1), hget.trans (served.get?_of_not_mem hid.1)⟩
  | fail served _ _ =>
    rw [List.flatten_cons, List.mem_append, not_or] at hid
    exact ⟨served.find?_of_not_mem hid.1, served.get?_of_not_mem hid.1⟩

/-- What is not invoked keeps its entry, if it has one. -/
theorem Rounds.get?_of_not_invoked (h : Rounds P s stats rounds batch result)
    (hid : id ∉ batch.map fun x => x.1.id) :
    result.1.executor.cache.get? id = s.executor.cache.get? id := by
  induction h with
  | done s stats => rfl
  | pass served _ _ _ _ ih =>
    rw [List.map_append, List.mem_append, not_or] at hid
    exact (ih hid.2).trans (served.get?_of_not_invoked hid.1)
  | fail served _ _ => exact served.get?_of_not_invoked hid

/-- What is invoked is listed. -/
theorem Rounds.mem_flatten (h : Rounds P s stats rounds batch result)
    (hid : id ∈ batch.map fun x => x.1.id) : id ∈ rounds.flatten := by
  induction h with
  | done s stats => exact absurd hid List.not_mem_nil
  | pass served _ _ _ _ ih =>
    rw [List.map_append, List.mem_append] at hid
    rw [List.flatten_cons, List.mem_append]
    rcases hid with hid | hid
    · obtain ⟨x, hx, rfl⟩ := List.mem_map.mp hid
      exact Or.inl (served.due_of_mem hx).1
    · exact Or.inr (ih hid)
  | fail served _ _ =>
    obtain ⟨x, hx, rfl⟩ := List.mem_map.mp hid
    exact List.mem_append_left _ (served.due_of_mem hx).1

/-- What has been invoked in passed rounds has a result. -/
theorem Rounds.get?_of_mem (h : Rounds P s stats rounds batch (s', .ok stats'))
    (hs : Moment.Sound ⟨[], s⟩) (hid : id ∈ batch.map fun x => x.1.id) :
    ∃ r, s'.executor.cache.get? id = some r := by
  generalize hend : (s', Except.ok stats') = result at h
  induction h with
  | done s stats => exact absurd hid List.not_mem_nil
  | fail _ _ _ => exact absurd (Prod.mk.inj hend).2 (by simp)
  | pass served passed _ _ rest ih =>
    have hsound := served.steps.sound hs
    rw [List.map_append, List.mem_append] at hid
    rcases hid with hid | hid
    · -- the result stays through the other rounds
      obtain ⟨x, hx, rfl⟩ := List.mem_map.mp hid
      obtain ⟨values, _, hget⟩ := served.get?_of_passed passed hx
      exact ⟨_, hend ▸ rest.steps.extends hsound _ _ hget⟩
    · exact ih hsound hid hend

/-- A node that has a result is found to have it whenever it is listed. -/
theorem Rounds.find?_of_get? (h : Rounds P s stats rounds batch (s', .ok stats'))
    (hs : Moment.Sound ⟨[], s⟩) {r : NodeResult} (hr : s.executor.cache.get? id = some r)
    {c : Controller} (hc : s.executor.controllers.find? id = some c) :
    s'.executor.controllers.find? id
      = some { c with state := if id ∈ rounds.flatten then .cached else c.state } := by
  generalize hend : (s', Except.ok stats') = result at h
  induction h generalizing c with
  | done s stats =>
    obtain ⟨rfl, _⟩ := Prod.mk.inj hend
    simpa using hc
  | fail _ _ _ => exact absurd (Prod.mk.inj hend).2 (by simp)
  | @pass s s₁ _ _ ids rounds batch _ _ served _ _ _ _ ih =>
    obtain rfl : c.id = id := Executor.id_of_find? hc
    have hnone : endingOf? batch c.id = none := by
      rw [endingOf?_eq_none]
      intro hm
      obtain ⟨x, hx, hxid⟩ := List.mem_map.mp hm
      have hdue := (served.due_of_mem hx).2
      rw [hxid, Executor.due?_eq_none_of_get? hr] at hdue
      exact absurd hdue (by simp)
    have hc₁ := served.find? c.id
    rw [hc, Option.map_some, servedState, hnone] at hc₁
    simp only [Cache.has_iff.mpr ⟨r, hr⟩, and_true] at hc₁
    rw [ih (served.steps.sound hs) (served.steps.extends hs _ _ hr) hc₁ hend]
    by_cases hid : c.id ∈ ids <;> simp [hid]

/-! ## Counts -/

/-- What is invoked in a stage are those of its entries that are due, each at its first occurrence. -/
theorem Served.ids_eq (h : Served s ids batch s') :
    (batch.map fun x => x.1.id)
      = (distinctFrom [] ids).filter fun id => (s.executor.due? id).isSome := by
  have hguard : (fun id => (s.executor.due? id).map Invocation.id)
      = Option.guard fun id => (s.executor.due? id).isSome := by
    funext id
    cases hd : s.executor.due? id with
    | none => simp [Option.guard, hd]
    | some i => simp [Option.guard, hd, Executor.id_of_due? hd]
  have hfst : (batch.map fun x => x.1.id) = (batch.map Prod.fst).map Invocation.id := by
    rw [List.map_map]
    rfl
  rw [hfst, h.due, List.map_filterMap, hguard, List.filterMap_eq_filter]

/-- What is invoked in a stage are entries of it that have no result. -/
theorem Served.sublist (h : Served s ids batch s') (hw : s.executor.WellFormed) :
    (batch.map fun x => x.1.id).Sublist
      (ids.filter fun id => s.executor.tracks id && !s.executor.cache.has id) := by
  have hids : (batch.map fun x => x.1.id).Sublist ids := by
    rw [h.ids_eq]
    exact List.filter_sublist.trans (distinctFrom_sublist [] ids)
  have hnew : ∀ id ∈ batch.map fun x => x.1.id,
      (s.executor.tracks id && !s.executor.cache.has id) = true := by
    intro id hid
    obtain ⟨x, hx, rfl⟩ := List.mem_map.mp hid
    obtain ⟨c, _, hc, _, hnone, _⟩ := Executor.due?_eq_some.mp (h.due_of_mem hx).2
    rw [hw.tracks_iff.mpr ⟨c, hc⟩, Cache.has_eq_false_iff.mpr hnone]
    rfl
  have hfilter := hids.filter fun id => s.executor.tracks id && !s.executor.cache.has id
  rw [List.filter_eq_self.mpr hnew] at hfilter
  exact hfilter

/-- No entry stops waiting. -/
theorem Served.waiting_le (h : Served s ids batch s') (hw : s.executor.WellFormed)
    (hn : Counts s.executor ids batch.length stats stats') : stats.waiting ≤ stats'.waiting := by
  have hle := (h.sublist hw).length_le
  rw [List.length_map, ← List.countP_eq_length_filter] at hle
  have hwaiting := hn.waiting
  omega

/-- A round in which nothing fails and no entry waits: those without a result are all launched, and none of
them comes twice. -/
structure Complete (s : Session σ) (ids : List NodeId) (batch : List Ending) (s' : Session σ) :
    Prop where
  served : Served s ids batch s'
  passed : firstFailure? batch = none
  ids_eq : (batch.map fun x => x.1.id)
    = ids.filter fun id => s.executor.tracks id && !s.executor.cache.has id

theorem Rounds.waiting_le (h : Rounds P s stats rounds batch (s', .ok stats'))
    (hs : Moment.Sound ⟨[], s⟩) : stats.waiting ≤ stats'.waiting := by
  generalize hend : (s', Except.ok stats') = result at h
  induction h with
  | done s stats => exact Nat.le_of_eq (congrArg _ (Except.ok.inj (Prod.mk.inj hend).2).symm)
  | pass served _ counts _ _ ih =>
    exact Nat.le_trans (served.waiting_le hs.coherent.wellFormed counts)
      (ih (served.steps.sound hs) hend)
  | fail _ _ _ => exact absurd (Prod.mk.inj hend).2 (by simp)

/-- **If nothing waits in a run,** its first round is complete, and nothing waits in the others. -/
theorem Rounds.complete (served : Served s ids batch s₁) (passed : firstFailure? batch = none)
    (counts : Counts s.executor ids batch.length stats stats₁)
    (rest : Rounds P s₁ stats₁ rounds batch' (s', .ok stats')) (hs : Moment.Sound ⟨[], s⟩)
    (hwait : stats'.waiting = stats.waiting) :
    Complete s ids batch s₁ ∧ stats'.waiting = stats₁.waiting := by
  have hw := hs.coherent.wellFormed
  have hle := served.waiting_le hw counts
  have hle' := rest.waiting_le (served.steps.sound hs)
  refine ⟨⟨served, passed, (served.sublist hw).eq_of_length ?_⟩, by omega⟩
  rw [List.length_map, ← List.countP_eq_length_filter]
  have hwaiting := counts.waiting
  omega

end Session

end StageFlow
