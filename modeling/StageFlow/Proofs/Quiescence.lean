import StageFlow.Proofs.Recovery
import StageFlow.Proofs.Statistics

/-!
# Quiescence

When a run has nothing to do. A node that is skipped early in a run may become ready through a result that is
stored later in it, so that one run after another may find something to invoke. A run that has invoked nothing
has left nothing due, though, and neither has one in which nothing waited; from there on runs have the same
counts, in whatever dispatch, and change nothing.

## Contents
- **Idle executors.** `Executor.Idle`, and that a run of one is like a stage without invocations.
- **Coming to rest.** After which runs an executor is idle.
- **At rest.** `Rests`, what later runs leave as it is.
- **Runs.** `quiescence_is_stable`.
-/

namespace StageFlow

/-- Nothing is due of these nodes. -/
def Executor.Idle {σ : Type} (e : Executor σ) (ids : List NodeId) : Prop := ∀ id ∈ ids, e.due? id = none

/-- Of these nodes each that has a result has been found to have it. -/
def Executor.Seen {σ : Type} (e : Executor σ) (ids : List NodeId) : Prop :=
  ∀ id ∈ ids, ∀ c, e.controllers.find? id = some c → e.cache.has id = true → c.state = .cached

/-- A run, or a change of options between two runs. -/
def Call.Reruns : Call → Prop
  | .run | .withOptions _ => True
  | .runNode _ | .clear | .clearNode _ => False

namespace Session

variable {σ : Type} {s s₁ s' t t' : Session σ} {stats stats' : RunStats} {ids ids' : List NodeId}
variable {rounds : List (List NodeId)} {batch : List Ending} {logic : Logic σ}
variable {P : NodeDescriptor → Object → Except String Object → Prop}
variable {result : Session σ × Except Stop RunStats}

/-! ## Idle executors -/

/-- In a stage of which nothing is due nothing is invoked. -/
theorem Served.eq_nil_of_idle (h : Served s ids batch s') (hidle : s.executor.Idle ids) : batch = [] := by
  rw [List.eq_nil_iff_forall_not_mem]
  intro x hx
  obtain ⟨hid, hdue⟩ := h.due_of_mem hx
  rw [hidle x.1.id hid] at hdue
  exact absurd hdue (by simp)

/-- If nothing is invoked in a stage, nothing of it was due. -/
theorem Served.idle (h : Served s ids [] s') : s.executor.Idle ids := by
  intro id hid
  rw [Option.eq_none_iff_forall_ne_some]
  intro i hi
  obtain ⟨x, hx, _⟩ := h.mem_of_due hid hi
  exact List.not_mem_nil hx

theorem Served.cache_eq (h : Served s ids [] s') : s'.executor.cache = s.executor.cache :=
  Cache.ext_get? h.cache

/-- Stages without invocations make one stage, even if they list the same nodes. -/
theorem Served.append_idle (h : Served s ids [] s₁) (h' : Served s₁ ids' [] s') :
    Served s (ids ++ ids') [] s' where
  due := by
    symm
    apply List.filterMap_eq_nil_iff.mpr
    intro id hid
    have hsame := Executor.due?_of_frame h.steps.frame h.cache_eq id
    rcases List.mem_append.mp (mem_distinctFrom.mp hid).1 with hid | hid
    · exact h.idle id hid
    · rw [← hsame]
      exact h'.idle id hid
  steps := h.steps.trans h'.steps
  started := by
    rw [h'.started, h.started]
    exact List.append_nil _
  cache k := (h'.cache k).trans (h.cache k)
  find? k := by
    rw [h'.find?, h.find?, Option.map_map]
    congr 1
    funext c
    simp only [Function.comp_apply, servedState, endingOf?, List.find?_nil, h.cache_eq, List.mem_append]
    by_cases hhas : s.executor.cache.has c.id = true
    · by_cases hid : c.id ∈ ids <;> by_cases hid' : c.id ∈ ids' <;> simp [hid, hid', hhas]
    · simp [hhas]

/-- What two stages without invocations add. -/
theorem Counts.append_idle {e : Executor σ} {stats₁ : RunStats} (h : Counts e ids 0 stats stats₁)
    (h' : Counts e ids' 0 stats₁ stats') : Counts e (ids ++ ids') 0 stats stats' where
  invoked := h'.invoked.trans h.invoked
  cached := by rw [h'.cached, h.cached, List.countP_append, Nat.add_assoc]
  waiting := by rw [h'.waiting, List.countP_append, ← Nat.add_assoc, ← h.waiting]; rfl

/-- If all that has a controller has a result, it is counted as cached. -/
theorem Counts.eq_of_has {e : Executor σ} (h : Counts e ids 0 {} stats)
    (hhas : ∀ id ∈ ids, e.tracks id = true → e.cache.has id = true) :
    stats = ⟨0, ids.countP e.tracks, 0⟩ := by
  apply RunStats.ext
  · exact h.invoked
  · rw [h.cached, Nat.zero_add]
    apply List.countP_congr
    intro id hid
    rw [Bool.and_eq_true]
    exact and_iff_left_of_imp (hhas id hid)
  · have hnone : ids.countP (fun id => e.tracks id && !e.cache.has id) = 0 := by
      rw [List.countP_eq_zero]
      intro id hid hopen
      rw [Bool.and_eq_true, Bool.not_eq_true'] at hopen
      rw [hhas id hid hopen.1] at hopen
      exact Bool.noConfusion hopen.2
    have hwaiting := h.waiting
    rw [hnone] at hwaiting
    exact hwaiting

/-- **A run without invocations is like a stage without invocations.** -/
theorem Rounds.served_of_nil (h : Rounds P s stats rounds [] (s', .ok stats')) :
    Served s rounds.flatten [] s' ∧ Counts s.executor rounds.flatten 0 stats stats' := by
  generalize hbatch : ([] : List Ending) = batch at h
  generalize hend : (s', Except.ok stats') = result at h
  induction h with
  | done s stats =>
    obtain ⟨rfl, hstats⟩ := Prod.mk.inj hend
    obtain rfl := Except.ok.inj hstats
    exact ⟨.nil _, .nil _ _⟩
  | pass served _ counts _ _ ih =>
    obtain ⟨rfl, rfl⟩ := List.append_eq_nil_iff.mp hbatch.symm
    obtain ⟨hserved, hcounts⟩ := ih rfl hend
    refine ⟨served.append_idle hserved, counts.append_idle (hcounts.congr ?_)⟩
    intro k _
    exact ⟨Executor.tracks_of_frame served.steps.frame k, fun _ => by rw [served.cache_eq]⟩
  | fail _ _ _ => exact absurd (Prod.mk.inj hend).2 (by simp)

/-- A run of which nothing is due invokes nothing, and does not fail. -/
theorem Rounds.of_idle (h : Rounds P s stats rounds batch result)
    (hidle : s.executor.Idle rounds.flatten) :
    batch = [] ∧ ∃ s' stats', result = (s', .ok stats') := by
  induction h with
  | done s stats => exact ⟨rfl, s, stats, rfl⟩
  | @pass s s₁ _ _ ids rounds batch batch' _ served _ _ _ _ ih =>
    obtain rfl := served.eq_nil_of_idle fun id hid => hidle id (List.mem_append_left _ hid)
    -- what is due has not changed
    have hrest : s₁.executor.Idle rounds.flatten := by
      intro id hid
      rw [Executor.due?_of_frame served.steps.frame served.cache_eq]
      exact hidle id (List.mem_append_right _ hid)
    obtain ⟨rfl, hok⟩ := ih hrest
    exact ⟨rfl, hok⟩
  | fail served failed _ =>
    obtain rfl := served.eq_nil_of_idle fun id hid => hidle id (List.mem_append_left _ hid)
    exact absurd failed (by simp [firstFailure?])

/-- **The run of an idle executor** finds what has a result, and does nothing else. -/
theorem run_of_idle (hs : Moment.Sound ⟨[], s⟩) (hl : s.executor.logic = some logic)
    (hidle : s.executor.Idle (s.executor.plan.listed.map (·.id))) :
    ∃ s' stats', run.finish s = (s', .ok stats')
      ∧ Served s (s.executor.plan.listed.map (·.id)) [] s'
      ∧ Counts s.executor (s.executor.plan.listed.map (·.id)) 0 {} stats' := by
  obtain ⟨batch, hrounds⟩ := run_rounds hl logic.yields_trivial hs
  rw [← Plan.flatten_rounds s.executor.plan s.executor.options.dispatch] at hidle ⊢
  obtain ⟨rfl, s', stats', hanswer⟩ := hrounds.of_idle hidle
  rw [hanswer] at hrounds
  obtain ⟨hserved, hcounts⟩ := hrounds.served_of_nil
  exact ⟨s', stats', hanswer, hserved, hcounts⟩

/-! ## Coming to rest -/

/-- After a stage without invocations nothing is due, and what has a result has been found to have it. -/
theorem Served.rests (h : Served s ids [] s') : s'.executor.Idle ids ∧ s'.executor.Seen ids := by
  constructor
  · intro id hid
    rw [Executor.due?_of_frame h.steps.frame h.cache_eq]
    exact h.idle id hid
  · intro id hid c hc hhas
    rw [h.find?, Option.map_eq_some_iff] at hc
    rw [h.cache_eq] at hhas
    obtain ⟨d, hd, rfl⟩ := hc
    obtain rfl : d.id = id := Executor.id_of_find? hd
    exact if_pos ⟨hid, hhas⟩

/-- A stage without invocations that is gone through again changes nothing. -/
theorem Served.controllers_eq (h : Served s ids [] s') (hw : s.executor.WellFormed)
    (hseen : s.executor.Seen ids) : s'.executor.controllers = s.executor.controllers := by
  apply hw.controllers_eq h.steps.frame
  intro id c c' hc hc'
  obtain rfl : c.id = id := Executor.id_of_find? hc
  rw [h.find?, hc, Option.map_some, Option.some.injEq] at hc'
  rw [← hc']
  show servedState s.executor ids [] c = c.state
  by_cases hlisted : c.id ∈ ids ∧ s.executor.cache.has c.id = true
  · rw [hseen c.id hlisted.1 c hc hlisted.2]
    exact if_pos hlisted
  · exact if_neg hlisted

/-- After a run in which nothing waited each listed node with a controller has a result. -/
theorem Rounds.has_of_no_waiting (h : Rounds P s stats rounds batch (s', .ok stats'))
    (hs : Moment.Sound ⟨[], s⟩) (hwait : stats'.waiting = stats.waiting) {id : NodeId}
    (hid : id ∈ rounds.flatten) (ht : s.executor.tracks id = true) :
    s'.executor.cache.has id = true := by
  rw [Cache.has_iff]
  cases hr : s.executor.cache.get? id with
  | some r => exact ⟨r, h.steps.extends hs id r hr⟩
  | none => exact h.get?_of_mem hs ((h.mem_iff hs hwait id).mpr ⟨hid, ht, hr⟩)

/-- What has results or no controllers is idle. -/
theorem idle_of_has (hw : s.executor.WellFormed)
    (h : ∀ id ∈ ids, s.executor.tracks id = true → s.executor.cache.has id = true) :
    s.executor.Idle ids := by
  intro id hid
  cases ht : s.executor.tracks id with
  | false => exact Executor.due?_eq_none_of_find? (hw.tracks_eq_false_iff.mp ht)
  | true =>
    obtain ⟨r, hr⟩ := Cache.has_iff.mp (h id hid ht)
    exact Executor.due?_eq_none_of_get? hr

/-- **A run that has invoked nothing** leaves its executor at rest, and would count the same again. -/
theorem rests_of_none_invoked (hs : Reachable s) (hrun : s.perform .run = (s₁, .run (.ok stats)))
    (hzero : stats.invoked = 0) :
    s₁.executor.Idle (s₁.executor.plan.listed.map (·.id))
      ∧ s₁.executor.Seen (s₁.executor.plan.listed.map (·.id))
      ∧ Counts s₁.executor (s₁.executor.plan.listed.map (·.id)) 0 {} stats := by
  obtain ⟨_, batch, _, hrounds⟩ := hs.rounds_of_ok hrun
  obtain ⟨_, hinvoked⟩ := hrounds.entries
  have hbatch : batch.length = 0 := (Nat.zero_add _).symm.trans (hinvoked.symm.trans hzero)
  obtain rfl := List.length_eq_zero_iff.mp hbatch
  obtain ⟨hserved, hcounts⟩ := hrounds.served_of_nil
  have hframe := hserved.steps.frame
  rw [Plan.flatten_rounds, ← Executor.plan_of_frame hframe] at hserved hcounts
  obtain ⟨hidle, hseen⟩ := hserved.rests
  refine ⟨hidle, hseen, hcounts.congr ?_⟩
  intro k _
  exact ⟨(Executor.tracks_of_frame hframe k).symm, fun _ => by rw [hserved.cache_eq]⟩

/-- **A run in which nothing has waited** leaves a result of all that it lists, and has counted all of it. -/
theorem has_of_none_waiting (hs : Reachable s) (hrun : s.perform .run = (s₁, .run (.ok stats)))
    (hzero : stats.waiting = 0) :
    (∀ id ∈ s₁.executor.plan.listed.map (·.id), s₁.executor.tracks id = true →
        s₁.executor.cache.has id = true)
      ∧ (s₁.executor.plan.listed.map (·.id)).countP s₁.executor.tracks
        = stats.invoked + stats.cached := by
  obtain ⟨_, batch, _, hrounds⟩ := hs.rounds_of_ok hrun
  have hframe := hrounds.steps.frame
  have hlisted := Plan.flatten_rounds s.executor.plan s.executor.options.dispatch
  rw [Executor.plan_of_frame hframe, funext (Executor.tracks_of_frame hframe), ← hlisted]
  constructor
  · intro id hid ht
    exact hrounds.has_of_no_waiting hs.sound hzero hid ht
  · obtain ⟨hentries, _⟩ := hrounds.entries
    unfold RunStats.entries at hentries
    rw [hzero] at hentries
    exact (Nat.zero_add _).symm.trans hentries.symm

/-! ## At rest -/

/-- Between two sessions nothing has been invoked; and if what has a result had been found to have it, no
controller has changed. -/
structure Rests (s t : Session σ) : Prop where
  frame : t.executor.frame = (s.executor.withOptions t.executor.options).frame
  cache : t.executor.cache = s.executor.cache
  launches : launches t.journal = launches s.journal
  controllers : s.executor.Seen (s.executor.plan.listed.map (·.id)) →
    t.executor.controllers = s.executor.controllers

namespace Rests

theorem refl (s : Session σ) : Rests s s := ⟨rfl, rfl, rfl, fun _ => rfl⟩

theorem plan_eq (h : Rests s t) : t.executor.plan = s.executor.plan :=
  congrArg Executor.Frame.plan h.frame

theorem trans (h : Rests s t) (h' : Rests t t') : Rests s t' where
  frame := by
    rw [h'.frame]
    exact congrArg (fun f : Executor.Frame σ => { f with options := t'.executor.options }) h.frame
  cache := h'.cache.trans h.cache
  launches := h'.launches.trans h.launches
  controllers hseen := by
    have hcontrollers := h.controllers hseen
    rw [← hcontrollers]
    apply h'.controllers
    unfold Executor.Seen
    rw [h.plan_eq, h.cache, hcontrollers]
    exact hseen

/-- What is due depends on nothing that has changed. -/
theorem idle (h : Rests s t) (hidle : s.executor.Idle (s.executor.plan.listed.map (·.id))) :
    t.executor.Idle (t.executor.plan.listed.map (·.id)) := by
  rw [h.plan_eq]
  intro id hid
  rw [Executor.due?_of_frame h.frame h.cache]
  exact hidle id hid

theorem logic_eq (h : Rests s t) : t.executor.logic = s.executor.logic :=
  congrArg Executor.Frame.logic h.frame

/-- What has been counted for one session is counted for the other. -/
theorem counts {launched : Nat} (h : Rests s t) (hc : Counts t.executor ids launched stats stats') :
    Counts s.executor ids launched stats stats' := by
  apply hc.congr
  intro k _
  exact ⟨Executor.tracks_of_frame h.frame k, fun _ => by rw [h.cache]⟩

end Rests

/-- A stage without invocations leaves a session at rest. -/
theorem Served.rest (h : Served s (s.executor.plan.listed.map (·.id)) [] s')
    (hw : s.executor.WellFormed) : Rests s s' where
  frame := by
    have hf := h.steps.frame
    rw [Executor.options_of_frame hf]
    exact hf
  cache := h.cache_eq
  launches := h.started.trans (List.append_nil _)
  controllers hseen := h.controllers_eq hw hseen

/-- One call more. -/
theorem perform_rests (hs : s.executor.Coherent []) (hl : s.executor.logic = some logic)
    (hidle : s.executor.Idle (s.executor.plan.listed.map (·.id))) {call : Call} (hc : call.Reruns) :
    Rests s (s.perform call).1 := by
  cases call with
  | run =>
    obtain ⟨s', stats', hanswer, hserved, _⟩ := run_of_idle (moment_sound hs) hl hidle
    rw [perform_run, hanswer]
    exact hserved.rest hs.wellFormed
  | withOptions options => exact ⟨rfl, rfl, rfl, fun _ => rfl⟩
  | runNode _ | clear | clearNode _ => exact hc.elim

/-- **An idle executor stays as it is,** whatever is run and in whatever dispatch. -/
theorem performAll_rests (hs : s.executor.Coherent []) (hl : s.executor.logic = some logic)
    (hidle : s.executor.Idle (s.executor.plan.listed.map (·.id))) {calls : List Call}
    (hcalls : ∀ call ∈ calls, call.Reruns) : Rests s (s.performAll calls).1 := by
  induction calls generalizing s with
  | nil => exact .refl s
  | cons call calls ih =>
    have hfirst := perform_rests hs hl hidle (hcalls call List.mem_cons_self)
    apply hfirst.trans
    apply ih (perform_coherent hs call) (hfirst.logic_eq.trans hl) (hfirst.idle hidle)
    intro c hc
    exact hcalls c (List.mem_cons_of_mem call hc)

/-! ## Runs -/

/-- A later run of an idle executor. -/
theorem later_run (hs : Reachable s) (hl : s.executor.logic = some logic)
    (hidle : s.executor.Idle (s.executor.plan.listed.map (·.id))) {later : List Call}
    (hlater : ∀ call ∈ later, call.Reruns) :
    ∃ t' stats', (s.performAll later).1.perform .run = (t', .run (.ok stats')) ∧ Rests s t'
      ∧ Counts s.executor (s.executor.plan.listed.map (·.id)) 0 {} stats' := by
  have hrests := performAll_rests hs.coherent hl hidle hlater
  have ht := (hs.performAll later).coherent
  generalize (s.performAll later).1 = t at hrests ht
  obtain ⟨t', stats', hanswer, hserved, hcounts⟩ :=
    run_of_idle (moment_sound ht) (hrests.logic_eq.trans hl) (hrests.idle hidle)
  refine ⟨t', stats', ?_, hrests.trans (hserved.rest ht.wellFormed), ?_⟩
  · rw [perform_run, hanswer]
  · rw [hrests.plan_eq] at hcounts
    exact hrests.counts hcounts

/-- **Quiescence is stable.** If a run invokes nothing, every later one invokes nothing either, has the same
counts, and changes neither results nor controllers, as long as only runs are made, in whatever dispatches. If
nothing waits in a run, the later ones find everything that it has invoked or found. -/
theorem quiescence_is_stable (hs : Reachable s) (hrun : s.perform .run = (s₁, .run (.ok stats))) :
    (stats.invoked = 0 → ∀ later : List Call, (∀ call ∈ later, call.Reruns) →
      ∃ t, (s₁.performAll later).1.perform .run = (t, .run (.ok ⟨0, stats.cached, stats.waiting⟩))
        ∧ launches t.journal = launches s₁.journal
        ∧ t.executor.cache = s₁.executor.cache
        ∧ t.executor.controllers = s₁.executor.controllers)
    ∧ (stats.waiting = 0 → ∀ later : List Call, (∀ call ∈ later, call.Reruns) →
      ∃ t, (s₁.performAll later).1.perform .run = (t, .run (.ok ⟨0, stats.invoked + stats.cached, 0⟩))
        ∧ launches t.journal = launches s₁.journal
        ∧ t.executor.cache = s₁.executor.cache) := by
  have hs₁ := hs.of_perform hrun
  obtain ⟨logic, _, hl, hrounds⟩ := hs.rounds_of_ok hrun
  have hl₁ : s₁.executor.logic = some logic :=
    (congrArg Executor.Frame.logic hrounds.steps.frame).trans hl
  constructor
  · intro hzero later hlater
    obtain ⟨hidle, hseen, hcounts⟩ := rests_of_none_invoked hs hrun hzero
    obtain ⟨t, stats', hlast, hrests, hagain⟩ := later_run hs₁ hl₁ hidle hlater
    obtain rfl := hagain.unique hcounts
    have hstats : stats' = ⟨0, stats'.cached, stats'.waiting⟩ := RunStats.ext hzero rfl rfl
    refine ⟨t, ?_, hrests.launches, hrests.cache, hrests.controllers hseen⟩
    rw [hlast, ← hstats]
  · intro hzero later hlater
    obtain ⟨hhas, htotal⟩ := has_of_none_waiting hs hrun hzero
    have hidle := idle_of_has hs₁.coherent.wellFormed hhas
    obtain ⟨t, stats', hlast, hrests, hagain⟩ := later_run hs₁ hl₁ hidle hlater
    refine ⟨t, ?_, hrests.launches, hrests.cache⟩
    rw [hlast, hagain.eq_of_has hhas, htotal]

/-- Three nodes are invoked in the first run, found in the second, which is sequential, and found again. -/
theorem quiescence_is_stable_sample :
    ∃ s s₁ s₂ t : Session Unit, Session.start Sample.plan Sample.graph (some .echo) () = .ok s
      ∧ s.perform .run = (s₁, .run (.ok ⟨3, 0, 0⟩))
      ∧ (s₁.performAll [.withOptions { dispatch := .sequential }]).1.perform .run
        = (s₂, .run (.ok ⟨0, 3, 0⟩))
      ∧ (s₂.performAll [.run]).1.perform .run = (t, .run (.ok ⟨0, 3, 0⟩))
      ∧ launches t.journal = launches s₁.journal
      ∧ t.executor.controllers = s₂.executor.controllers := by
  obtain ⟨s, s₁, hstart, hrun⟩ : ∃ s s₁ : Session Unit,
      Session.start Sample.plan Sample.graph (some .echo) () = .ok s
      ∧ s.perform .run = (s₁, .run (.ok ⟨3, 0, 0⟩)) :=
    ⟨_, _, (by rw [start, Executor.new, Plan.records_eq]; rfl), rfl⟩
  have hs := Reachable.start hstart
  have hoptions : ∀ call ∈ [Call.withOptions { dispatch := .sequential }], call.Reruns := by
    simp [Call.Reruns]
  have hagain : ∀ call ∈ [Call.run], call.Reruns := by
    simp [Call.Reruns]
  obtain ⟨_, hfound⟩ := quiescence_is_stable hs hrun
  obtain ⟨s₂, hsecond, hlaunches, _⟩ := hfound rfl _ hoptions
  obtain ⟨hnothing, _⟩ := quiescence_is_stable ((hs.of_perform hrun).performAll _) hsecond
  obtain ⟨t, hthird, hlaunches', _, hcontrollers⟩ := hnothing rfl _ hagain
  exact ⟨s, s₁, s₂, t, hstart, hrun, hsecond, hthird, hlaunches'.trans hlaunches, hcontrollers⟩

end Session

end StageFlow
