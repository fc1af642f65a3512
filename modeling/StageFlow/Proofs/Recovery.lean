import StageFlow.Proofs.Clearing
import StageFlow.Proofs.Dispatch
import StageFlow.Proofs.Rounds

/-!
# Making up for cleared results

Clearing the result of a node leaves what was made from it. After a run in which nothing had to wait, any
results may be cleared, in any order: the next run computes just these again, from the inputs that they
were computed from, whatever else is still there at the time.

## Contents
- **Rounds without waiting.** Each entry has a result afterwards.
- **A second run.** `Resumes`, how its results compare with those of the first run at the same point, round
  by round.
- **Runs.** `run_restores_cleared_results`.
-/

namespace StageFlow

open Executor (Invocation)

namespace Session

variable {σ : Type} {s s₁ s' t t' : Session σ} {stats stats' : RunStats}
variable {ids cleared : List NodeId} {rounds : List (List NodeId)} {batch batch' : List Ending}
variable {final : Cache} {f : NodeDescriptor → Object → Except String Object}

/-! ## Rounds without waiting -/

/-- An entry with a controller that has no result is launched. -/
theorem Complete.exists_mem (h : Complete s ids batch s') {id : NodeId} (hid : id ∈ ids)
    (ht : s.executor.tracks id = true) (hr : s.executor.cache.get? id = none) :
    ∃ x ∈ batch, x.1.id = id := by
  have hmem : id ∈ batch.map fun x => x.1.id := by
    rw [h.ids_eq, List.mem_filter, ht, Cache.has_eq_false_iff.mpr hr]
    exact ⟨hid, rfl⟩
  exact List.mem_map.mp hmem

/-- A round in which no entry waits leaves a result for each entry with a controller. -/
theorem Complete.get?_of_tracked (h : Complete s ids batch s') (hs : Moment.Sound ⟨[], s⟩)
    {id : NodeId} (hid : id ∈ ids) (ht : s.executor.tracks id = true) :
    ∃ r, s'.executor.cache.get? id = some r := by
  cases hr : s.executor.cache.get? id with
  | some r => exact ⟨r, h.served.steps.extends hs id r hr⟩
  | none =>
    obtain ⟨x, hx, rfl⟩ := h.exists_mem hid ht hr
    obtain ⟨values, _, hget⟩ := h.served.get?_of_passed h.passed hx
    exact ⟨_, hget⟩

/-- **A run in which nothing waits** invokes just the listed nodes with a controller that have no result. -/
theorem Rounds.mem_iff {P : NodeDescriptor → Object → Except String Object → Prop}
    (h : Rounds P s stats rounds batch (s', .ok stats')) (hs : Moment.Sound ⟨[], s⟩)
    (hwait : stats'.waiting = stats.waiting) (id : NodeId) :
    (id ∈ batch.map fun x => x.1.id)
      ↔ id ∈ rounds.flatten ∧ s.executor.tracks id = true ∧ s.executor.cache.get? id = none := by
  generalize hend : (s', Except.ok stats') = result at h
  induction h with
  | done s stats => simp
  | fail _ _ _ => exact absurd (Prod.mk.inj hend).2 (by simp)
  | @pass s s₁ stats stats₁ ids rounds batch batch' result served passed counts _ rest ih =>
    have hsound := served.steps.sound hs
    obtain ⟨hcomplete, hrest⟩ := Rounds.complete served passed counts (hend ▸ rest) hs hwait
    rw [List.map_append, List.mem_append, List.flatten_cons, List.mem_append,
      ih hsound hrest hend, hcomplete.ids_eq, List.mem_filter, Bool.and_eq_true, Bool.not_eq_true',
      Cache.has_eq_false_iff, Executor.tracks_of_frame served.steps.frame]
    constructor
    · rintro (⟨hid, ht, hnone⟩ | ⟨hid, ht, hnone⟩)
      · exact ⟨Or.inl hid, ht, hnone⟩
      · -- a result that was there before would still be there
        refine ⟨Or.inr hid, ht, Option.eq_none_iff_forall_ne_some.mpr ?_⟩
        intro r hr
        rw [served.steps.extends hs id r hr] at hnone
        exact absurd hnone (by simp)
    · rintro ⟨hid, ht, hnone⟩
      by_cases hmem : id ∈ ids
      · exact Or.inl ⟨hmem, ht, hnone⟩
      · exact Or.inr ⟨hid.resolve_left hmem, ht, by rw [served.get?_of_not_mem hmem, hnone]⟩

/-! ## A second run -/

/-- The ending of a node in the part of a batch that is about some nodes. -/
theorem endingOf?_filter (batch : List Ending) (cleared : List NodeId) (id : NodeId) :
    endingOf? (batch.filter fun x => x.1.id ∈ cleared) id
      = if id ∈ cleared then endingOf? batch id else none := by
  induction batch with
  | nil => simp [endingOf?]
  | cons x batch ih =>
    rw [List.filter_cons, endingOf?_cons]
    by_cases hx : x.1.id = id
    · subst hx
      by_cases hcl : x.1.id ∈ cleared
      · simp [hcl, endingOf?_cons]
      · simp [hcl, ih]
    · rw [if_neg hx, ← ih]
      split
      · rw [endingOf?_cons, if_neg hx]
      · rfl

/-- A second run at the point where the first one was at `e`: of the cleared nodes it has the results that
the first one had at that point, and of the others those that the first one had in the end. -/
structure Resumes (cleared : List NodeId) (final : Cache) (e e' : Executor σ) : Prop where
  frame : e'.frame = e.frame
  get? : ∀ id, e'.cache.get? id = if id ∈ cleared then e.cache.get? id else final.get? id

namespace Resumes

theorem of_cleared (h : Resumes cleared final s.executor t.executor) {id : NodeId}
    (hid : id ∈ cleared) : t.executor.cache.get? id = s.executor.cache.get? id := by
  rw [h.get?, if_pos hid]

theorem of_not_cleared (h : Resumes cleared final s.executor t.executor) {id : NodeId}
    (hid : id ∉ cleared) : t.executor.cache.get? id = final.get? id := by
  rw [h.get?, if_neg hid]

/-- The second run has all the results that the first one had at the same point. -/
theorem covers (h : Resumes cleared final s.executor t.executor)
    (hx : final.Extends s.executor.cache) : t.executor.cache.Extends s.executor.cache := by
  intro id r hr
  by_cases hid : id ∈ cleared
  · rw [h.of_cleared hid, hr]
  · rw [h.of_not_cleared hid, hx id r hr]

/-- What is due in the second run is what was due in the first one, of the cleared nodes. -/
theorem due? (h : Resumes cleared final s.executor t.executor) (hs : Moment.Sound ⟨[], s⟩)
    (hc : Complete s ids batch s₁) (hx : final.Extends s₁.executor.cache) {id : NodeId}
    (hid : id ∈ ids) :
    t.executor.due? id = (s.executor.due? id).filter fun i => i.id ∈ cleared := by
  have hw := hs.coherent.wellFormed
  have hw' := hw.of_frame h.frame
  have hext : final.Extends s.executor.cache := fun k r hr =>
    hx k r (hc.served.steps.extends hs k r hr)
  cases ht : s.executor.tracks id with
  | false =>
    have ht' : t.executor.tracks id = false := by rw [Executor.tracks_of_frame h.frame, ht]
    rw [Executor.due?_eq_none_of_find? (hw.tracks_eq_false_iff.mp ht),
      Executor.due?_eq_none_of_find? (hw'.tracks_eq_false_iff.mp ht'), Option.filter_none]
  | true =>
    by_cases hcl : id ∈ cleared
    · cases hr : s.executor.cache.get? id with
      | some r =>
        rw [Executor.due?_eq_none_of_get? hr,
          Executor.due?_eq_none_of_get? ((h.of_cleared hcl).trans hr), Option.filter_none]
      | none =>
        -- it was due in the first run, and its inputs have not changed
        obtain ⟨x, hx, rfl⟩ := hc.exists_mem hid ht hr
        have hdue := (hc.served.due_of_mem hx).2
        obtain ⟨c, node, hfind, hn, _, havail, heq⟩ := Executor.due?_eq_some.mp hdue
        have hsup : Supplied s.executor x.1 :=
          ⟨c, hfind, by rw [hn, heq], havail, by rw [heq]⟩
        obtain ⟨c', hfind', hn', havail', hin'⟩ := hsup.of_frame h.frame (h.covers hext)
        have hdue' : t.executor.due? x.1.id = some x.1 :=
          Executor.due?_eq_some.mpr ⟨c', x.1.node, hfind', hn', (h.of_cleared hcl).trans hr, havail',
            by rw [← hin']⟩
        rw [hdue, hdue', Option.filter_some, if_pos (by simpa using hcl)]
    · -- the first run has come to a result of it, and it is still there
      obtain ⟨r, hr⟩ := hc.get?_of_tracked hs hid ht
      have hfinal : t.executor.cache.get? id = some r := (h.of_not_cleared hcl).trans (hx id r hr)
      rw [Executor.due?_eq_none_of_get? hfinal, eq_comm, Option.filter_eq_none_iff]
      intro i hi
      rw [Executor.id_of_due? hi]
      simpa using hcl

/-- **Round by round** the second run invokes what the first one did, of the cleared nodes. -/
theorem round (h : Resumes cleared final s.executor t.executor) (hs : Moment.Sound ⟨[], s⟩)
    (hc : Complete s ids batch s₁) (hx : final.Extends s₁.executor.cache)
    (hf : ∀ x ∈ batch, x.2 = f x.1.node x.1.inputs) (served' : Served t ids batch' t')
    (hf' : ∀ x ∈ batch', x.2 = f x.1.node x.1.inputs) :
    batch' = (batch.filter fun x => x.1.id ∈ cleared)
      ∧ Resumes cleared final s₁.executor t'.executor := by
  have hfst : batch'.map Prod.fst = (batch.map Prod.fst).filter fun i => i.id ∈ cleared := by
    rw [served'.due, hc.served.due, List.filter_filterMap]
    refine List.filterMap_congr fun id hid => ?_
    exact h.due? hs hc hx (mem_distinctFrom.mp hid).1
  rw [List.filter_map] at hfst
  have hkept : ∀ x ∈ batch.filter fun x => x.1.id ∈ cleared, x.2 = f x.1.node x.1.inputs :=
    fun x hm => hf x (List.mem_filter.mp hm).1
  have hbatch : batch' = batch.filter fun x => x.1.id ∈ cleared := by
    rw [batch_of_computed hf', hfst, batch_of_computed hkept]
    rfl
  refine ⟨hbatch, ?_, ?_⟩
  · rw [served'.steps.frame, hc.served.steps.frame, h.frame]
  · intro id
    rw [served'.cache, hc.served.cache, Cache.entryAfter?, Cache.entryAfter?, hbatch, endingOf?_filter]
    by_cases hid : id ∈ cleared
    · rw [if_pos hid, if_pos hid, h.of_cleared hid]
    · rw [if_neg hid, if_neg hid, h.of_not_cleared hid]

/-- No entry waits in the second run either. -/
theorem waiting_eq (h : Resumes cleared final s.executor t.executor) (hs : Moment.Sound ⟨[], s⟩)
    (hc : Complete s ids batch s₁) (hx : final.Extends s₁.executor.cache)
    (hn : Counts t.executor ids (batch.filter fun x => x.1.id ∈ cleared).length stats stats') :
    stats'.waiting = stats.waiting := by
  -- without a result are the cleared ones of those that were without one in the first run
  have hopen : ∀ id ∈ ids, (t.executor.tracks id && !t.executor.cache.has id)
      = (decide (id ∈ cleared) && (s.executor.tracks id && !s.executor.cache.has id)) := by
    intro id hid
    rw [Executor.tracks_of_frame h.frame]
    cases ht : s.executor.tracks id with
    | false => simp
    | true =>
      by_cases hcl : id ∈ cleared
      · simp [hcl, Cache.has, h.of_cleared hcl]
      · obtain ⟨r, hr⟩ := hc.get?_of_tracked hs hid ht
        simp [hcl, Cache.has, h.of_not_cleared hcl, hx id r hr]
  have hcount : ids.countP (fun id => t.executor.tracks id && !t.executor.cache.has id)
      = (batch.filter fun x => x.1.id ∈ cleared).length := by
    rw [List.countP_eq_length_filter, List.filter_congr hopen, ← List.filter_filter, ← hc.ids_eq,
      List.filter_map, List.length_map]
    rfl
  have hwaiting := hn.waiting
  omega

end Resumes

/-- **The second run goes through** and comes to the results of the first one. -/
theorem Rounds.resumed
    (h : Rounds (fun node inputs result => result = f node inputs) s stats rounds batch
      (s', .ok stats'))
    (hs : Moment.Sound ⟨[], s⟩) (hwait : stats'.waiting = stats.waiting)
    (hres : Resumes cleared s'.executor.cache s.executor t.executor) (ht : Moment.Sound ⟨[], t⟩)
    {tstats : RunStats} {result : Session σ × Except Stop RunStats}
    (h' : Rounds (fun node inputs result => result = f node inputs) t tstats rounds batch' result) :
    batch' = (batch.filter fun x => x.1.id ∈ cleared)
      ∧ ∃ t' tstats', result = (t', .ok tstats') ∧ tstats'.waiting = tstats.waiting
        ∧ Resumes cleared s'.executor.cache s'.executor t'.executor := by
  generalize hend : (s', Except.ok stats') = first at h
  induction h generalizing t tstats batch' with
  | fail _ _ _ => exact absurd (Prod.mk.inj hend).2 (by simp)
  | done s stats =>
    obtain ⟨rfl, -⟩ := Prod.mk.inj hend
    cases h' with
    | done t tstats => exact ⟨rfl, t, tstats, rfl, rfl, hres⟩
  | @pass s s₁ stats stats₁ ids rounds batch₁ batch₂ _ served passed counts hf rest ih =>
    have hsound := served.steps.sound hs
    obtain ⟨hc, hrest⟩ := Rounds.complete served passed counts (hend ▸ rest) hs hwait
    have hx : s'.executor.cache.Extends s₁.executor.cache := by
      have hsteps := rest.steps
      rw [← hend] at hsteps
      exact hsteps.extends hsound
    cases h' with
    | @pass _ t₁ _ tstats₁ _ _ batch₁' batch₂' _ served' passed' counts' hf' rest' =>
      obtain ⟨rfl, hres₁⟩ := hres.round hs hc hx hf served' hf'
      have htwait := hres.waiting_eq hs hc hx counts'
      obtain ⟨rfl, t', tstats', rfl, htwait', hres'⟩ :=
        ih hsound hrest hres₁ (served'.steps.sound ht) rest' hend
      exact ⟨by rw [List.filter_append], t', tstats', rfl, by omega, hres'⟩
    | @fail _ t' _ _ _ batch₁' stop served' failed hf' =>
      -- what fails in the second run would have failed in the first
      obtain ⟨rfl, _⟩ := hres.round hs hc hx hf served' hf'
      have hnone : firstFailure? (batch₁.filter fun x => x.1.id ∈ cleared) = none :=
        firstFailure?_eq_none.mpr fun x hm =>
          firstFailure?_eq_none.mp passed x (List.mem_filter.mp hm).1
      rw [hnone] at failed
      exact absurd failed (by simp)

/-! ## Runs -/

/-- **A run restores the results that have been cleared.** After a run of a fresh executor in which nothing
waited, which has invoked each listed node with a controller once, a second run in the same dispatch
invokes the cleared ones of these nodes again, with the same inputs and in the same order, and leaves the
same results. -/
theorem run_restores_cleared_results {plan : Plan} {graph : Graph} {l : Option (Logic σ)} {host : σ}
    (hstart : Session.start plan graph l host = .ok s)
    (hl : ∀ logic, l = some logic → ∃ f, logic.Computes f) (dispatch : Dispatch)
    (hrun : (s.under dispatch).perform .run = (s₁, .run (.ok stats))) (hwait : stats.waiting = 0)
    (cleared : List NodeId) :
    ∃ (launched : List (NodeDescriptor × Object)) (t' : Session σ) (stats' : RunStats),
      launches s₁.journal = launched ∧ (launched.map fun x => x.1.id).Nodup
      ∧ (∀ id, (id ∈ launched.map fun x => x.1.id)
        ↔ s.executor.tracks id = true ∧ id ∈ plan.listed.map (·.id))
      ∧ (s₁.performAll (cleared.map .clearNode)).1.perform .run = (t', .run (.ok stats'))
      ∧ stats'.waiting = 0
      ∧ launches t'.journal = launches s₁.journal ++ launched.filter (fun x => x.1.id ∈ cleared)
      ∧ t'.executor.cache = s₁.executor.cache := by
  obtain ⟨s', hs', hcoh, hempty, hjournal, hplan, _, hlogic⟩ := start_eq_ok plan graph l host
  obtain rfl := Except.ok.inj (hs'.symm.trans hstart)
  have hs : Moment.Sound ⟨[], s'.under dispatch⟩ := ((Reachable.start hstart).perform _).sound
  have hanswer := run_finish_of_perform hrun
  cases hl' : l with
  | none =>
    rw [run_finish_of_none (s := s'.under dispatch) (hlogic.trans hl')] at hanswer
    exact absurd (Prod.mk.inj hanswer).2 (by simp)
  | some logic =>
    obtain ⟨f, hf⟩ := hl logic hl'
    -- the first run
    obtain ⟨batch, hrounds⟩ := run_rounds (s := s'.under dispatch) (hlogic.trans hl') hf hs
    rw [hanswer] at hrounds
    have hcache : (s'.under dispatch).executor.cache = .empty := hempty
    have hids := hrounds.ids_started
    have hstarted : launches s₁.journal = batch.map fun x => (x.1.node, x.1.inputs) := by
      have hj : (s'.under dispatch).journal = [] := hjournal
      rw [hrounds.started, hj]
      rfl
    have hreach : Reachable s₁ :=
      ((Reachable.start hstart).perform (.withOptions { dispatch })).of_perform hrun
    -- the second run, of a session with the same frame
    have hcleared := performAll_clearNode hreach.coherent cleared
    have ht := (hreach.performAll (cleared.map .clearNode)).sound
    generalize (s₁.performAll (cleared.map .clearNode)).1 = t at hcleared ht
    have hsame := hcleared.frame.trans hrounds.steps.frame
    have hlogic' : t.executor.logic = some logic :=
      (congrArg Executor.Frame.logic hsame).trans (hlogic.trans hl')
    have hres : Resumes cleared s₁.executor.cache (s'.under dispatch).executor t.executor :=
      ⟨hsame, fun id => by rw [hcleared.get?, hcache, Cache.get?_empty]⟩
    obtain ⟨batch', hrounds'⟩ := run_rounds hlogic' hf ht
    rw [Executor.plan_of_frame hsame, Executor.options_of_frame hsame] at hrounds'
    obtain ⟨rfl, t', stats', hanswer', hwait', hres'⟩ := hrounds.resumed hs hwait hres ht hrounds'
    rw [hanswer'] at hrounds'
    refine ⟨_, t', stats', hstarted, ?_, ?_, ?_, hwait', ?_, ?_⟩
    · rw [hids]
      exact hrounds.nodup hs
    · intro id
      rw [hids, hrounds.mem_iff hs hwait, Plan.flatten_rounds, hcache, Cache.get?_empty,
        eq_self, and_true, and_comm]
      exact and_congr_right fun _ => by rw [← hplan]; rfl
    · rw [perform_run, hanswer']
    · rw [hrounds'.started, hcleared.launches, List.filter_map]
      refine congrArg (fun b => launches s₁.journal ++ List.map _ b) (List.filter_congr ?_)
      intro x hx
      rw [Function.comp_apply, hrounds.node_id x hx]
    · refine Cache.ext_get? fun id => ?_
      rw [hres'.get?, ite_self]

/-- The producer and its consumer are cleared and computed again; the other producer is left alone. -/
theorem run_restores_cleared_results_sample :
    ∃ s s₁ t : Session Unit, Session.start Sample.plan Sample.graph (some .echo) () = .ok s
      ∧ (s.under .sequential).perform .run = (s₁, .run (.ok ⟨3, 0, 0⟩))
      ∧ (∃ stats, (s₁.performAll [.clearNode ⟨"c"⟩, .clearNode ⟨"a"⟩]).1.perform .run
        = (t, .run (.ok stats)) ∧ stats.waiting = 0)
      ∧ (launches t.journal).map (fun x => x.1.id) = [⟨"a"⟩, ⟨"b"⟩, ⟨"c"⟩, ⟨"a"⟩, ⟨"c"⟩]
      ∧ t.executor.cache = s₁.executor.cache := by
  obtain ⟨s, s₁, hstart, hrun, hids⟩ : ∃ s s₁ : Session Unit,
      Session.start Sample.plan Sample.graph (some .echo) () = .ok s
      ∧ (s.under .sequential).perform .run = (s₁, .run (.ok ⟨3, 0, 0⟩))
      ∧ (launches s₁.journal
          ++ (launches s₁.journal).filter fun x => x.1.id ∈ [⟨"c"⟩, ⟨"a"⟩]).map (fun x => x.1.id)
        = [⟨"a"⟩, ⟨"b"⟩, ⟨"c"⟩, ⟨"a"⟩, ⟨"c"⟩] :=
    ⟨_, _, (by rw [start, Executor.new, Plan.records_eq]; rfl), rfl, rfl⟩
  have hcomputes : ∀ logic : Logic Unit, some Logic.echo = some logic → ∃ f, logic.Computes f := by
    intro logic h
    obtain rfl := Option.some.inj h
    exact ⟨fun node inputs => .ok (node.echo inputs), fun _ _ => rfl⟩
  obtain ⟨launched, t, stats, rfl, _, _, hagain, hwait, hlaunches, hcache⟩ :=
    run_restores_cleared_results hstart hcomputes .sequential hrun rfl [⟨"c"⟩, ⟨"a"⟩]
  exact ⟨s, s₁, t, hstart, hrun, ⟨stats, hagain, hwait⟩, by rw [hlaunches]; exact hids, hcache⟩

end Session

end StageFlow
