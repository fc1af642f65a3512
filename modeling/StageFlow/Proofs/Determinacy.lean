import StageFlow.Proofs.Dispatch
import StageFlow.Proofs.Rounds

/-!
# What decides a call

The states of controllers are a report to the host. What a call answers, what it invokes and what it stores
follow from the frame and the results alone, so that two executors which agree in these go on alike,
whatever the past has left in their controllers.

## Contents
- **Likeness.** `Alike`, of two executors with the same frame and the same results.
- **Rounds.** Alike executors run the same rounds.
- **Calls.** `SameCourse`, of two sessions that go on alike, and `perform_alike`.
- **Frames.** The frame of a session that can be reached is that of a fresh one, with the options as they
  are now.
- **Sequences of calls.** `cache_decides`.
-/

namespace StageFlow

/-! ## Likeness -/

/-- Two executors with the same frame and the same results. Their controllers may be in different states. -/
structure Executor.Alike {σ : Type} (e e' : Executor σ) : Prop where
  frame : e'.frame = e.frame
  cache : e'.cache = e.cache

namespace Session

variable {σ : Type} {s s' t t' s₁ t₁ : Session σ} {ids : List NodeId} {rounds : List (List NodeId)}
variable {batch batch' : List Ending} {stats : RunStats} {logic : Logic σ}
variable {result result' : Session σ × Except Stop RunStats}
variable {f : NodeDescriptor → Object → Except String Object}

theorem Counts.of_alike {launched : Nat} {stats stats' : RunStats}
    (ha : s.executor.Alike t.executor) (h : Counts t.executor ids launched stats stats') :
    Counts s.executor ids launched stats stats' :=
  h.congr fun k _ => ⟨Executor.tracks_of_frame ha.frame k, fun _ => by rw [ha.cache]⟩

/-- Alike executors have the same nodes due, so that the same batch is invoked. -/
theorem Served.batch_eq (h : Served s ids batch s') (h' : Served t ids batch' t')
    (ha : s.executor.Alike t.executor) (hf : ∀ x ∈ batch, x.2 = f x.1.node x.1.inputs)
    (hf' : ∀ x ∈ batch', x.2 = f x.1.node x.1.inputs) : batch' = batch := by
  have hdue : t.executor.due? = s.executor.due? := by
    funext id
    exact Executor.due?_of_frame ha.frame ha.cache id
  rw [batch_of_computed hf, batch_of_computed hf', h.due, h'.due, hdue]

/-- Serving the same batch leaves alike executors alike. -/
theorem Served.alike (h : Served s ids batch s') (h' : Served t ids batch t')
    (ha : s.executor.Alike t.executor) : s'.executor.Alike t'.executor := by
  refine ⟨?_, Cache.ext_get? ?_⟩
  · rw [h'.steps.frame, h.steps.frame, ha.frame]
  · intro k
    rw [h'.cache, h.cache, ha.cache]

/-! ## Rounds -/

/-- **Alike executors run the same rounds:** the same batches, with the same answer, and they stay alike. -/
theorem Rounds.alike
    (h : Rounds (fun node inputs result => result = f node inputs) s stats rounds batch result)
    (h' : Rounds (fun node inputs result => result = f node inputs) t stats rounds batch' result')
    (ha : s.executor.Alike t.executor) :
    batch' = batch ∧ result'.2 = result.2 ∧ result.1.executor.Alike result'.1.executor := by
  induction h generalizing t batch' with
  | done s stats =>
    cases h' with
    | done t stats => exact ⟨rfl, rfl, ha⟩
  | @pass s s₁ stats stats₁ ids rounds batch₁ batch₂ result served passed counts hf rest ih =>
    cases h' with
    | pass served' passed' counts' hf' rest' =>
      obtain rfl := served.batch_eq served' ha hf hf'
      obtain rfl := (counts'.of_alike ha).unique counts
      obtain ⟨rfl, hanswer, hend⟩ := ih rest' (served.alike served' ha)
      exact ⟨rfl, hanswer, hend⟩
    | fail served' failed hf' =>
      obtain rfl := served.batch_eq served' ha hf hf'
      rw [passed] at failed
      exact absurd failed (by simp)
  | @fail s s' stats ids rounds batch₁ stop served failed hf =>
    cases h' with
    | pass served' passed' _ hf' _ =>
      obtain rfl := served.batch_eq served' ha hf hf'
      rw [failed] at passed'
      exact absurd passed' (by simp)
    | fail served' failed' hf' =>
      obtain rfl := served.batch_eq served' ha hf hf'
      obtain rfl := Option.some.inj (failed.symm.trans failed')
      exact ⟨rfl, rfl, served.alike served' ha⟩

/-! ## Calls -/

/-- Two sessions that have gone on alike: with the same invocations, to executors that are alike. -/
structure SameCourse (s t s' t' : Session σ) : Prop where
  alike : s'.executor.Alike t'.executor
  launched : ∃ more, launches s'.journal = launches s.journal ++ more
    ∧ launches t'.journal = launches t.journal ++ more

theorem SameCourse.refl (ha : s.executor.Alike t.executor) : SameCourse s t s t :=
  ⟨ha, [], (List.append_nil _).symm, (List.append_nil _).symm⟩

theorem SameCourse.trans (h : SameCourse s t s₁ t₁) (h' : SameCourse s₁ t₁ s' t') :
    SameCourse s t s' t' := by
  obtain ⟨more, hs, ht⟩ := h.launched
  obtain ⟨more', hs', ht'⟩ := h'.launched
  refine ⟨h'.alike, more ++ more', ?_, ?_⟩
  · rw [hs', hs, List.append_assoc]
  · rw [ht', ht, List.append_assoc]

/-- Serving the same batch is the same course. -/
theorem Served.sameCourse (h : Served s ids batch s') (h' : Served t ids batch t')
    (ha : s.executor.Alike t.executor) : SameCourse s t s' t' :=
  ⟨h.alike h' ha, _, h.started, h'.started⟩

theorem run_alike (hl : ∀ logic, s.executor.logic = some logic → ∃ f, logic.Computes f)
    (hs : Moment.Sound ⟨[], s⟩) (ht : Moment.Sound ⟨[], t⟩) (ha : s.executor.Alike t.executor) :
    SameCourse s t (run.finish s).1 (run.finish t).1 ∧ (run.finish t).2 = (run.finish s).2 := by
  have hlogic : t.executor.logic = s.executor.logic := Executor.logic_of_frame ha.frame
  cases hsome : s.executor.logic with
  | none =>
    rw [run_finish_of_none hsome, run_finish_of_none (hlogic.trans hsome)]
    exact ⟨.refl ha, rfl⟩
  | some logic =>
    obtain ⟨f, hf⟩ := hl logic hsome
    obtain ⟨batch, hrounds⟩ := run_rounds hsome hf hs
    obtain ⟨batch', hrounds'⟩ := run_rounds (hlogic.trans hsome) hf ht
    rw [Executor.plan_of_frame ha.frame, Executor.options_of_frame ha.frame] at hrounds'
    obtain ⟨rfl, hanswer, hend⟩ := hrounds.alike hrounds' ha
    exact ⟨⟨hend, _, hrounds.started, hrounds'.started⟩, hanswer⟩

theorem runNode_alike (hl : ∀ logic, s.executor.logic = some logic → ∃ f, logic.Computes f)
    (hs : Moment.Sound ⟨[], s⟩) (ht : Moment.Sound ⟨[], t⟩) (ha : s.executor.Alike t.executor)
    (id : NodeId) :
    SameCourse s t ((runNode id).finish s).1 ((runNode id).finish t).1
      ∧ ((runNode id).finish t).2 = ((runNode id).finish s).2 := by
  have hlogic : t.executor.logic = s.executor.logic := Executor.logic_of_frame ha.frame
  cases hsome : s.executor.logic with
  | none =>
    rw [runNode_finish_of_none id hsome, runNode_finish_of_none id (hlogic.trans hsome)]
    exact ⟨.refl ha, rfl⟩
  | some logic =>
    rw [runNode_finish id hsome, runNode_finish id (hlogic.trans hsome)]
    obtain ⟨f, hf⟩ := hl logic hsome
    have hbound := Executor.bindings_of_frame ha.frame id
    cases hc : s.executor.controllers.find? id with
    | none =>
      rw [hc, Option.map_none, Option.map_eq_none_iff] at hbound
      rw [runWith_untracked hs.coherent.wellFormed hc, runWith_untracked ht.coherent.wellFormed hbound]
      exact ⟨.refl ha, rfl⟩
    | some c =>
      rw [hc, Option.map_some, Option.map_eq_some_iff] at hbound
      obtain ⟨d, hd, _⟩ := hbound
      obtain ⟨s', batch, heq, hserved, hcomputed⟩ := runWith_eq hf hs hc
      obtain ⟨t', batch', heq', hserved', hcomputed'⟩ := runWith_eq hf ht hd
      obtain rfl := hserved.batch_eq hserved' ha hcomputed hcomputed'
      rw [heq, heq']
      refine ⟨hserved.sameCourse hserved' ha, ?_⟩
      unfold nodeAnswer
      rw [ha.cache]

/-- **A call takes the same course in sessions that are alike,** and is answered alike. -/
theorem perform_alike (hl : ∀ logic, s.executor.logic = some logic → ∃ f, logic.Computes f)
    (hs : s.executor.Coherent []) (ht : t.executor.Coherent []) (ha : s.executor.Alike t.executor)
    (call : Call) :
    SameCourse s t (s.perform call).1 (t.perform call).1
      ∧ (t.perform call).2 = (s.perform call).2 := by
  unfold perform act
  cases call with
  | run =>
    rw [Activity.finish_map, Activity.finish_map]
    obtain ⟨hcourse, hanswer⟩ := run_alike hl (moment_sound hs) (moment_sound ht) ha
    exact ⟨hcourse, congrArg Reply.run hanswer⟩
  | runNode id =>
    rw [Activity.finish_map, Activity.finish_map]
    obtain ⟨hcourse, hanswer⟩ := runNode_alike hl (moment_sound hs) (moment_sound ht) ha id
    exact ⟨hcourse, congrArg Reply.runNode hanswer⟩
  | clear =>
    have hframe : t.executor.clear.frame = s.executor.clear.frame := by
      rw [Executor.frame_clear, Executor.frame_clear, ha.frame]
    exact ⟨⟨⟨hframe, rfl⟩, [], launches_append _ [.clearedAll], launches_append _ [.clearedAll]⟩, rfl⟩
  | clearNode id =>
    obtain ⟨e, he, hcleared⟩ := hs.clearNode_eq id
    obtain ⟨e', he', hcleared'⟩ := ht.clearNode_eq id
    rw [Activity.finish_step, Activity.finish_step]
    simp only [he, he']
    refine ⟨⟨⟨?_, ?_⟩, [], launches_append _ [.cleared id], launches_append _ [.cleared id]⟩, trivial⟩
    · exact hcleared'.frame.trans (ha.frame.trans hcleared.frame.symm)
    · exact hcleared'.cache.trans ((congrArg (Cache.erase · id) ha.cache).trans hcleared.cache.symm)
  | withOptions options =>
    have hframe : (t.executor.withOptions options).frame = (s.executor.withOptions options).frame :=
      congrArg (fun g : Executor.Frame σ => { g with options }) ha.frame
    exact ⟨⟨⟨hframe, ha.cache⟩, [], (List.append_nil _).symm, (List.append_nil _).symm⟩, rfl⟩

theorem performAll_alike (hl : ∀ logic, s.executor.logic = some logic → ∃ f, logic.Computes f)
    (hs : s.executor.Coherent []) (ht : t.executor.Coherent []) (ha : s.executor.Alike t.executor)
    (calls : List Call) :
    SameCourse s t (s.performAll calls).1 (t.performAll calls).1
      ∧ (t.performAll calls).2 = (s.performAll calls).2 := by
  induction calls generalizing s t with
  | nil => exact ⟨.refl ha, rfl⟩
  | cons call calls ih =>
    obtain ⟨hfirst, hanswer⟩ := perform_alike hl hs ht ha call
    have hl' : ∀ logic, (s.perform call).1.executor.logic = some logic → ∃ f, logic.Computes f := by
      rw [perform_logic hs call]
      exact hl
    obtain ⟨hrest, hanswers⟩ := ih hl' (perform_coherent hs call) (perform_coherent ht call) hfirst.alike
    refine ⟨hfirst.trans hrest, ?_⟩
    show (t.perform call).2 :: ((t.perform call).1.performAll calls).2
      = (s.perform call).2 :: ((s.perform call).1.performAll calls).2
    rw [hanswer, hanswers]

/-! ## Frames -/

/-- A session that can be reached has the frame of a fresh one of its plan, graph and logic, but for the
options. -/
theorem Reachable.exists_new (h : Reachable s) :
    ∃ e, Executor.new s.executor.plan s.executor.graph s.executor.logic = .ok e
      ∧ s.executor.frame = (e.withOptions s.executor.options).frame := by
  induction h with
  | @start plan graph logic host s hs =>
    obtain ⟨e, he, _, _, _, rfl, rfl, rfl, _⟩ := Executor.new_eq_ok plan graph logic
    obtain rfl := Except.ok.inj ((start_of_new he host).symm.trans hs)
    exact ⟨e, he, rfl⟩
  | @perform s hs call ih =>
    obtain ⟨e, he, hframe⟩ := ih
    have hf := perform_frame hs.coherent call
    have hplan : (s.perform call).1.executor.plan = s.executor.plan := congrArg Executor.Frame.plan hf
    have hgraph : (s.perform call).1.executor.graph = s.executor.graph :=
      congrArg Executor.Frame.graph hf
    refine ⟨e, by rw [hplan, hgraph, perform_logic hs.coherent call, he], hf.trans ?_⟩
    exact congrArg
      (fun g : Executor.Frame σ => { g with options := (s.perform call).1.executor.options }) hframe

/-- Plan, graph, logic and options determine the frame. -/
theorem Reachable.frame_eq (hs : Reachable s) (ht : Reachable t)
    (hplan : t.executor.plan = s.executor.plan) (hgraph : t.executor.graph = s.executor.graph)
    (hlogic : t.executor.logic = s.executor.logic)
    (hoptions : t.executor.options = s.executor.options) : t.executor.frame = s.executor.frame := by
  obtain ⟨e, he, hframe⟩ := hs.exists_new
  obtain ⟨e', he', hframe'⟩ := ht.exists_new
  rw [hplan, hgraph, hlogic, he] at he'
  obtain rfl := Except.ok.inj he'
  rw [hframe', hframe, hoptions]

/-! ## Sequences of calls -/

/-- **The cache is the only skip signal.** Two sessions that can be reached, with the same plan, graph,
logic and options, and with the same results: whatever their controllers say, every sequence of calls is
answered alike, invokes the same nodes with the same inputs in the same order, and leaves the same
results. -/
theorem cache_decides (hs : Reachable s) (ht : Reachable t)
    (hplan : t.executor.plan = s.executor.plan) (hgraph : t.executor.graph = s.executor.graph)
    (hoptions : t.executor.options = s.executor.options)
    (hcache : t.executor.cache = s.executor.cache)
    (hlogic : t.executor.logic = s.executor.logic)
    (hl : ∀ logic, s.executor.logic = some logic → ∃ f, logic.Computes f) (calls : List Call) :
    (t.performAll calls).2 = (s.performAll calls).2
      ∧ (∃ more, launches (s.performAll calls).1.journal = launches s.journal ++ more
        ∧ launches (t.performAll calls).1.journal = launches t.journal ++ more)
      ∧ (t.performAll calls).1.executor.cache = (s.performAll calls).1.executor.cache := by
  have halike : s.executor.Alike t.executor :=
    ⟨hs.frame_eq ht hplan hgraph hlogic hoptions, hcache⟩
  obtain ⟨hcourse, hanswers⟩ := performAll_alike hl hs.coherent ht.coherent halike calls
  exact ⟨hanswers, hcourse.launched, hcourse.alike.cache⟩

/-- After a run nodes have succeeded, and after another one they are cached; the host cannot tell. -/
theorem cache_decides_sample :
    ∃ s t : Session Unit, Reachable s ∧ Reachable t
      ∧ s.executor.status.map Prod.snd = [.succeeded, .succeeded, .succeeded]
      ∧ t.executor.status.map Prod.snd = [.cached, .cached, .cached]
      ∧ t.executor.cache = s.executor.cache
      ∧ (t.performAll [.clearNode ⟨"a"⟩, .runNode ⟨"c"⟩, .run]).2
        = (s.performAll [.clearNode ⟨"a"⟩, .runNode ⟨"c"⟩, .run]).2 := by
  obtain ⟨s, hstart, hlogic, hstatus, hstatus', hcache⟩ : ∃ s : Session Unit,
      Session.start Sample.plan Sample.graph (some .echo) () = .ok s
      ∧ (s.perform .run).1.executor.logic = some .echo
      ∧ (s.perform .run).1.executor.status.map Prod.snd = [.succeeded, .succeeded, .succeeded]
      ∧ ((s.perform .run).1.perform .run).1.executor.status.map Prod.snd = [.cached, .cached, .cached]
      ∧ ((s.perform .run).1.perform .run).1.executor.cache = (s.perform .run).1.executor.cache := by
    refine ⟨_, (by rw [start, Executor.new, Plan.records_eq]; rfl), ?_, ?_, ?_, ?_⟩ <;> rfl
  have hcomputes : ∀ logic, (s.perform .run).1.executor.logic = some logic → ∃ f, logic.Computes f := by
    intro logic h
    obtain rfl := Option.some.inj (hlogic.symm.trans h)
    exact ⟨fun node inputs => .ok (node.echo inputs), fun _ _ => rfl⟩
  have hfirst : Reachable (s.perform .run).1 := (Reachable.start hstart).perform .run
  -- a run changes nothing of the frame
  have hframe := (perform_run_steps hfirst.coherent).frame
  obtain ⟨hanswers, _⟩ := cache_decides hfirst (hfirst.perform .run) (Executor.plan_of_frame hframe)
    (Executor.graph_of_frame hframe) (Executor.options_of_frame hframe) hcache
    (congrArg Executor.Frame.logic hframe) hcomputes [.clearNode ⟨"a"⟩, .runNode ⟨"c"⟩, .run]
  exact ⟨_, _, hfirst, hfirst.perform .run, hstatus, hstatus', hcache, hanswers⟩

end Session

end StageFlow
