import Mathlib.Data.List.Induction
import StageFlow.Proofs.Calls

/-!
# Where results come from

The journal tells which invocation each result is from. Results are made of what the logic answered to the
inputs of their nodes; as long as nothing is cleared, these inputs stay what they were.

## Contents
- **Journals.** `Ran`, an invocation as the journal shows it, and `Opened`, one that has not ended.
- **Results.** `Grounded`: what is known of the logic's answers is known of all results.
- **Calls.** Without clearing, calls keep it.
- **Inputs.** What `gatherInputs` gives.
-/

namespace StageFlow

open Executor (Invocation)

/-! ## Journals -/

/-- Does an event concern the invocation of a node? -/
def Event.concerns (id : NodeId) : Event → Bool
  | .started node _ => node.id = id
  | .ended id' _ => id' = id
  | .cleared _ | .clearedAll => false

/-- The journal shows an invocation that has not ended. -/
def Opened (journal : List Event) (node : NodeDescriptor) (inputs : Object) : Prop :=
  ∃ before after, journal = before ++ .started node inputs :: after
    ∧ ∀ event ∈ after, event.concerns node.id = false

/-- The journal shows an invocation from its start to its end. -/
def Ran (journal : List Event) (node : NodeDescriptor) (inputs : Object)
    (result : Except String Object) : Prop :=
  ∃ before after, Opened before node inputs ∧ journal = before ++ .ended node.id result :: after

section

variable {journal : List Event} {node : NodeDescriptor} {inputs : Object} {event : Event}
  {result : Except String Object}

theorem Opened.append (h : Opened journal node inputs) (he : event.concerns node.id = false) :
    Opened (journal ++ [event]) node inputs := by
  obtain ⟨before, after, rfl, hafter⟩ := h
  refine ⟨before, after ++ [event], by simp, ?_⟩
  intro ev hev
  rcases List.mem_append.mp hev with hev | hev
  · exact hafter ev hev
  · rw [List.mem_singleton.mp hev]
    exact he

theorem Opened.start (journal : List Event) (node : NodeDescriptor) (inputs : Object) :
    Opened (journal ++ [.started node inputs]) node inputs :=
  ⟨journal, [], rfl, fun _ hev => absurd hev List.not_mem_nil⟩

theorem Opened.ran (h : Opened journal node inputs) (result : Except String Object) :
    Ran (journal ++ [.ended node.id result]) node inputs result :=
  ⟨journal, [], h, rfl⟩

/-- What a journal shows, each longer one shows too. -/
theorem Ran.of_isPrefix {journal' : List Event} (h : Ran journal node inputs result)
    (hp : journal <+: journal') : Ran journal' node inputs result := by
  obtain ⟨before, after, hopen, rfl⟩ := h
  obtain ⟨more, rfl⟩ := hp
  exact ⟨before, after ++ more, hopen, by simp⟩

end

/-- The invocations that a journal shows from start to end. -/
def invocations : List Event → List (NodeDescriptor × Object × Except String Object)
  | [] => []
  | .started node inputs :: events =>
    match events.find? (Event.concerns node.id) with
    | some (.ended _ result) => (node, inputs, result) :: invocations events
    | _ => invocations events
  | _ :: events => invocations events

theorem mem_invocations_cons {x : NodeDescriptor × Object × Except String Object} (event : Event)
    {journal : List Event} (h : x ∈ invocations journal) : x ∈ invocations (event :: journal) := by
  cases event with
  | started node inputs =>
    rw [invocations]
    split
    · exact List.mem_cons_of_mem _ h
    · exact h
  | _ => exact h

/-- **`Ran` can be computed.** -/
theorem ran_iff_mem_invocations {journal : List Event} {node : NodeDescriptor} {inputs : Object}
    {result : Except String Object} :
    Ran journal node inputs result ↔ (node, inputs, result) ∈ invocations journal := by
  constructor
  · rintro ⟨_, after, ⟨before, between, rfl, hbetween⟩, rfl⟩
    induction before with
    | nil =>
      -- of the events after the start, the first that concerns the node is its end
      have hfind : (between ++ .ended node.id result :: after).find? (Event.concerns node.id)
          = some (.ended node.id result) := by
        rw [List.find?_append, List.find?_eq_none.mpr fun ev hev => by simp [hbetween ev hev],
          Option.none_or]
        simp [Event.concerns]
      show _ ∈ invocations (.started node inputs :: (between ++ .ended node.id result :: after))
      rw [invocations, hfind]
      exact List.mem_cons_self
    | cons event before ih => exact mem_invocations_cons event ih
  · intro h
    induction journal with
    | nil => exact absurd h List.not_mem_nil
    | cons event journal ih =>
      have hlater : (node, inputs, result) ∈ invocations journal →
          Ran (event :: journal) node inputs result := by
        intro hm
        obtain ⟨_, after, ⟨before, between, rfl, hbetween⟩, rfl⟩ := ih hm
        exact ⟨_, after, ⟨event :: before, between, rfl, hbetween⟩, rfl⟩
      cases event with
      | started n i =>
        rw [invocations] at h
        split at h
        · rename_i id r hfind
          rcases List.mem_cons.mp h with heq | hm
          · obtain ⟨rfl, rfl, rfl⟩ : node = n ∧ inputs = i ∧ result = r := by simpa using heq
            obtain ⟨hid, between, after, rfl, hbetween⟩ := List.find?_eq_some_iff_append.mp hfind
            obtain rfl : id = node.id := by simpa [Event.concerns] using hid
            refine ⟨_, after, ⟨[], between, rfl, ?_⟩, rfl⟩
            intro ev hev
            simpa using hbetween ev hev
          · exact hlater hm
        · exact hlater h
      | _ => exact hlater h

/-- All results that a journal tells of, those that are no failures, satisfy `P`. -/
def Answers (P : NodeDescriptor → Object → Object → Prop) (journal : List Event) : Prop :=
  ∀ node inputs values, Ran journal node inputs (.ok values) → isError values = false →
    P node inputs values

theorem Answers.of_isPrefix {P : NodeDescriptor → Object → Object → Prop} {journal journal' : List Event}
    (h : Answers P journal') (hp : journal <+: journal') : Answers P journal :=
  fun node inputs values hr => h node inputs values (hr.of_isPrefix hp)

/-- Does a call remove results? -/
def Call.clears : Call → Bool
  | .clear | .clearNode _ => true
  | _ => false

namespace Session

variable {σ : Type} {m m' : Moment σ} {s : Session σ} {P : NodeDescriptor → Object → Object → Prop}

/-- The journal only grows. -/
theorem Step.journal_grows (h : Step m m') : m.session.journal <+: m'.session.journal := by
  cases h with
  | prepare hc hp => exact List.prefix_append _ _
  | act host => exact List.prefix_rfl
  | settle hc hs => exact List.prefix_append _ _

/-- The node of an invocation bears its identifier. -/
theorem Supplied.node_id {e : Executor σ} {i : Invocation} (h : Supplied e i) : i.node.id = i.id := by
  obtain ⟨_, _, hn, _⟩ := h
  unfold Graph.find? at hn
  simpa using List.find?_some hn

/-- What is in flight has been opened. -/
def Moment.InProgress (m : Moment σ) : Prop :=
  ∀ i ∈ m.flight, Opened m.session.journal i.node i.inputs

theorem inProgress_nil (s : Session σ) : Moment.InProgress ⟨[], s⟩ :=
  fun _ hi => absurd hi List.not_mem_nil

theorem Step.inProgress (h : Step m m') (hm : m.Sound) (ho : m.InProgress) : m'.InProgress := by
  have hm' := h.sound hm
  cases h with
  | @prepare flight s id c e' hc hp =>
    cases hv : s.executor.verdict c with
    | cached values =>
      simp only [Executor.Prepared.launched, List.map_nil, List.append_nil]
      exact ho
    | waiting =>
      simp only [Executor.Prepared.launched, List.map_nil, List.append_nil]
      exact ho
    | ready j =>
      simp only [hv, Executor.Prepared.launched, List.map_cons, List.map_nil] at hm' ⊢
      intro i hi
      rcases List.mem_append.mp hi with hi' | hi'
      · -- another node is launched
        refine (ho i hi').append (decide_eq_false ?_)
        have hj : j ∈ flight ++ [j] := List.mem_append_right flight List.mem_cons_self
        rw [(hm'.supplied i hi).node_id, (hm'.supplied j hj).node_id]
        have hnodup := hm'.distinct
        rw [List.map_append, List.nodup_append] at hnodup
        exact fun heq =>
          hnodup.2.2 i.id (List.mem_map_of_mem hi') j.id (by simp) heq.symm
      · rw [List.mem_singleton.mp hi']
        exact .start s.journal j.node j.inputs
  | act host => exact ho
  | @settle flight s x c e' hc hs =>
    intro i hi
    refine (ho i (List.mem_cons_of_mem x.1 hi)).append (decide_eq_false ?_)
    rw [(hm.supplied i (List.mem_cons_of_mem x.1 hi)).node_id]
    exact fun heq => (List.nodup_cons.mp hm.distinct).1 (heq ▸ List.mem_map_of_mem hi)

/-! ## Results -/

/-- Each result satisfies `P`, with the inputs that its node has now; and these are all there. -/
def Grounded (P : NodeDescriptor → Object → Object → Prop) (e : Executor σ) : Prop :=
  ∀ id r, e.cache.get? id = some r → ∃ c node values, e.controllers.find? id = some c
    ∧ e.graph.find? id = some node ∧ c.inputsAvailable e.cache = true ∧ r = .ofObject values
    ∧ P node (Executor.gatherInputs e.cache c.bindings) values

theorem Grounded.mono {Q : NodeDescriptor → Object → Object → Prop} {e : Executor σ}
    (h : Grounded P e) (hPQ : ∀ node inputs values, P node inputs values → Q node inputs values) :
    Grounded Q e := by
  intro id r hr
  obtain ⟨c, node, values, hc, hn, ha, hv, hP⟩ := h id r hr
  exact ⟨c, node, values, hc, hn, ha, hv, hPQ _ _ _ hP⟩

/-- More results take no grounds away. -/
theorem Grounded.extend {e e' : Executor σ} {id : NodeId} {c : Controller} {node : NodeDescriptor}
    {values : Object} (hf : e'.frame = e.frame) (hx : e'.cache.Extends e.cache)
    (hc : e.controllers.find? id = some c) (hn : e.graph.find? id = some node)
    (ha : c.inputsAvailable e.cache = true)
    (hP : P node (Executor.gatherInputs e.cache c.bindings) values) :
    ∃ c', e'.controllers.find? id = some c' ∧ e'.graph.find? id = some node
      ∧ c'.inputsAvailable e'.cache = true
      ∧ P node (Executor.gatherInputs e'.cache c'.bindings) values := by
  have hsup : Supplied e ⟨id, node, Executor.gatherInputs e.cache c.bindings⟩ := ⟨c, hc, hn, ha, rfl⟩
  obtain ⟨c', hc', hn', ha', hi⟩ := hsup.of_frame hf hx
  exact ⟨c', hc', hn', ha', hi ▸ hP⟩

/-- **A step keeps results grounded** if what the logic answers satisfies `P`. -/
theorem Step.grounded (h : Step m m') (hm : m.Sound) (ho : m.InProgress)
    (hans : Answers P m'.session.journal) (hg : Grounded P m.session.executor) :
    Grounded P m'.session.executor := by
  have hx := h.extends hm
  have hframe := h.frame
  -- a result that was there before keeps its grounds
  have hold : ∀ id r, m.session.executor.cache.get? id = some r →
      ∃ c node values, m'.session.executor.controllers.find? id = some c
        ∧ m'.session.executor.graph.find? id = some node
        ∧ c.inputsAvailable m'.session.executor.cache = true ∧ r = .ofObject values
        ∧ P node (Executor.gatherInputs m'.session.executor.cache c.bindings) values := by
    intro id r hr
    obtain ⟨c, node, values, hc, hn, ha, hv, hP⟩ := hg id r hr
    obtain ⟨c', hc', hn', ha', hP'⟩ := Grounded.extend hframe hx hc hn ha hP
    exact ⟨c', node, values, hc', hn', ha', hv, hP'⟩
  intro id r hr
  cases h with
  | prepare hc hp =>
    apply hold id r
    rw [← hr]
    exact congrArg (·.get? id) hp.cache.symm
  | act host => exact hold id r hr
  | @settle flight s x c e' hc hs =>
    have hr' : e'.cache.get? id = some r := hr
    rw [hs.cache, Cache.get?_absorb] at hr'
    split at hr'
    · rename_i hid
      subst hid
      have hcid : c.id = x.1.id := Executor.id_of_find? hc
      cases hj : x.outcome with
      | error err =>
        rw [hj] at hr'
        exact hold _ r hr'
      | ok values =>
        rw [hj] at hr'
        obtain ⟨hresult, herr⟩ := Executor.judge_eq_ok.mp hj
        have hsup := hm.supplied x.1 List.mem_cons_self
        have hran : Ran (s.journal ++ [x.event]) x.1.node x.1.inputs (.ok values) := by
          have := (ho x.1 List.mem_cons_self).ran x.2
          rw [hsup.node_id] at this
          rw [← hresult]
          exact this
        have hP := hans _ _ _ hran herr
        obtain ⟨d, hd, hn, ha, hi⟩ := hsup
        rw [hi] at hP
        obtain ⟨d', hd', hn', ha', hP'⟩ := Grounded.extend hframe hx hd hn ha hP
        rw [hcid]
        exact ⟨d', x.1.node, values, hd', hn', ha', (Option.some.inj hr').symm, hP'⟩
    · exact hold id r hr'

theorem Steps.journal_grows (h : Steps m m') : m.session.journal <+: m'.session.journal := by
  induction h with
  | refl => exact List.prefix_rfl
  | tail _ hlast ih => exact ih.trans hlast.journal_grows

theorem Steps.inProgress (h : Steps m m') (hm : m.Sound) (ho : m.InProgress) : m'.InProgress := by
  induction h with
  | refl => exact ho
  | tail hs hlast ih => exact hlast.inProgress (Steps.sound hs hm) ih

/-- **Any number of steps keep results grounded.** -/
theorem Steps.grounded (h : Steps m m') (hm : m.Sound) (ho : m.InProgress)
    (hg : Grounded P m.session.executor) (hans : Answers P m'.session.journal) :
    Grounded P m'.session.executor := by
  induction h with
  | refl => exact hg
  | tail hs hlast ih =>
    have hbefore := ih (hans.of_isPrefix hlast.journal_grows)
    exact hlast.grounded (Steps.sound hs hm) (Steps.inProgress hs hm ho) hans hbefore

/-! ## Calls -/

theorem perform_journal_grows (hs : s.executor.Coherent []) (call : Call) :
    s.journal <+: (s.perform call).1.journal := by
  cases call with
  | run => exact (perform_run_steps hs).journal_grows
  | runNode id => exact (perform_runNode_steps hs id).journal_grows
  | clear => exact List.prefix_append _ _
  | clearNode id =>
    obtain ⟨e', he, _⟩ := hs.clearNode_eq id
    rw [perform_clearNode he]
    exact List.prefix_append _ _
  | withOptions options => exact List.prefix_rfl

theorem performAll_journal_grows (hs : s.executor.Coherent []) (calls : List Call) :
    s.journal <+: (s.performAll calls).1.journal := by
  induction calls generalizing s with
  | nil => exact List.prefix_rfl
  | cons call calls ih =>
    exact (perform_journal_grows hs call).trans (ih (perform_coherent hs call))

/-- A call that removes no results keeps results grounded. -/
theorem perform_grounded (hs : s.executor.Coherent []) {call : Call} (hc : call.clears = false)
    (hg : Grounded P s.executor) (hans : Answers P (s.perform call).1.journal) :
    Grounded P (s.perform call).1.executor := by
  cases call with
  | run => exact (perform_run_steps hs).grounded (moment_sound hs) (inProgress_nil s) hg hans
  | runNode id => exact (perform_runNode_steps hs id).grounded (moment_sound hs) (inProgress_nil s) hg hans
  | clear => exact absurd hc (by simp [Call.clears])
  | clearNode id => exact absurd hc (by simp [Call.clears])
  | withOptions options => exact hg

/-- **Without clearing, calls keep results grounded.** -/
theorem performAll_grounded (hs : s.executor.Coherent []) {calls : List Call}
    (hc : ∀ call ∈ calls, call.clears = false) (hg : Grounded P s.executor)
    (hans : Answers P (s.performAll calls).1.journal) : Grounded P (s.performAll calls).1.executor := by
  induction calls generalizing s with
  | nil => exact hg
  | cons call calls ih =>
    have hcoh := perform_coherent hs call
    have hfirst := hans.of_isPrefix (performAll_journal_grows hcoh calls)
    exact ih hcoh (fun c hm => hc c (List.mem_cons_of_mem call hm))
      (perform_grounded hs (hc call List.mem_cons_self) hg hfirst) hans

/-- Without results, nothing is to be grounded. -/
theorem grounded_of_empty {e : Executor σ} (h : e.cache = .empty) : Grounded P e := by
  intro id r hr
  rw [h, Cache.get?_empty] at hr
  exact absurd hr (by simp)

/-! ## Inputs -/

/-- **The inputs of a node:** under each name the output that the last binding of it leads to. -/
theorem get?_gatherInputs {cache : Cache} {bindings : List InputBinding}
    (h : ∀ b ∈ bindings, ∃ v, cache.output? b.source b.output = some v) (name : String) :
    (Executor.gatherInputs cache bindings).get? name
      = (bindings.filter fun b => b.input = name).getLast?.bind fun b =>
          cache.output? b.source b.output := by
  induction bindings using List.reverseRecOn with
  | nil => rfl
  | append_singleton bs b ih =>
    obtain ⟨v, hv⟩ := h b (by simp)
    have hbs := ih fun b' hb' => h b' (List.mem_append_left [b] hb')
    unfold Executor.gatherInputs
    rw [List.foldl_append, List.foldl_cons, List.foldl_nil, hv]
    show ((Executor.gatherInputs cache bs).insert b.input v).get? name = _
    rw [SortedMap.get?_insert, List.filter_append]
    by_cases hname : name = b.input
    · subst hname
      simp [hv]
    · have hne : ¬ b.input = name := fun h => hname h.symm
      rw [if_neg hname, hbs]
      simp [hne]

end Session

end StageFlow
