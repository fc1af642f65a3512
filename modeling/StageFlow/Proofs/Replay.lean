import StageFlow.Proofs.Provenance
import StageFlow.Proofs.Rounds

/-!
# What the journal accounts for

The cache is what the events of the journal amount to: a success stores, a clearing removes. So a start in
the journal can be judged by what stands before it, and it is found that the node was due and got the
results that stood then. Whatever is called in whatever order, nothing else comes to the logic.

## Contents
- **Replay.** `Cache.replay`, the cache that a journal amounts to, and `Stands`, a result that is in it.
- **Accounts.** `Accounted`, kept by every step and every call.
- **Inputs.** `inputs_come_from_standing_results`.
- **Once.** A node whose result stands is not invoked: `nodes_run_once`.
-/

namespace StageFlow

open Executor (Invocation judge)

/-! ## Replay -/

/-- Does an event remove the result of a node? -/
def Event.clears (id : NodeId) : Event → Bool
  | .cleared k => k = id
  | .clearedAll => true
  | _ => false

/-- Does a call remove the result of a node? -/
def Call.clearsNode (id : NodeId) : Call → Bool
  | .clearNode k => k = id
  | .clear => true
  | _ => false

/-- Does an event store a result of a node? -/
def Event.stores (id : NodeId) : Event → Bool
  | .ended k (.ok values) => k = id && !isError values
  | _ => false

theorem Event.exists_of_stores {id : NodeId} {event : Event} (h : event.stores id = true) :
    ∃ values, event = .ended id (.ok values) ∧ isError values = false := by
  unfold stores at h
  split at h
  · rename_i k values
    obtain ⟨rfl, herr⟩ : k = id ∧ isError values = false := by simpa using h
    exact ⟨values, rfl, herr⟩
  · simp at h

theorem Event.eq_of_clears {id : NodeId} {event : Event} (h : event.clears id = true) :
    event = .cleared id ∨ event = .clearedAll := by
  cases event with
  | cleared k =>
    obtain rfl : k = id := by simpa [clears] using h
    exact Or.inl rfl
  | clearedAll => exact Or.inr rfl
  | started node inputs => simp [clears] at h
  | ended k result => simp [clears] at h

/-- The journal shows an invocation of a node that has succeeded and whose result stands: it has been
neither removed nor replaced since. -/
def Stands (journal : List Event) (id : NodeId) (values : Object) : Prop :=
  ∃ before after node inputs, journal = before ++ .ended id (.ok values) :: after
    ∧ node.id = id ∧ Opened before node inputs ∧ isError values = false
    ∧ ∀ event ∈ after, event.stores id = false ∧ event.clears id = false

namespace Cache

variable {id : NodeId} {event : Event} {journal : List Event}

/-- A cache after one more event. -/
def after (cache : Cache) : Event → Cache
  | .started _ _ => cache
  | .ended id result => cache.absorb id (judge id result)
  | .cleared id => cache.erase id
  | .clearedAll => .empty

/-- The cache that a journal amounts to. -/
def replay (journal : List Event) : Cache := journal.foldl after .empty

@[simp] theorem replay_append (journal events : List Event) :
    replay (journal ++ events) = events.foldl after (replay journal) :=
  List.foldl_append

/-- An event that does not concern the result of a node leaves it as it is. -/
theorem get?_after (cache : Cache) (hs : event.stores id = false) (hc : event.clears id = false) :
    (cache.after event).get? id = cache.get? id := by
  cases event with
  | started node inputs => rfl
  | clearedAll => exact absurd hc (by simp [Event.clears])
  | cleared k =>
    have hk : id ≠ k := fun h => by simp [Event.clears, h] at hc
    rw [after, get?_erase, if_neg hk]
  | ended k result =>
    rw [after, get?_absorb]
    split
    · rename_i hk
      cases hj : judge k result with
      | error err => rfl
      | ok values =>
        obtain ⟨rfl, herr⟩ := Executor.judge_eq_ok.mp hj
        simp [Event.stores, hk, herr] at hs
    · rfl

/-- A success stores its result. -/
theorem get?_after_ended (cache : Cache) {values : Object} (herr : isError values = false) :
    (cache.after (.ended id (.ok values))).get? id = some (.ofObject values) := by
  have hj : judge id (.ok values) = .ok values := Executor.judge_eq_ok.mpr ⟨rfl, herr⟩
  rw [after, hj, get?_absorb, if_pos rfl]

/-- A result of a node is there as long as nothing removes it. -/
theorem has_after {cache : Cache} (h : cache.has id = true) (hc : event.clears id = false) :
    (cache.after event).has id = true := by
  unfold has at h ⊢
  cases hs : event.stores id with
  | false => rwa [get?_after cache hs hc]
  | true =>
    -- the result is replaced
    obtain ⟨values, rfl, herr⟩ := Event.exists_of_stores hs
    rw [get?_after_ended cache herr]
    rfl

theorem has_foldl_after {cache : Cache} {events : List Event} (h : cache.has id = true)
    (hc : ∀ event ∈ events, event.clears id = false) : (events.foldl after cache).has id = true := by
  induction events generalizing cache with
  | nil => exact h
  | cons event events ih =>
    exact ih (has_after h (hc event List.mem_cons_self)) fun ev hev =>
      hc ev (List.mem_cons_of_mem event hev)

/-- A node that has succeeded has a result as long as nothing removes it. -/
theorem has_replay_of_ended (before : List Event) {events : List Event} {values : Object}
    (herr : isError values = false) (hc : ∀ event ∈ events, event.clears id = false) :
    (replay (before ++ .ended id (.ok values) :: events)).has id = true := by
  rw [replay_append, List.foldl_cons]
  refine has_foldl_after ?_ hc
  rw [has, get?_after_ended _ herr]
  rfl

/-- **A result is that of the last success,** unless it has been removed. -/
theorem exists_of_get?_replay {r : NodeResult} (h : (replay journal).get? id = some r) :
    ∃ before values after, journal = before ++ .ended id (.ok values) :: after
      ∧ isError values = false
      ∧ (∀ event ∈ after, event.stores id = false ∧ event.clears id = false)
      ∧ r = .ofObject values := by
  -- from the end of the journal: the last event that concerns the result decides
  induction journal using List.reverseRecOn with
  | nil => exact absurd h (by simp [replay])
  | append_singleton journal event ih =>
    rw [replay_append] at h
    cases hs : event.stores id with
    | true =>
      obtain ⟨values, rfl, herr⟩ := Event.exists_of_stores hs
      rw [List.foldl_cons, List.foldl_nil, get?_after_ended _ herr] at h
      exact ⟨journal, values, [], rfl, herr, fun _ hev => absurd hev List.not_mem_nil,
        (Option.some.inj h).symm⟩
    | false =>
      cases hc : event.clears id with
      | true =>
        rcases Event.eq_of_clears hc with rfl | rfl
        · exact absurd h (by simp [after])
        · exact absurd h (by simp [after])
      | false =>
        rw [List.foldl_cons, List.foldl_nil, get?_after _ hs hc] at h
        obtain ⟨before, values, later, rfl, herr, hlater, hr⟩ := ih h
        refine ⟨before, values, later ++ [event], by simp, herr, ?_, hr⟩
        intro ev hev
        rcases List.mem_append.mp hev with hev | hev
        · exact hlater ev hev
        · rw [List.mem_singleton.mp hev]
          exact ⟨hs, hc⟩

end Cache

/-! ## Accounts -/

/-- Every event of a journal is as it should be after those before it. -/
def Justified (Q : List Event → Event → Prop) (journal : List Event) : Prop :=
  ∀ before event after, journal = before ++ event :: after → Q before event

theorem Justified.nil (Q : List Event → Event → Prop) : Justified Q [] := by
  intro before event after h
  exact absurd h (by simp)

theorem Justified.concat {Q : List Event → Event → Prop} {journal : List Event} {event : Event}
    (h : Justified Q journal) (he : Q journal event) : Justified Q (journal ++ [event]) := by
  intro before ev after heq
  -- the event is the last one or stands before it
  rcases List.eq_nil_or_concat after with rfl | ⟨after, last, rfl⟩
  · obtain ⟨rfl, hev⟩ := List.append_inj' heq rfl
    rw [← List.singleton_inj.mp hev]
    exact he
  · rw [List.concat_eq_append, ← List.cons_append, ← List.append_assoc] at heq
    exact h before ev after (List.append_inj' heq rfl).1

theorem Justified.mono {Q Q' : List Event → Event → Prop} {journal : List Event}
    (h : Justified Q journal) (hQ : ∀ before event, Q before event → Q' before event) :
    Justified Q' journal :=
  fun before event after heq => hQ before event (h before event after heq)

namespace Session

variable {σ : Type} {s : Session σ} {m m' : Moment σ}

/-- An event may come after others: a node is started if it is due by what they amount to, with the inputs
that it is due with, and what ends has been started. -/
def Warranted (e : Executor σ) (before : List Event) : Event → Prop
  | .started node inputs =>
    ({ e with cache := .replay before } : Executor σ).due? node.id = some ⟨node.id, node, inputs⟩
  | .ended id _ => ∃ node inputs, node.id = id ∧ Opened before node inputs
  | .cleared _ | .clearedAll => True

theorem Warranted.of_frame {e e' : Executor σ} (hf : e'.frame = e.frame) {before : List Event}
    {event : Event} (h : Warranted e before event) : Warranted e' before event := by
  cases event with
  | started node inputs =>
    have hframe : ({ e' with cache := .replay before } : Executor σ).frame
        = ({ e with cache := .replay before } : Executor σ).frame := hf
    exact (Executor.due?_of_frame hframe rfl node.id).trans h
  | ended id result => exact h
  | cleared id => trivial
  | clearedAll => trivial

/-- The journal accounts for the cache and for all that has been invoked. -/
structure Accounted (s : Session σ) : Prop where
  cache : s.executor.cache = .replay s.journal
  warranted : Justified (Warranted s.executor) s.journal

/-- **Every step is accounted for.** -/
theorem Step.accounted (h : Step m m') (hm : m.Sound) (ho : m.InProgress)
    (ha : Accounted m.session) : Accounted m'.session := by
  have hold : Justified (Warranted m'.session.executor) m.session.journal :=
    ha.warranted.mono fun _ _ => Warranted.of_frame h.frame
  cases h with
  | @prepare flight s id c e' hc hp =>
    cases hv : s.executor.verdict c with
    | cached values =>
      simp only [Executor.Prepared.launched, List.map_nil, List.append_nil]
      exact ⟨hp.cache.trans ha.cache, hold⟩
    | waiting =>
      simp only [Executor.Prepared.launched, List.map_nil, List.append_nil]
      exact ⟨hp.cache.trans ha.cache, hold⟩
    | ready i =>
      simp only [Executor.Prepared.launched, List.map_cons, List.map_nil]
      have hi : i ∈ (s.executor.verdict c).launched := by rw [hv]; exact List.mem_singleton_self i
      obtain ⟨_, hdue⟩ := Executor.mem_launched hi
      obtain ⟨d, node, hd, hn, _, havail, rfl⟩ := Executor.due?_eq_some.mp hdue
      have hnode : node.id = c.id := by simpa using List.find?_some hn
      refine ⟨?_, hold.concat ?_⟩
      · rw [Cache.replay_append]
        exact hp.cache.trans ha.cache
      · -- the cache at the start is what the journal amounts to before it
        have hframe : ({ e' with cache := .replay s.journal } : Executor σ).frame = s.executor.frame :=
          hp.frame
        show _ = some _
        rw [hnode, ← hdue]
        exact Executor.due?_of_frame hframe ha.cache.symm c.id
  | act host => exact ⟨ha.cache, hold⟩
  | @settle flight s x c e' hc hs =>
    have hid : c.id = x.1.id := Executor.id_of_find? hc
    refine ⟨?_, hold.concat ⟨x.1.node, x.1.inputs, ?_, ho x.1 List.mem_cons_self⟩⟩
    · show e'.cache = _
      have hcache : s.executor.cache = .replay s.journal := ha.cache
      rw [Cache.replay_append, hs.cache, hid, hcache]
      rfl
    · exact (hm.supplied x.1 List.mem_cons_self).node_id

theorem Steps.accounted (h : Steps m m') (hm : m.Sound) (ho : m.InProgress)
    (ha : Accounted m.session) : Accounted m'.session := by
  induction h with
  | refl => exact ha
  | tail hs hlast ih => exact hlast.accounted (Steps.sound hs hm) (Steps.inProgress hs hm ho) ih

/-- **Every call is accounted for.** -/
theorem perform_accounted (hs : s.executor.Coherent []) (ha : Accounted s) (call : Call) :
    Accounted (s.perform call).1 := by
  cases call with
  | run => exact (perform_run_steps hs).accounted (moment_sound hs) (inProgress_nil s) ha
  | runNode id =>
    exact (perform_runNode_steps hs id).accounted (moment_sound hs) (inProgress_nil s) ha
  | clear =>
    have hold : Justified (Warranted s.executor.clear) s.journal :=
      ha.warranted.mono fun _ _ => Warranted.of_frame (Executor.frame_clear s.executor)
    refine ⟨?_, hold.concat trivial⟩
    show Cache.empty = Cache.replay (s.journal ++ [.clearedAll])
    rw [Cache.replay_append]
    rfl
  | clearNode id =>
    obtain ⟨e', he, hcleared⟩ := hs.clearNode_eq id
    have hold : Justified (Warranted e') s.journal :=
      ha.warranted.mono fun _ _ => Warranted.of_frame hcleared.frame
    rw [perform_clearNode he]
    refine ⟨?_, hold.concat trivial⟩
    show e'.cache = Cache.replay (s.journal ++ [.cleared id])
    rw [Cache.replay_append, hcleared.cache, ha.cache]
    rfl
  | withOptions options =>
    refine ⟨ha.cache, ha.warranted.mono ?_⟩
    intro before event h
    cases event with
    | started node inputs => exact h
    | ended id result => exact h
    | cleared id => trivial
    | clearedAll => trivial

theorem Reachable.accounted (h : Reachable s) : Accounted s := by
  induction h with
  | @start plan graph logic host s hs =>
    obtain ⟨s', hs', _, hcache, hjournal, _⟩ := start_eq_ok plan graph logic host
    obtain rfl := Except.ok.inj (hs'.symm.trans hs)
    refine ⟨?_, ?_⟩
    · rw [hcache, hjournal]
      rfl
    · rw [hjournal]
      exact .nil _
  | perform h call ih => exact perform_accounted h.coherent ih call

/-- A result that the events before some point amount to stands there. -/
theorem Reachable.stands (h : Reachable s) {before after : List Event} {id : NodeId} {r : NodeResult}
    (hj : s.journal = before ++ after) (hr : (Cache.replay before).get? id = some r) :
    ∃ values, Stands before id values ∧ r = .ofObject values := by
  obtain ⟨earlier, values, later, rfl, herr, hlater, rfl⟩ := Cache.exists_of_get?_replay hr
  obtain ⟨node, inputs, hid, hopen⟩ : Warranted s.executor earlier (.ended id (.ok values)) :=
    h.accounted.warranted earlier _ (later ++ after) (by rw [hj]; simp)
  exact ⟨values, ⟨earlier, later, node, inputs, rfl, hid, hopen, herr, hlater⟩, rfl⟩

/-- What a start in the journal says: the node had no result then, and its inputs were there. -/
theorem Reachable.due_of_started (h : Reachable s) {before after : List Event} {node : NodeDescriptor}
    {inputs : Object} (hj : s.journal = before ++ .started node inputs :: after) :
    ∃ c, s.executor.controllers.find? node.id = some c ∧ s.executor.graph.find? node.id = some node
      ∧ (Cache.replay before).get? node.id = none
      ∧ c.inputsAvailable (.replay before) = true
      ∧ inputs = Executor.gatherInputs (.replay before) c.bindings := by
  obtain ⟨c, node', hc, hn, hnone, havail, heq⟩ :=
    Executor.due?_eq_some.mp (h.accounted.warranted before _ after hj)
  obtain ⟨rfl, rfl⟩ : node = node' ∧ inputs = _ := by simpa using heq
  exact ⟨c, hc, hn, hnone, havail, rfl⟩

/-! ## Inputs -/

/-- **What comes to the logic.** A node is handed over with the first descriptor of its identifier; each of
its bindings leads to an output of a result that stands; and its inputs are just these outputs, under each
name that of the last binding. -/
theorem inputs_come_from_standing_results {plan : Plan} {graph : Graph} {l : Option (Logic σ)}
    {host : σ} (hstart : Session.start plan graph l host = .ok s) (calls : List Call)
    {before after : List Event} {node : NodeDescriptor} {inputs : Object}
    (hj : (s.performAll calls).1.journal = before ++ .started node inputs :: after) :
    graph.find? node.id = some node
      ∧ ∃ c, (s.performAll calls).1.executor.controller? node.id = .ok (some c)
        ∧ (∀ b ∈ c.bindings, ∃ values,
          Stands before b.source values ∧ values.contains b.output = true)
        ∧ (∀ name, inputs.contains name = true ↔ ∃ b ∈ c.bindings, b.input = name)
        ∧ ∀ name b, (c.bindings.filter fun b => b.input = name).getLast? = some b →
          ∃ values, Stands before b.source values ∧ inputs.get? name = values.get? b.output := by
  obtain ⟨s', hs', hcoh, _, _, _, hgraph, _⟩ := start_eq_ok plan graph l host
  obtain rfl := Except.ok.inj (hs'.symm.trans hstart)
  have hreach := (Reachable.start hstart).performAll calls
  have hframe := performAll_frame hcoh calls
  obtain ⟨c, hc, hn, _, havail, rfl⟩ := hreach.due_of_started hj
  have havail := Controller.inputsAvailable_iff.mp havail
  have hget := get?_gatherInputs havail
  -- a binding leads to a result that stands
  have hstands : ∀ b ∈ c.bindings, ∃ values, Stands before b.source values
      ∧ (Cache.replay before).output? b.source b.output = values.get? b.output := by
    intro b hb
    obtain ⟨v, hv⟩ := havail b hb
    obtain ⟨r, hr, hout⟩ := Option.bind_eq_some_iff.mp hv
    obtain ⟨values, hst, rfl⟩ := hreach.stands hj hr
    refine ⟨values, hst, ?_⟩
    rw [hv, ← hout, NodeResult.get?_ofObject]
  refine ⟨?_, c, by rw [hreach.coherent.wellFormed.controller?_eq, hc], ?_, ?_, ?_⟩
  · rw [← hgraph, ← hn, Executor.graph_of_frame hframe]
    rfl
  · intro b hb
    obtain ⟨values, hst, hout⟩ := hstands b hb
    obtain ⟨v, hv⟩ := havail b hb
    refine ⟨values, hst, ?_⟩
    rw [SortedMap.contains, ← hout, hv]
    rfl
  · intro name
    rw [SortedMap.contains, hget name]
    constructor
    · intro hsome
      obtain ⟨v, hv⟩ := Option.isSome_iff_exists.mp hsome
      obtain ⟨b, hb, _⟩ := Option.bind_eq_some_iff.mp hv
      obtain ⟨hmem, hname⟩ := List.mem_filter.mp (List.mem_of_getLast? hb)
      exact ⟨b, hmem, of_decide_eq_true hname⟩
    · rintro ⟨b, hb, hname⟩
      have hmem : b ∈ c.bindings.filter fun b => b.input = name :=
        List.mem_filter.mpr ⟨hb, decide_eq_true hname⟩
      obtain ⟨last, hlast⟩ :=
        Option.isSome_iff_exists.mp (List.getLast?_isSome.mpr (List.ne_nil_of_mem hmem))
      obtain ⟨v, hv⟩ := havail last (List.mem_filter.mp (List.mem_of_getLast? hlast)).1
      rw [hlast, Option.bind_some, hv]
      rfl
  · intro name b hb
    obtain ⟨values, hst, hout⟩ := hstands b (List.mem_filter.mp (List.mem_of_getLast? hb)).1
    exact ⟨values, hst, by rw [hget name, hb, Option.bind_some, hout]⟩

/-- A consumer that is run again after its producer: its inputs are from the second result. -/
theorem inputs_come_from_standing_results_sample :
    ∃ (s : Session Unit) (before after : List Event) (node : NodeDescriptor) (inputs : Object),
      Session.start Sample.plan Sample.graph (some .echo) () = .ok s
      ∧ (s.performAll [.run, .clear, .runNode ⟨"a"⟩, .runNode ⟨"c"⟩]).1.journal
        = before ++ .started node inputs :: after
      ∧ node.id = ⟨"c"⟩ ∧ inputs.get? "in" = some (.bool true)
      ∧ ∃ values, Stands before ⟨"a"⟩ values ∧ inputs.get? "in" = values.get? "out" := by
  obtain ⟨s, hstart, before, after, node, inputs, hj, hid, hin, hc⟩ : ∃ s : Session Unit,
      Session.start Sample.plan Sample.graph (some .echo) () = .ok s
      ∧ ∃ before after node inputs,
        (s.performAll [.run, .clear, .runNode ⟨"a"⟩, .runNode ⟨"c"⟩]).1.journal
          = before ++ .started node inputs :: after
        ∧ node.id = ⟨"c"⟩ ∧ inputs.get? "in" = some (.bool true)
        ∧ (s.performAll [.run, .clear, .runNode ⟨"a"⟩, .runNode ⟨"c"⟩]).1.executor.controller? ⟨"c"⟩
          = .ok (some ⟨⟨"c"⟩, .succeeded, [⟨⟨"a"⟩, "out", "in"⟩]⟩) := by
    refine ⟨_, (by rw [start, Executor.new, Plan.records_eq]; rfl), ?_⟩
    exact ⟨[_, _, _, _, _, _, _, _, _], [_], _, _, rfl, rfl, rfl, rfl⟩
  obtain ⟨_, c, hc', _, _, hlast⟩ := inputs_come_from_standing_results hstart _ hj
  rw [hid, hc] at hc'
  obtain rfl := Option.some.inj (Except.ok.inj hc')
  exact ⟨s, before, after, node, inputs, hstart, hj, hid, hin, hlast "in" _ rfl⟩

/-! ## Once -/

/-- A step removes no results. -/
theorem Step.events (h : Step m m') : ∃ events, m'.session.journal = m.session.journal ++ events
    ∧ ∀ event ∈ events, ∀ id, event.clears id = false := by
  cases h with
  | prepare hc hp =>
    refine ⟨_, rfl, ?_⟩
    intro event hm id
    obtain ⟨i, _, rfl⟩ := List.mem_map.mp hm
    rfl
  | act host => exact ⟨[], (List.append_nil _).symm, fun _ hm => absurd hm List.not_mem_nil⟩
  | settle hc hs =>
    refine ⟨_, rfl, ?_⟩
    intro event hm id
    rw [List.mem_singleton.mp hm]
    rfl

theorem Steps.events (h : Steps m m') : ∃ events, m'.session.journal = m.session.journal ++ events
    ∧ ∀ event ∈ events, ∀ id, event.clears id = false := by
  induction h with
  | refl => exact ⟨[], (List.append_nil _).symm, fun _ hm => absurd hm List.not_mem_nil⟩
  | tail _ hlast ih =>
    obtain ⟨events, heq, hevents⟩ := ih
    obtain ⟨events', heq', hevents'⟩ := hlast.events
    refine ⟨events ++ events', by rw [heq', heq, List.append_assoc], ?_⟩
    intro event hm
    exact (List.mem_append.mp hm).elim (hevents event) (hevents' event)

/-- Only a call that clears removes results, and such a call invokes nothing. -/
theorem perform_events (hs : s.executor.Coherent []) (call : Call) :
    ∃ events, (s.perform call).1.journal = s.journal ++ events
      ∧ ∀ id, (call.clearsNode id = false → ∀ event ∈ events, event.clears id = false)
        ∧ (call.clearsNode id = true → ∀ k result, Event.ended k result ∉ events) := by
  cases call with
  | run =>
    obtain ⟨events, heq, hevents⟩ := (perform_run_steps hs).events
    refine ⟨events, heq, fun id => ⟨fun _ event hm => hevents event hm id, ?_⟩⟩
    simp [Call.clearsNode]
  | runNode k =>
    obtain ⟨events, heq, hevents⟩ := (perform_runNode_steps hs k).events
    refine ⟨events, heq, fun id => ⟨fun _ event hm => hevents event hm id, ?_⟩⟩
    simp [Call.clearsNode]
  | clear =>
    refine ⟨[.clearedAll], rfl, ?_⟩
    simp [Call.clearsNode]
  | clearNode k =>
    obtain ⟨e', he, _⟩ := hs.clearNode_eq k
    refine ⟨[.cleared k], ?_, ?_⟩
    · rw [perform_clearNode he]
    · simp [Call.clearsNode, Event.clears]
  | withOptions options =>
    refine ⟨[], (List.append_nil _).symm, ?_⟩
    simp

theorem performAll_events (hs : s.executor.Coherent []) {calls : List Call} {id : NodeId}
    (hc : ∀ call ∈ calls, call.clearsNode id = false) :
    ∃ events, (s.performAll calls).1.journal = s.journal ++ events
      ∧ ∀ event ∈ events, event.clears id = false := by
  induction calls generalizing s with
  | nil => exact ⟨[], (List.append_nil _).symm, fun _ hm => absurd hm List.not_mem_nil⟩
  | cons call calls ih =>
    obtain ⟨events, heq, hevents⟩ := perform_events hs call
    obtain ⟨events', heq', hevents'⟩ :=
      ih (perform_coherent hs call) fun c hm => hc c (List.mem_cons_of_mem call hm)
    refine ⟨events ++ events', heq'.trans (by rw [heq, List.append_assoc]), ?_⟩
    intro event hm
    exact (List.mem_append.mp hm).elim ((hevents id).1 (hc call List.mem_cons_self) event)
      (hevents' event)

/-- **No node is invoked twice.** Within one run each is invoked at most once; and once an invocation has
succeeded, in whichever call, no later call invokes the node until its result is cleared. -/
theorem nodes_run_once (hs : Reachable s) :
    (∃ launched, launches (s.perform .run).1.journal = launches s.journal ++ launched
      ∧ (launched.map fun x => x.1.id).Nodup)
    ∧ ∀ (call : Call) (events : List Event) (id : NodeId) (values : Object),
      (s.perform call).1.journal = s.journal ++ events →
      Event.ended id (.ok values) ∈ events → isError values = false →
      ∀ calls : List Call, (∀ c ∈ calls, c.clearsNode id = false) →
      ∀ later : List Event,
        ((s.perform call).1.performAll calls).1.journal = (s.perform call).1.journal ++ later →
        ∀ node inputs, Event.started node inputs ∈ later → node.id ≠ id := by
  refine ⟨?_, ?_⟩
  · rw [perform_run]
    cases hl : s.executor.logic with
    | none => exact ⟨[], by rw [run_finish_of_none hl, List.append_nil], List.nodup_nil⟩
    | some logic =>
      obtain ⟨batch, hrounds⟩ := run_rounds hl logic.yields_trivial hs.sound
      refine ⟨_, hrounds.started, ?_⟩
      rw [hrounds.ids_started]
      exact hrounds.nodup hs.sound
  · intro call events id values hevents hm herr calls hcalls later hlater node inputs hstart heq
    subst heq
    obtain ⟨events', hevents', hclears⟩ := perform_events hs.coherent call
    obtain rfl := List.append_cancel_left (hevents.symm.trans hevents')
    obtain ⟨later', hlater', hlaterClears⟩ :=
      performAll_events (perform_coherent hs.coherent call) hcalls
    obtain rfl := List.append_cancel_left (hlater.symm.trans hlater')
    have hkeeps : ∀ event ∈ events, event.clears node.id = false := by
      cases hcall : call.clearsNode node.id with
      | false => exact (hclears node.id).1 hcall
      | true => exact absurd hm ((hclears node.id).2 hcall node.id (.ok values))
    -- the journal from the success up to the start, between which nothing clears
    obtain ⟨before, between, rfl⟩ := List.append_of_mem hm
    obtain ⟨between', after, rfl⟩ := List.append_of_mem hstart
    have hj : ((s.perform call).1.performAll calls).1.journal
        = (s.journal ++ before ++ .ended node.id (.ok values) :: (between ++ between'))
          ++ .started node inputs :: after := by
      rw [hlater, hevents]
      simp
    have hstays : ∀ event ∈ between ++ between', event.clears node.id = false := by
      intro event hev
      rcases List.mem_append.mp hev with hev | hev
      · exact hkeeps event (List.mem_append_right _ (List.mem_cons_of_mem _ hev))
      · exact hlaterClears event (List.mem_append_left _ hev)
    obtain ⟨c, _, _, hnone, _⟩ := ((hs.perform call).performAll calls).due_of_started hj
    have hhas := Cache.has_replay_of_ended (s.journal ++ before) herr hstays
    rw [Cache.has, hnone] at hhas
    exact absurd hhas (by simp)

/-- A node that is listed three times is invoked by the first run, and then no more. -/
theorem nodes_run_once_sample :
    ∃ s : Session Unit, Session.start Sample.repeating Sample.graph (some .echo) () = .ok s
      ∧ (s.perform .run).2 = .run (.ok ⟨2, 1, 1⟩)
      ∧ ∀ later : List Event,
        ((s.perform .run).1.performAll [.run, .runNode ⟨"a"⟩]).1.journal
          = (s.perform .run).1.journal ++ later →
        ∀ node inputs, Event.started node inputs ∈ later → node.id ≠ ⟨"a"⟩ := by
  obtain ⟨s, hstart, hanswer, first, rest, values, hj, herr⟩ : ∃ s : Session Unit,
      Session.start Sample.repeating Sample.graph (some .echo) () = .ok s
      ∧ (s.perform .run).2 = .run (.ok ⟨2, 1, 1⟩)
      ∧ ∃ first rest values,
        (s.perform .run).1.journal = s.journal ++ first :: .ended ⟨"a"⟩ (.ok values) :: rest
        ∧ isError values = false := by
    refine ⟨_, (by rw [start, Executor.new, Plan.records_eq]; rfl), rfl, ?_⟩
    exact ⟨_, _, _, rfl, rfl⟩
  obtain ⟨_, hlater⟩ := nodes_run_once (.start hstart)
  refine ⟨s, hstart, hanswer, ?_⟩
  exact hlater .run _ ⟨"a"⟩ values hj (by simp) herr [.run, .runNode ⟨"a"⟩] (by decide)

end Session

end StageFlow
