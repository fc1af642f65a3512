import StageFlow.Proofs.Calls

/-!
# Clearing

What is left when results are cleared, one by one or all at once. Calls change states, results and options,
and never which controllers there are, where they stand or what feeds them. So once all is cleared, an executor
is as it was made, whatever has been run on it in between and however that has ended.

## Contents
- **Waiting executors.** Those in which nothing has run are told apart by their frames.
- **Options.** `Call.optionsAfter`: only `withOptions` sets them.
- **Clearing one by one.** `Clears`, the outcome for any nodes in any order.
- **Fresh executors.** `clearing_restores_fresh`.
-/

namespace StageFlow

/-! ## Waiting executors -/

/-- Executors with the same frame and the same results are the same, but for their history, if nothing in them
has run. -/
theorem Executor.eq_of_waiting {σ : Type} {e e' : Executor σ} (hw : e.WellFormed)
    (hf : e'.frame = e.frame) (hcache : e'.cache = e.cache)
    (he : ∀ id c, e.controllers.find? id = some c → c.state = .waiting)
    (he' : ∀ id c, e'.controllers.find? id = some c → c.state = .waiting) :
    e' = { e with history := e'.history } := by
  have hcontrollers : e'.controllers = e.controllers := by
    apply hw.controllers_eq hf
    intro id c c' hc hc'
    rw [he id c hc, he' id c' hc']
  have heq := Executor.eq_of_frame hf
  rw [hcache, hcontrollers] at heq
  exact heq

/-! ## Options -/

/-- The options after a call. -/
def Call.optionsAfter (options : Options) : Call → Options
  | .withOptions options => options
  | .run | .runNode _ | .clear | .clearNode _ => options

namespace Session

variable {σ : Type} {s s' : Session σ} {ids : List NodeId}

theorem perform_options (hs : s.executor.Coherent []) (call : Call) :
    (s.perform call).1.executor.options = call.optionsAfter s.executor.options := by
  cases call with
  | run => exact Executor.options_of_frame (perform_run_steps hs).frame
  | runNode id => exact Executor.options_of_frame (perform_runNode_steps hs id).frame
  | clear => rfl
  | clearNode id =>
    obtain ⟨e', he, hcleared⟩ := hs.clearNode_eq id
    rw [perform_clearNode he]
    exact Executor.options_of_frame hcleared.frame
  | withOptions options => rfl

theorem performAll_options (hs : s.executor.Coherent []) (calls : List Call) :
    (s.performAll calls).1.executor.options = calls.foldl Call.optionsAfter s.executor.options := by
  induction calls generalizing s with
  | nil => rfl
  | cons call calls ih =>
    rw [List.foldl_cons, ← perform_options hs call]
    exact ih (perform_coherent hs call)

/-! ## Clearing one by one -/

/-- The outcome of clearing some nodes: they are waiting and have no result, and all else is as it was. -/
structure Clears (s : Session σ) (ids : List NodeId) (s' : Session σ) : Prop where
  frame : s'.executor.frame = s.executor.frame
  launches : launches s'.journal = launches s.journal
  get? : ∀ id, s'.executor.cache.get? id = if id ∈ ids then none else s.executor.cache.get? id
  find? : ∀ id, s'.executor.controllers.find? id
    = (s.executor.controllers.find? id).map fun c => if id ∈ ids then c.reset else c

theorem Clears.nil (s : Session σ) : Clears s [] s where
  frame := rfl
  launches := rfl
  get? _ := rfl
  find? id := by simp

/-- One node more, cleared before the others. -/
theorem Clears.cons {id : NodeId} {e : Executor σ} (he : s.executor.ClearedTo id e)
    (h : Clears ⟨e, s.host, s.journal ++ [.cleared id]⟩ ids s') : Clears s (id :: ids) s' where
  frame := h.frame.trans he.frame
  launches := by
    rw [h.launches]
    exact (launches_append s.journal [.cleared id]).trans (List.append_nil _)
  get? k := by
    rw [h.get?]
    show (if k ∈ ids then none else e.cache.get? k) = _
    rw [he.cache, Cache.get?_erase]
    by_cases hk : k = id
    · simp [hk]
    · simp [hk]
  find? k := by
    rw [h.find?]
    show (e.controllers.find? k).map _ = _
    rw [he.find?, Option.map_map]
    congr 1
    funext c
    -- a controller that is reset twice is reset
    by_cases hk : k = id <;> by_cases hids : k ∈ ids <;> simp [hk, hids, Controller.reset]

/-- **Nodes are cleared one by one in any order,** and as often as one likes. -/
theorem performAll_clearNode (hs : s.executor.Coherent []) (ids : List NodeId) :
    Clears s ids (s.performAll (ids.map .clearNode)).1 := by
  induction ids generalizing s with
  | nil => exact .nil s
  | cons id ids ih =>
    obtain ⟨e, he, hcleared⟩ := hs.clearNode_eq id
    have hrest := ih (perform_coherent hs (.clearNode id))
    rw [perform_clearNode he] at hrest
    show Clears s (id :: ids) ((s.perform (.clearNode id)).1.performAll (ids.map .clearNode)).1
    rw [perform_clearNode he]
    exact hrest.cons hcleared

/-! ## Fresh executors -/

/-- **Clearing makes an executor fresh again.** Whatever has been called on it, and whatever that was answered
with, after all results have been cleared it is what it was made as, but for its options, which are those that
were set last, and for the record of its history: it has no results, and its controllers with their order,
bindings, states and index are those of a new one. It is the same if the results of all nodes that have a
controller are cleared one by one, in whatever order. -/
theorem clearing_restores_fresh (plan : Plan) (graph : Graph) (logic : Option (Logic σ)) :
    ∃ e : Executor σ, Executor.new plan graph logic = .ok e ∧ ∀ (host : σ) (calls : List Call),
      let t := (({ executor := e, host } : Session σ).performAll calls).1
      let fresh := e.withOptions (calls.foldl Call.optionsAfter e.options)
      (∃ history, (t.perform .clear).1.executor = { fresh with history })
      ∧ ∀ ids : List NodeId, e.controllers.keys ⊆ ids →
          ∃ history, (t.performAll (ids.map .clearNode)).1.executor = { fresh with history } := by
  obtain ⟨e, he, hw, hitems, hempty, _⟩ := Executor.new_eq_ok plan graph logic
  have hwaiting := Executor.waiting_of_new hitems
  refine ⟨e, he, ?_⟩
  intro host calls t fresh
  have hstart : Reachable ({ executor := e, host } : Session σ) := .start (start_of_new he host)
  have ht : t.executor.Coherent [] := (hstart.performAll calls).coherent
  have hfresh : fresh.WellFormed := (hstart.coherent.withOptions _).wellFormed
  have hfreshWaiting : ∀ id c, fresh.controllers.find? id = some c → c.state = .waiting :=
    fun id c hc => hwaiting c (KeyedVec.mem_of_find? hc)
  have hframe : t.executor.frame = fresh.frame := by
    have hcalls := performAll_frame hstart.coherent calls
    rw [performAll_options hstart.coherent calls] at hcalls
    exact hcalls
  constructor
  · have hstates : ∀ id c, t.executor.clear.controllers.find? id = some c → c.state = .waiting := by
      intro id c hc
      rw [Executor.find?_clear, Option.map_eq_some_iff] at hc
      obtain ⟨d, _, rfl⟩ := hc
      rfl
    have hclear := (Executor.frame_clear t.executor).trans hframe
    exact ⟨_, Executor.eq_of_waiting hfresh hclear hempty.symm hfreshWaiting hstates⟩
  · intro ids hall
    have hcleared := performAll_clearNode ht ids
    generalize (t.performAll (ids.map .clearNode)).1 = t' at hcleared
    -- every controller is that of a node that has been cleared
    have hmem : ∀ id c, t.executor.controllers.find? id = some c → id ∈ ids := by
      intro id c hc
      have hkeys : t.executor.controllers.keys = fresh.controllers.keys :=
        Executor.keys_of_frame hframe
      apply hall
      show id ∈ fresh.controllers.keys
      rw [← hkeys]
      exact List.mem_map.mpr ⟨c, KeyedVec.mem_of_find? hc, KeyedVec.key_of_find? hc⟩
    have hcache : t'.executor.cache = fresh.cache := by
      show _ = e.cache
      rw [hempty]
      apply Cache.ext_get?
      intro id
      rw [hcleared.get?, Cache.get?_empty]
      split
      · rfl
      · rename_i hid
        rw [Option.eq_none_iff_forall_ne_some]
        intro r hr
        obtain ⟨c, hc, _⟩ := (ht.stored id).mp ⟨r, hr⟩
        exact hid (hmem id c hc)
    have hstates : ∀ id c, t'.executor.controllers.find? id = some c → c.state = .waiting := by
      intro id c hc
      rw [hcleared.find?, Option.map_eq_some_iff] at hc
      obtain ⟨d, hd, rfl⟩ := hc
      rw [if_pos (hmem id d hd)]
      rfl
    exact ⟨_, Executor.eq_of_waiting hfresh (hcleared.frame.trans hframe) hcache hfreshWaiting hstates⟩

/-- The three nodes are cleared in another order than they have been run in. -/
theorem clearing_restores_fresh_sample :
    ∃ e : Executor Unit, Executor.new Sample.plan Sample.graph (some .echo) = .ok e
      ∧ e.controllers.keys ⊆ [⟨"c"⟩, ⟨"a"⟩, ⟨"b"⟩]
      ∧ ∃ history, ((({ executor := e, host := () } : Session Unit).performAll
            [.withOptions { dispatch := .sequential }, .run]).1.performAll
          [.clearNode ⟨"c"⟩, .clearNode ⟨"a"⟩, .clearNode ⟨"b"⟩]).1.executor
        = { e.withOptions { dispatch := .sequential } with history } := by
  obtain ⟨e, he, hkeys⟩ : ∃ e : Executor Unit,
      Executor.new Sample.plan Sample.graph (some .echo) = .ok e
      ∧ e.controllers.keys = [⟨"a"⟩, ⟨"b"⟩, ⟨"c"⟩] :=
    ⟨_, (by rw [Executor.new, Plan.records_eq]; rfl), rfl⟩
  have hall : e.controllers.keys ⊆ [⟨"c"⟩, ⟨"a"⟩, ⟨"b"⟩] := by
    rw [hkeys]
    simp
  obtain ⟨e', he', hfresh⟩ :=
    clearing_restores_fresh Sample.plan Sample.graph (some (.echo : Logic Unit))
  obtain rfl := Except.ok.inj (he.symm.trans he')
  obtain ⟨_, hcleared⟩ := hfresh () [.withOptions { dispatch := .sequential }, .run]
  obtain ⟨history, heq⟩ := hcleared _ hall
  simp only [List.map_cons, List.map_nil, List.foldl_cons, List.foldl_nil, Call.optionsAfter] at heq
  exact ⟨e, he, hall, history, heq⟩

end Session

end StageFlow
