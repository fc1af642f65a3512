import StageFlow.Executor.Basic
import StageFlow.Proofs.KeyedVec

/-!
# What stays of an executor

A run writes to the cache, to the states of controllers and to the history, and to nothing else. The rest
of an executor is its `frame`; whatever depends on the frame alone is settled at construction.

## Contents
- **Frame.** `Frame`, `Executor.frame`, and what can be read off an equality of frames.
- **Well-formedness.** `WellFormed`, kept by everything that keeps the frame; beside the frame only the states
  of controllers can differ.
- **Single steps.** `advance` replaces one controller.
-/

namespace StageFlow.Executor

variable {σ : Type}

/-! ## Frame -/

/-- What no run changes. -/
structure Frame (σ : Type) where
  plan : Plan
  graph : Graph
  logic : Option (Logic σ)
  options : Options
  positions : List (NodeId × Nat)
  /-- Where the controller of each node stands. -/
  index : List (NodeId × Nat)
  /-- The bindings of each controller, in the order of controllers. -/
  bindings : List (NodeId × List InputBinding)

/-- The part of an executor that no run changes. -/
def frame (e : Executor σ) : Frame σ where
  plan := e.plan
  graph := e.graph
  logic := e.logic
  options := e.options
  positions := e.positions
  index := e.controllers.positions
  bindings := e.controllers.items.map fun c => (c.id, c.bindings)

variable {e e' : Executor σ}

theorem plan_of_frame (h : e'.frame = e.frame) : e'.plan = e.plan := congrArg Frame.plan h

theorem graph_of_frame (h : e'.frame = e.frame) : e'.graph = e.graph := congrArg Frame.graph h

theorem logic_of_frame (h : e'.frame = e.frame) : e'.logic = e.logic := congrArg Frame.logic h

theorem options_of_frame (h : e'.frame = e.frame) : e'.options = e.options := congrArg Frame.options h

theorem positions_of_frame (h : e'.frame = e.frame) : e'.positions = e.positions :=
  congrArg Frame.positions h

theorem index_of_frame (h : e'.frame = e.frame) :
    e'.controllers.positions = e.controllers.positions :=
  congrArg Frame.index h

theorem keys_of_frame (h : e'.frame = e.frame) : e'.controllers.keys = e.controllers.keys := by
  have := congrArg (fun f : Frame σ => f.bindings.map Prod.fst) h
  simpa [frame, KeyedVec.keys, Keyed.key, Function.comp_def] using this

theorem tracks_of_frame (h : e'.frame = e.frame) (id : NodeId) : e'.tracks id = e.tracks id := by
  rw [tracks, tracks, KeyedVec.contains, KeyedVec.contains, KeyedVec.position?, KeyedVec.position?,
    index_of_frame h]

/-- A node has the same bindings wherever the frame is the same. -/
theorem bindings_of_frame (h : e'.frame = e.frame) (id : NodeId) :
    (e'.controllers.find? id).map Controller.bindings
      = (e.controllers.find? id).map Controller.bindings := by
  have hsearch : ∀ e : Executor σ, (e.controllers.find? id).map Controller.bindings
      = (e.frame.bindings.find? fun p => p.1 = id).map Prod.snd := by
    intro e
    unfold frame
    rw [List.find?_map, Option.map_map]
    rfl
  rw [hsearch, hsearch, h]

/-- A controller keeps its place and its bindings wherever the frame is the same. -/
theorem find?_of_frame (h : e'.frame = e.frame) {id : NodeId} {c : Controller}
    (hc : e.controllers.find? id = some c) :
    ∃ c', e'.controllers.find? id = some c' ∧ c'.bindings = c.bindings := by
  have hb := bindings_of_frame h id
  rw [hc, Option.map_some, Option.map_eq_some_iff] at hb
  exact hb

/-- What is not in the frame are controllers, results and history. -/
theorem eq_of_frame (h : e'.frame = e.frame) :
    e' = { e with cache := e'.cache, controllers := e'.controllers, history := e'.history } := by
  have hplan := plan_of_frame h
  have hgraph := graph_of_frame h
  have hlogic := logic_of_frame h
  have hoptions := options_of_frame h
  have hpositions := positions_of_frame h
  cases e'
  simp only at hplan hgraph hlogic hoptions hpositions
  subst hplan hgraph hlogic hoptions hpositions
  rfl

/-! ## Well-formedness -/

/-- The index of controllers agrees with them, and each stands for a node of the graph. -/
structure WellFormed (e : Executor σ) : Prop where
  indexed : e.controllers.Indexed
  positions : e.positions = e.graph.positions
  described : ∀ id ∈ e.controllers.keys, ∃ node, e.graph.find? id = some node

theorem WellFormed.of_frame (hw : e.WellFormed) (h : e'.frame = e.frame) : e'.WellFormed where
  indexed := hw.indexed.of_keys (index_of_frame h) (keys_of_frame h)
  positions := by rw [positions_of_frame h, graph_of_frame h, hw.positions]
  described := by rw [keys_of_frame h, graph_of_frame h]; exact hw.described

/-- With the same frame, controllers that are found in the same states are the same. -/
theorem WellFormed.controllers_eq (hw : e.WellFormed) (h : e'.frame = e.frame)
    (hstate : ∀ id c c', e.controllers.find? id = some c → e'.controllers.find? id = some c' →
      c'.state = c.state) :
    e'.controllers = e.controllers := by
  apply hw.indexed.ext (index_of_frame h) (keys_of_frame h)
  intro id
  have hb := bindings_of_frame h id
  cases hc : e.controllers.find? id with
  | none =>
    rw [hc] at hb
    exact Option.map_eq_none_iff.mp hb
  | some c =>
    obtain ⟨c', hc', hbindings⟩ := find?_of_frame h hc
    have hid : c'.id = c.id := (KeyedVec.key_of_find? hc').trans (KeyedVec.key_of_find? hc).symm
    rw [hc', Option.some.injEq]
    show (⟨c'.id, c'.state, c'.bindings⟩ : Controller) = c
    rw [hid, hstate id c c' hc hc', hbindings]

theorem WellFormed.controller?_eq (hw : e.WellFormed) (id : NodeId) :
    e.controller? id = .ok (e.controllers.find? id) :=
  hw.indexed.get?_eq id

theorem WellFormed.tracks_iff (hw : e.WellFormed) {id : NodeId} :
    e.tracks id = true ↔ ∃ c, e.controllers.find? id = some c := by
  unfold tracks
  rw [hw.indexed.contains_eq, Option.isSome_iff_exists]

theorem WellFormed.tracks_eq_false_iff (hw : e.WellFormed) {id : NodeId} :
    e.tracks id = false ↔ e.controllers.find? id = none := by
  unfold tracks
  rw [hw.indexed.contains_eq, Option.isSome_eq_false_iff, Option.isNone_iff_eq_none]

/-- The node of a controller is in the graph. -/
theorem WellFormed.describe (hw : e.WellFormed) {id : NodeId} {c : Controller}
    (hc : e.controllers.find? id = some c) : ∃ node, e.graph.find? id = some node := by
  refine hw.described id (List.mem_map.mpr ⟨c, KeyedVec.mem_of_find? hc, ?_⟩)
  exact KeyedVec.key_of_find? hc

/-- A controller that a search finds is that of the node. -/
theorem id_of_find? {id : NodeId} {c : Controller} (hc : e.controllers.find? id = some c) :
    c.id = id :=
  KeyedVec.key_of_find? hc

/-! ## Single steps -/

/-- A step of a node's life writes its controller and a line of history. -/
theorem advance_eq (hw : e.WellFormed) {id : NodeId} {old : Controller}
    (hc : e.controllers.find? id = some old) (new : Controller) (hid : new.id = id)
    (step : Transition.Step) :
    e.advance step id old new
      = { e with
          controllers := e.controllers.replace new
          history := e.history ++ [⟨id, step, old.state, new.state⟩] } := by
  unfold advance
  rw [hw.indexed.modifyKey_eq hc hid]

/-- Replacing a controller by one with the same bindings keeps the frame. -/
theorem frame_replace (hw : e.WellFormed) {old : Controller} (new : Controller)
    (hc : e.controllers.find? new.id = some old) (hb : new.bindings = old.bindings)
    (cache : Cache) (history : List Transition) :
    { e with cache, controllers := e.controllers.replace new, history }.frame = e.frame := by
  have hmap : (e.controllers.replace new).items.map (fun c => (c.id, c.bindings))
      = e.controllers.items.map fun c => (c.id, c.bindings) := by
    -- a controller with the key of the new one is the old one
    refine KeyedVec.map_items_replace fun c hm (hkey : c.id = new.id) => ?_
    have hfind : e.controllers.find? new.id = some c := hkey ▸ hw.indexed.find?_key hm
    have hold : c = old := Option.some.inj (hfind.symm.trans hc)
    rw [hkey, hb, hold]
  unfold frame
  rw [hmap]
  rfl

end StageFlow.Executor
