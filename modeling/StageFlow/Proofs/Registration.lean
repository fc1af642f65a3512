import StageFlow.Proofs.Bindings
import StageFlow.Proofs.Calls

/-!
# Registration

Which controllers an executor sets up. A plan may describe one node many times, in full or as a stub, and
what is said of a link may stand in three places: in the record of the node, in the record of the producer
that stands inside it, and in the record of the producer that a stage lists. The first place that gives a
name decides.

## Contents
- **Names.** `firstNamed`, and bindings made from the sides of a link, `InputBinding.ofSides`.
- **Records.** `Plan.record?`, the record that describes a node, and `Plan.bindingOf`, what becomes of one of
  its incoming links.
- **Controllers.** `bindings_controllerOf`, and `controllers_of_plan`, which says all of a fresh executor.
-/

namespace StageFlow

/-! ## Names -/

/-- The first name that is not empty; the empty one if there is none. -/
def firstNamed (names : List String) : String := (names.find? fun name => !name.isEmpty).getD ""

theorem firstNamed_append (names : List String) (name : String) :
    firstNamed (names ++ [name]) = if (firstNamed names).isEmpty then name else firstNamed names := by
  induction names with
  | nil =>
    by_cases hname : name.isEmpty
    · simp [firstNamed, String.isEmpty_iff.mp hname]
    · simp [firstNamed, hname]
  | cons a names ih =>
    unfold firstNamed at ih ⊢
    by_cases ha : a.isEmpty
    · rw [List.cons_append, List.find?_cons_of_neg (by simp [ha]), List.find?_cons_of_neg (by simp [ha])]
      exact ih
    · rw [List.cons_append, List.find?_cons_of_pos (by simp [ha]), List.find?_cons_of_pos (by simp [ha])]
      simp [ha]

namespace InputBinding

/-- The binding that the sides of a link make, of which the first to give a name decides on it. -/
def ofSides (source : NodeId) (sides : List (Link NodeRecord)) : InputBinding :=
  ⟨source, firstNamed (sides.map (·.output)), firstNamed (sides.map (·.input))⟩

variable {source : NodeId} {sides : List (Link NodeRecord)}

theorem ofLink_eq_ofSides (l : Link NodeRecord) : ofLink l = ofSides l.peer.id [l] := by
  have hself : ∀ name, firstNamed [name] = name := by
    intro name
    exact firstNamed_append [] name
  unfold ofLink ofSides
  rw [List.map_singleton, List.map_singleton, hself, hself]

/-- To fill in names is to hear one more side. -/
theorem fill_ofSides (l : Link NodeRecord) :
    (ofSides source sides).fill l = ofSides source (sides ++ [l]) := by
  unfold ofSides fill
  rw [List.map_append, List.map_append, List.map_singleton, List.map_singleton, firstNamed_append,
    firstNamed_append]

end InputBinding

/-- The n-th link of a source to a node, as the source's record has it. -/
def farSide (producer : NodeId → Option NodeRecord) (source id : NodeId) (nth : Nat) :
    Option (Link NodeRecord) :=
  (producer source).bind fun r => (r.linksTo id)[nth]?

theorem InputBinding.resolve_ofSides {source : NodeId} {sides : List (Link NodeRecord)}
    (producer : NodeId → Option NodeRecord) (id : NodeId) (nth : Nat) :
    (ofSides source sides).resolve producer id nth
      = ofSides source (sides ++ (farSide producer source id nth).toList) := by
  have hsource : (ofSides source sides).source = source := rfl
  unfold resolve farSide
  rw [hsource]
  cases (producer source).bind fun r => (r.linksTo id)[nth]? with
  | none => rw [Option.toList_none, List.append_nil]
  | some l => exact fill_ofSides l

/-! ## Records -/

namespace Plan

/-- The record that describes a node: the first that a stage lists, or else the first that there is. -/
def record? (p : Plan) (id : NodeId) : Option NodeRecord :=
  (p.listedRecord? id).or (p.records.find? (·.id = id))

/-- What is said of an incoming link of a record, the n-th from its peer: by the record itself, by the
peer's record inside it, and by the peer's listed record. -/
def sides (p : Plan) (r : NodeRecord) (nth : Nat) (l : Link NodeRecord) : List (Link NodeRecord) :=
  [l] ++ (farSide (Controller.inlineProducer r) l.peer.id r.id nth).toList
    ++ (farSide p.listedRecord? l.peer.id r.id nth).toList

/-- The binding of the incoming link at a place in a record. All links from the same peer before it are
counted. -/
def bindingOf (p : Plan) (r : NodeRecord) (place : Nat) (l : Link NodeRecord) : InputBinding :=
  .ofSides l.peer.id (p.sides r ((r.incoming.take place).countP (·.peer.id = l.peer.id)) l)

end Plan

/-! ## Controllers -/

/-- The bindings of a record's own controller come of its own side and that of the producers inside it. -/
theorem bindings_ofRecord (r : NodeRecord) :
    (Controller.ofRecord r).bindings
      = r.incoming.mapIdx fun place l =>
          .ofSides l.peer.id
            ([l] ++ (farSide (Controller.inlineProducer r) l.peer.id r.id
              ((r.incoming.take place).countP (·.peer.id = l.peer.id))).toList) := by
  apply List.ext_getElem?
  intro place
  show (completeBindings (Controller.inlineProducer r) r.id []
    (r.incoming.map InputBinding.ofLink))[place]? = _
  have hsources : (r.incoming.map InputBinding.ofLink).map (·.source) = r.incoming.map (·.peer.id) := by
    rw [List.map_map]
    rfl
  rw [getElem?_completeBindings_links hsources, List.getElem?_map, List.getElem?_mapIdx, Option.map_map]
  apply Option.map_congr
  intro l _
  show (InputBinding.ofLink l).resolve _ _ _ = _
  rw [InputBinding.ofLink_eq_ofSides, InputBinding.resolve_ofSides]
  rfl

theorem map_source_bindings_ofRecord (r : NodeRecord) :
    (Controller.ofRecord r).bindings.map (·.source) = r.incoming.map (·.peer.id) := by
  show (completeBindings _ _ _ (r.incoming.map InputBinding.ofLink)).map _ = _
  rw [map_source_completeBindings, List.map_map]
  rfl

namespace Plan

variable {p : Plan}

/-- **One binding for each incoming link,** with the names that the sides of the link give. -/
theorem bindings_controllerOf (p : Plan) (r : NodeRecord) :
    (p.controllerOf r).bindings
      = ((p.listedRecord? r.id).getD r).incoming.mapIdx (p.bindingOf ((p.listedRecord? r.id).getD r)) := by
  unfold controllerOf
  generalize (p.listedRecord? r.id).getD r = rec
  apply List.ext_getElem?
  intro place
  show (completeBindings p.listedRecord? rec.id [] (Controller.ofRecord rec).bindings)[place]? = _
  rw [getElem?_completeBindings_links (map_source_bindings_ofRecord rec), bindings_ofRecord,
    List.getElem?_mapIdx, List.getElem?_mapIdx, Option.map_map]
  apply Option.map_congr
  intro l _
  show (InputBinding.ofSides l.peer.id _).resolve _ _ _ = _
  rw [InputBinding.resolve_ofSides]
  rfl

/-- The output's name comes from the producer inside the record, and the input's from the listed one. -/
example :
    let inner : NodeRecord := { id := ⟨"a"⟩, outgoing := [⟨{ id := ⟨"c"⟩ }, "x", ""⟩] }
    let consumer : NodeRecord := { id := ⟨"c"⟩, incoming := [⟨inner, "", ""⟩] }
    let producer : NodeRecord := { id := ⟨"a"⟩, outgoing := [⟨{ id := ⟨"c"⟩ }, "y", "in"⟩] }
    ((Plan.mk [.static [producer, consumer]]).controllerOf consumer).bindings = [⟨⟨"a"⟩, "x", "in"⟩] := by
  decide

/-- A controller is that of the record which describes its node. -/
theorem record?_of_controllerFor? {positions : List (NodeId × Nat)} {id : NodeId} {c : Controller}
    (h : p.controllerFor? positions p.records id = some c) :
    ∃ r, p.record? id = some r ∧ c.bindings = r.incoming.mapIdx (p.bindingOf r) := by
  obtain ⟨_, r, hr, rfl⟩ := controllerFor?_eq_some.mp h
  have hid : r.id = id := by simpa using List.find?_some hr
  refine ⟨(p.listedRecord? r.id).getD r, ?_, bindings_controllerOf p r⟩
  unfold record?
  rw [hr, hid]
  cases p.listedRecord? id <;> rfl

/-- An identifier of a plan has a record. -/
theorem exists_find?_records {id : NodeId} (h : id ∈ p.ids) :
    ∃ r, p.records.find? (·.id = id) = some r := by
  unfold ids at h
  obtain ⟨hmem, _⟩ := mem_distinctFrom.mp h
  obtain ⟨r, hr, rfl⟩ := List.mem_map.mp hmem
  apply Option.isSome_iff_exists.mp
  simpa using ⟨r, hr, rfl⟩

/-- Each identifier of a plan gets one controller if the graph has its node, and no other does. -/
theorem map_id_controllerFor? (p : Plan) (graph : Graph) :
    (p.ids.filterMap (p.controllerFor? graph.positions p.records)).map (·.id)
      = p.ids.filter fun id => id ∈ graph.nodes.map (·.id) := by
  rw [List.map_filterMap, ← List.filterMap_eq_filter]
  apply List.filterMap_congr
  intro id hid
  obtain ⟨r, hr⟩ := exists_find?_records hid
  by_cases hg : id ∈ graph.nodes.map (·.id)
  · have hc : p.controllerFor? graph.positions p.records id = some (p.controllerOf r) :=
      controllerFor?_eq_some.mpr ⟨Graph.isSome_lookup_positions.mpr hg, r, hr, rfl⟩
    rw [hc, Option.map_some, id_of_controllerFor? hc]
    simp [Option.guard, hg]
  · have hnone : Assoc.lookup id graph.positions = none := by
      simpa using mt Graph.isSome_lookup_positions.mp hg
    rw [controllerFor?_of_no_position hnone]
    simp [Option.guard, hg]

end Plan

/-- So a new executor tracks these identifiers, in the order in which the plan first refers to them. -/
theorem Executor.ids_of_new {σ : Type} {plan : Plan} {graph : Graph} {e : Executor σ}
    (h : e.controllers.items = plan.ids.filterMap (plan.controllerFor? graph.positions plan.records)) :
    e.controllers.items.map (·.id) = plan.ids.filter fun id => id ∈ graph.nodes.map (·.id) := by
  rw [h]
  exact plan.map_id_controllerFor? graph

namespace Session

variable {σ : Type}

/-- **Which controllers there are.** An executor has, in the order in which the plan first refers to them,
one waiting controller for each identifier of the plan whose node the graph has. Its bindings are those of
the incoming links of the record that describes the node. Calls change neither. -/
theorem controllers_of_plan (plan : Plan) (graph : Graph) (logic : Option (Logic σ)) (host : σ) :
    ∃ s, Session.start plan graph logic host = .ok s
      ∧ s.executor.controllers.items.map (·.id)
          = plan.ids.filter (fun id => id ∈ graph.nodes.map (·.id))
      ∧ (s.executor.controllers.items.map (·.id)).Nodup
      ∧ (∀ c ∈ s.executor.controllers.items, c.state = .waiting
          ∧ ∃ r, plan.record? c.id = some r ∧ c.bindings = r.incoming.mapIdx (plan.bindingOf r))
      ∧ ∀ calls : List Call,
          (s.performAll calls).1.executor.controllers.items.map (fun c => (c.id, c.bindings))
            = s.executor.controllers.items.map fun c => (c.id, c.bindings) := by
  obtain ⟨e, he, _, hitems, _⟩ := Executor.new_eq_ok plan graph logic
  have hstart := start_of_new he host
  have hids := Executor.ids_of_new hitems
  refine ⟨{ executor := e, host }, hstart, hids, ?_, ?_, ?_⟩
  · show (e.controllers.items.map (·.id)).Nodup
    rw [hids]
    exact (nodup_distinctFrom [] _).filter _
  · intro c hc
    refine ⟨Executor.waiting_of_new hitems c hc, ?_⟩
    replace hc : c ∈ e.controllers.items := hc
    rw [hitems] at hc
    obtain ⟨id, _, hid⟩ := List.mem_filterMap.mp hc
    rw [Plan.id_of_controllerFor? hid]
    exact Plan.record?_of_controllerFor? hid
  · intro calls
    exact congrArg Executor.Frame.bindings (performAll_frame (Reachable.start hstart).coherent calls)

end Session

end StageFlow
