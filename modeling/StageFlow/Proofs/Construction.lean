import Mathlib.Data.List.Basic
import StageFlow.Executor.Run
import StageFlow.Proofs.Frame
import StageFlow.Proofs.Traversal

/-!
# Fresh executors

Setting up an executor never breaks off: the controller that a record gives has the record's identifier,
and no identifier gets two.

## Contents
- **Graphs.** `positions` leads to the node that `find?` finds.
- **Controllers.** `controllerOf`, and `register` over a list of records: which identifiers get a controller,
  and from which record.
- **Executors.** `new_eq_ok`: a fresh executor exists and is well-formed. Its nodes are all waiting.
-/

namespace StageFlow

/-! ## Graphs -/

namespace Graph

theorem lookup_positionsFrom (id : NodeId) (nodes : List NodeDescriptor) (start : Nat)
    (known : List (NodeId × Nat)) :
    Assoc.lookup id (positionsFrom start known nodes)
      = (Assoc.lookup id known).or ((nodes.findIdx? (·.id = id)).map (start + ·)) := by
  induction nodes generalizing start known with
  | nil => simp [positionsFrom]
  | cons n ns ih =>
    rw [positionsFrom, ih, List.findIdx?_cons]
    -- the first node of an identifier keeps its position
    by_cases hid : n.id = id
    · subst hid
      cases hk : Assoc.lookup n.id known with
      | none => simp
      | some p => simp [hk]
    · have hne : ¬ id = n.id := fun h => hid h.symm
      have hlook : Assoc.lookup id
          (if (Assoc.lookup n.id known).isSome then known else Assoc.insert n.id start known)
            = Assoc.lookup id known := by
        split
        · rfl
        · rw [Assoc.lookup_insert, if_neg hne]
      rw [hlook]
      simp [hid, Option.map_map, Function.comp_def, Nat.add_assoc, Nat.add_comm 1]

/-- The position of an identifier is that of the first node with it. -/
theorem lookup_positions (g : Graph) (id : NodeId) :
    Assoc.lookup id g.positions = g.nodes.findIdx? (·.id = id) := by
  unfold positions
  rw [lookup_positionsFrom]
  simp

theorem lookup_positions_eq_none {g : Graph} {id : NodeId} :
    Assoc.lookup id g.positions = none ↔ g.find? id = none := by
  rw [lookup_positions, find?, List.findIdx?_eq_none_iff, List.find?_eq_none]
  simp

theorem isSome_lookup_positions {g : Graph} {id : NodeId} :
    (Assoc.lookup id g.positions).isSome = true ↔ id ∈ g.nodes.map (·.id) := by
  rw [lookup_positions, List.findIdx?_isSome, List.any_eq_true, List.mem_map]
  simp

/-- A node that can be found has a position, and stands there. -/
theorem getElem?_position {g : Graph} {id : NodeId} {node : NodeDescriptor}
    (h : g.find? id = some node) :
    ∃ p, Assoc.lookup id g.positions = some p ∧ g.nodes[p]? = some node := by
  cases hp : Assoc.lookup id g.positions with
  | none => exact absurd (lookup_positions_eq_none.mp hp) (by simp [h])
  | some p =>
    refine ⟨p, rfl, ?_⟩
    rw [lookup_positions] at hp
    rw [← h, find?, List.find?_eq_bind_findIdx?_getElem?, hp]
    rfl

end Graph

/-! ## Controllers -/

namespace Plan

@[simp] theorem id_listedRecord?_getD (p : Plan) (r : NodeRecord) :
    ((p.listedRecord? r.id).getD r).id = r.id := by
  cases h : p.listedRecord? r.id with
  | none => rfl
  | some s => simpa using List.find?_some h

@[simp] theorem id_controllerOf (p : Plan) (r : NodeRecord) : (p.controllerOf r).id = r.id :=
  id_listedRecord?_getD p r

@[simp] theorem state_controllerOf (p : Plan) (r : NodeRecord) :
    (p.controllerOf r).state = .waiting := rfl

/-- The controller that records give an identifier: that of the first record of it, if its node has a
position. -/
def controllerFor? (p : Plan) (positions : List (NodeId × Nat)) (rs : List NodeRecord) (id : NodeId) :
    Option Controller :=
  if (Assoc.lookup id positions).isSome then (rs.find? (·.id = id)).map p.controllerOf else none

variable {p : Plan} {positions : List (NodeId × Nat)} {rs : List NodeRecord} {id : NodeId}

theorem controllerFor?_of_no_position (h : Assoc.lookup id positions = none) :
    p.controllerFor? positions rs id = none := by
  unfold controllerFor?
  rw [h]
  rfl

/-- A record of another identifier makes no difference. -/
theorem controllerFor?_cons_of_ne {r : NodeRecord} (h : r.id ≠ id) :
    p.controllerFor? positions (r :: rs) id = p.controllerFor? positions rs id := by
  unfold controllerFor?
  rw [List.find?_cons_of_neg (by simpa using h)]

theorem controllerFor?_eq_some {c : Controller} :
    p.controllerFor? positions rs id = some c
      ↔ (Assoc.lookup id positions).isSome = true
        ∧ ∃ r, rs.find? (·.id = id) = some r ∧ p.controllerOf r = c := by
  unfold controllerFor?
  split
  · rename_i h
    rw [Option.map_eq_some_iff, h]
    simp
  · rename_i h
    simp [h]

theorem id_of_controllerFor? {c : Controller} (h : p.controllerFor? positions rs id = some c) :
    c.id = id := by
  obtain ⟨_, r, hr, rfl⟩ := controllerFor?_eq_some.mp h
  simpa using List.find?_some hr

theorem state_of_controllerFor? {c : Controller} (h : p.controllerFor? positions rs id = some c) :
    c.state = .waiting := by
  obtain ⟨_, r, _, rfl⟩ := controllerFor?_eq_some.mp h
  exact state_controllerOf p r

/-- A record makes no difference if its identifier does not matter, or its node has no position. -/
theorem filterMap_controllerFor?_cons {r : NodeRecord} {ids : List NodeId}
    (h : r.id ∉ ids ∨ Assoc.lookup r.id positions = none) :
    ids.filterMap (p.controllerFor? positions (r :: rs))
      = ids.filterMap (p.controllerFor? positions rs) := by
  apply List.filterMap_congr
  intro id hid
  by_cases heq : r.id = id
  · have hnone : Assoc.lookup id positions = none := by
      rcases h with h | h
      · exact absurd (heq ▸ hid) h
      · exact heq ▸ h
    rw [controllerFor?_of_no_position hnone, controllerFor?_of_no_position hnone]
  · exact controllerFor?_cons_of_ne heq

/-- A record whose node has a position adds its controller in front of what the records behind it add, unless
its identifier has one already. -/
theorem filterMap_controllerFor?_distinctFrom_cons {r : NodeRecord}
    (h : (Assoc.lookup r.id positions).isSome = true) (known : List NodeId) :
    (distinctFrom known (r.id :: rs.map (·.id))).filterMap (p.controllerFor? positions (r :: rs))
      = if r.id ∈ known then
          (distinctFrom known (rs.map (·.id))).filterMap (p.controllerFor? positions rs)
        else
          p.controllerOf r
            :: (distinctFrom (r.id :: known) (rs.map (·.id))).filterMap (p.controllerFor? positions rs) := by
  split
  · rename_i hmem
    have hnot : r.id ∉ distinctFrom known (rs.map (·.id)) := fun h => (mem_distinctFrom.mp h).2 hmem
    rw [distinctFrom_cons_of_mem hmem, filterMap_controllerFor?_cons (Or.inl hnot)]
  · rename_i hmem
    have hself : p.controllerFor? positions (r :: rs) r.id = some (p.controllerOf r) := by
      unfold controllerFor?
      rw [if_pos h, List.find?_cons_of_pos (by simp), Option.map_some]
    have hnot : r.id ∉ distinctFrom (r.id :: known) (rs.map (·.id)) := fun h =>
      (mem_distinctFrom.mp h).2 List.mem_cons_self
    rw [distinctFrom_cons_of_not_mem hmem, List.filterMap_cons_some hself,
      filterMap_controllerFor?_cons (Or.inl hnot)]

/-- **Registration never breaks off.** Each new identifier gets, in the order in which the records first
refer to it, the controller of the first record of it. -/
theorem register_eq_ok (p : Plan) (positions : List (NodeId × Nat)) (rs : List NodeRecord)
    {v : KeyedVec NodeId Controller} (hv : v.Indexed) :
    ∃ w, p.register positions rs v = .ok w ∧ w.Indexed
      ∧ w.items = v.items
          ++ (distinctFrom v.keys (rs.map (·.id))).filterMap (p.controllerFor? positions rs) := by
  induction rs generalizing v with
  | nil => exact ⟨v, rfl, hv, (List.append_nil v.items).symm⟩
  | cons r rs ih =>
    rw [register, List.map_cons]
    split
    -- a node without a position gets no controller
    · rename_i hpos
      have hnone : Assoc.lookup r.id positions = none := by simpa using hpos
      obtain ⟨w, hw, hwi, hitems⟩ := ih hv
      refine ⟨w, hw, hwi, ?_⟩
      rw [hitems, filterMap_distinctFrom_cons_none (controllerFor?_of_no_position hnone),
        filterMap_controllerFor?_cons (Or.inr hnone)]
    · rename_i hpos
      have hsome : (Assoc.lookup r.id positions).isSome = true := by
        simpa [Option.isSome_iff_ne_none] using hpos
      obtain ⟨u, i, hu, hui, huitems⟩ := hv.insertWith r.id (p.controllerOf r) (id_controllerOf p r)
      have hukeys := KeyedVec.keys_of_insertWith (id_controllerOf p r) huitems
      obtain ⟨w, hw, hwi, hitems⟩ := ih hui
      refine ⟨w, ?_, hwi, ?_⟩
      · rw [hu]
        exact hw
      · rw [hitems, filterMap_controllerFor?_distinctFrom_cons hsome]
        by_cases hmem : r.id ∈ v.keys
        · rw [if_pos hmem] at huitems hukeys ⊢
          rw [huitems, hukeys]
        · rw [if_neg hmem] at huitems hukeys ⊢
          have hkeys : ∀ k, k ∈ u.keys ↔ k ∈ r.id :: v.keys := by
            intro k
            rw [hukeys, List.mem_append, List.mem_singleton, List.mem_cons]
            exact or_comm
          rw [huitems, distinctFrom_congr fun k _ => hkeys k, List.append_assoc]
          rfl

end Plan

/-! ## Executors -/

/-- **A fresh executor exists for every plan and graph.** It is well-formed, has the controllers that the
records of the plan give, and neither results nor a history. -/
theorem Executor.new_eq_ok {σ : Type} (plan : Plan) (graph : Graph) (logic : Option (Logic σ)) :
    ∃ e, Executor.new plan graph logic = .ok e ∧ e.WellFormed
      ∧ e.controllers.items
          = plan.ids.filterMap (plan.controllerFor? graph.positions plan.records)
      ∧ e.cache = .empty ∧ e.plan = plan ∧ e.graph = graph ∧ e.logic = logic ∧ e.history = [] := by
  obtain ⟨v, hv, hvi, hitems⟩ :=
    plan.register_eq_ok graph.positions plan.records (v := .empty) KeyedVec.Indexed.empty
  refine ⟨{ plan, graph, logic, controllers := v, positions := graph.positions },
    ?_, ⟨hvi, rfl, ?_⟩, hitems, rfl, rfl, rfl, rfl, rfl⟩
  · rw [Executor.new, hv]
    show (v.validate >>= fun _ => _) = _
    rw [hvi.validate_eq]
    rfl
  · intro id hid
    obtain ⟨c, hc, rfl⟩ := List.mem_map.mp hid
    rw [hitems] at hc
    obtain ⟨id, _, hid⟩ := List.mem_filterMap.mp hc
    have hkey : Keyed.key c = id := Plan.id_of_controllerFor? hid
    rw [hkey]
    cases hf : graph.find? id with
    | some node => exact ⟨node, rfl⟩
    | none =>
      rw [Plan.controllerFor?_of_no_position (Graph.lookup_positions_eq_none.mpr hf)] at hid
      exact absurd hid (by simp)

/-- All nodes of a fresh executor are waiting. -/
theorem Executor.waiting_of_new {σ : Type} {plan : Plan} {graph : Graph} {e : Executor σ}
    (h : e.controllers.items = plan.ids.filterMap (plan.controllerFor? graph.positions plan.records)) :
    ∀ c ∈ e.controllers.items, c.state = .waiting := by
  intro c hc
  rw [h] at hc
  obtain ⟨id, _, hid⟩ := List.mem_filterMap.mp hc
  exact Plan.state_of_controllerFor? hid

end StageFlow
