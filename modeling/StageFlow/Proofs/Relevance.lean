import StageFlow.Proofs.Exchange

/-!
# The relevant part of the graph

An executor looks a graph up only for identifiers of its plan, and there only for the first node of each. So
two graphs with the same first nodes for these serve equally well: edges, the order of nodes, nodes of other
identifiers and later nodes of the same ones make no difference, though they move the positions at which
nodes are found.

## Contents
- **Nodes.** What stands at the position of an identifier is the node that a search finds.
- **Exchange.** `Executor.withGraph`, which every operation of an executor passes on.
- **Fresh executors.** Registration asks of a graph only whether it has a node.
- **Calls.** `relevant_nodes_decide`.
-/

namespace StageFlow

variable {σ : Type}

/-! ## Nodes -/

/-- The position of an identifier leads to the node that a search for it finds. -/
theorem Graph.nodeAt?_positions (g : Graph) (id : NodeId) :
    g.nodeAt? g.positions id = (g.find? id).map some := by
  unfold nodeAt?
  cases hf : g.find? id with
  | none =>
    rw [lookup_positions_eq_none.mpr hf]
    rfl
  | some node =>
    obtain ⟨p, hp, hnode⟩ := getElem?_position hf
    rw [hp, Option.map_some, hnode]
    rfl

/-! ## Exchange -/

namespace Executor

open Classical in
/-- The same executor with another graph, if that has the same nodes where it matters. Otherwise nothing is
exchanged. -/
noncomputable def withGraph (e : Executor σ) (g : Graph) : Executor σ :=
  if e.Fits g g.positions then e.rebase e.plan g g.positions else e

variable {e e' : Executor σ} {g : Graph}

theorem withGraph_of_fits (h : e.Fits g g.positions) : e.withGraph g = e.rebase e.plan g g.positions :=
  if_pos h

theorem withGraph_of_not_fits (h : ¬ e.Fits g g.positions) : e.withGraph g = e := if_neg h

/-- What does not depend on plan, graph and positions stays as it is. -/
theorem withGraph_view {α : Type} (view : Executor σ → α)
    (h : ∀ ps, view (e.rebase e.plan g ps) = view e) : view (e.withGraph g) = view e := by
  by_cases hf : e.Fits g g.positions
  · rw [withGraph_of_fits hf, h]
  · rw [withGraph_of_not_fits hf]

/-- On the same ground a graph fits or does not, as before. -/
theorem SameGround.withGraph_of_fits (h : e.SameGround e') (hf : e.Fits g g.positions) :
    e'.withGraph g = e'.rebase e.plan g g.positions := by
  rw [Executor.withGraph_of_fits ((h.fits_iff g _).mpr hf), h.plan]

theorem SameGround.withGraph_of_not_fits (h : e.SameGround e') (hf : ¬ e.Fits g g.positions) :
    e'.withGraph g = e' :=
  Executor.withGraph_of_not_fits fun hf' => hf ((h.fits_iff g _).mp hf')

/-- An operation that stays on its ground passes the exchange on if it does so with graphs that fit. -/
theorem withGraph_comm {α : Type} {f : Executor σ → Executor σ × α} (hground : e.SameGround (f e).1)
    (h : e.Fits g g.positions →
      f (e.rebase e.plan g g.positions) = ((f e).1.rebase e.plan g g.positions, (f e).2)) :
    f (e.withGraph g) = ((f e).1.withGraph g, (f e).2) := by
  by_cases hf : e.Fits g g.positions
  · rw [withGraph_of_fits hf, hground.withGraph_of_fits hf, h hf]
  · rw [withGraph_of_not_fits hf, hground.withGraph_of_not_fits hf]

theorem clearNode_withGraph (e : Executor σ) (g : Graph) (id : NodeId) :
    (e.withGraph g).clearNode id = (e.clearNode id).map (·.withGraph g) := by
  by_cases hf : e.Fits g g.positions
  · rw [withGraph_of_fits hf, clearNode_rebase]
    cases he : e.clearNode id with
    | error b => rfl
    | ok e' => exact congrArg Except.ok ((e.sameGround_clearNode id he).withGraph_of_fits hf).symm
  · rw [withGraph_of_not_fits hf]
    cases he : e.clearNode id with
    | error b => rfl
    | ok e' => exact congrArg Except.ok ((e.sameGround_clearNode id he).withGraph_of_not_fits hf).symm

/-- No operation of an executor notices an exchange of the graph for one that fits. -/
theorem passedOn_withGraph (g : Graph) : PassedOn fun e : Executor σ => e.withGraph g where
  tracks _ id := withGraph_view (fun e => e.tracks id) fun _ => rfl
  logic _ := withGraph_view (fun e => e.logic) fun _ => rfl
  options _ := withGraph_view (fun e => e.options) fun _ => rfl
  prepare e id :=
    withGraph_comm (f := fun e => e.prepare id) (e.sameGround_prepare id) fun hf =>
      prepare_rebase e.plan hf id
  settle e id result :=
    withGraph_comm (f := fun e => e.settle id result) (e.sameGround_settle id result) fun _ =>
      settle_rebase e e.plan g g.positions id result
  clearNode e id := clearNode_withGraph e g id
  clear _ :=
    congrArg Prod.fst (withGraph_comm (f := fun e => (e.clear, ())) ⟨rfl, rfl, rfl, rfl⟩ fun _ => rfl)
  withOptions _ options :=
    congrArg Prod.fst
      (withGraph_comm (f := fun e => (e.withOptions options, ())) ⟨rfl, rfl, rfl, rfl⟩ fun _ => rfl)

end Executor

/-! ## Fresh executors -/

/-- Registration asks of positions only whether there is one. -/
theorem Plan.register_congr {p : Plan} {positions positions' : List (NodeId × Nat)} {rs : List NodeRecord}
    (h : ∀ r ∈ rs, Assoc.lookup r.id positions' = none ↔ Assoc.lookup r.id positions = none)
    (v : KeyedVec NodeId Controller) : p.register positions' rs v = p.register positions rs v := by
  induction rs generalizing v with
  | nil => rfl
  | cons r rs ih =>
    have hrest := ih fun q hq => h q (List.mem_cons_of_mem r hq)
    have hr : (Assoc.lookup r.id positions').isNone = (Assoc.lookup r.id positions).isNone := by
      rw [Bool.eq_iff_iff, Option.isNone_iff_eq_none, Option.isNone_iff_eq_none]
      exact h r List.mem_cons_self
    simp only [register, hr, hrest]

namespace Executor

variable {plan : Plan} {g g' : Graph}

theorem new_rebase (h : ∀ id ∈ plan.ids, g'.find? id = g.find? id) (logic : Option (Logic σ)) :
    Executor.new plan g' logic = (Executor.new plan g logic).map (·.rebase plan g' g'.positions) := by
  have hregister : plan.register g'.positions plan.records .empty
      = plan.register g.positions plan.records .empty := by
    apply Plan.register_congr
    intro r hr
    have hid : r.id ∈ plan.ids := mem_distinctFrom.mpr ⟨List.mem_map_of_mem hr, List.not_mem_nil⟩
    rw [Graph.lookup_positions_eq_none, Graph.lookup_positions_eq_none, h r.id hid]
  simp only [Executor.new, hregister]
  cases plan.register g.positions plan.records .empty with
  | error b => rfl
  | ok controllers =>
    show (controllers.validate >>= fun _ => _) = Except.map _ (controllers.validate >>= fun _ => _)
    cases controllers.validate <;> rfl

/-- **Fresh executors differ in nothing but the graph,** and the one graph fits where the other one was. -/
theorem new_withGraph (h : ∀ id ∈ plan.ids, g'.find? id = g.find? id) (logic : Option (Logic σ)) :
    ∃ e, Executor.new plan g logic = .ok e ∧ Executor.new plan g' logic = .ok (e.withGraph g') := by
  obtain ⟨e, he, hw, hitems, _, rfl, rfl, _⟩ := new_eq_ok plan g logic
  refine ⟨e, he, ?_⟩
  have hfits : e.Fits g' g'.positions := by
    intro id hid
    -- a node with a controller is one of the plan
    obtain ⟨c, hc⟩ := hw.tracks_iff.mp hid
    have hmem := KeyedVec.mem_of_find? hc
    rw [hitems] at hmem
    obtain ⟨k, hk, hck⟩ := List.mem_filterMap.mp hmem
    obtain rfl : k = id := (Plan.id_of_controllerFor? hck).symm.trans (id_of_find? hc)
    rw [hw.positions, Graph.nodeAt?_positions, Graph.nodeAt?_positions, h k hk]
  rw [new_rebase h, he, withGraph_of_fits hfits]
  rfl

end Executor

/-! ## Calls -/

/-- The nodes of `Sample.graph` in another order, behind one that the plan does not refer to and before
another one of the same identifier, and an edge. -/
def Sample.rearranged : Graph where
  nodes :=
    [{ id := ⟨"d"⟩, kind := "" }, { id := ⟨"c"⟩, kind := "" },
      { id := ⟨"a"⟩, kind := "", configuration := some (SortedMap.empty.insert "out" (.bool true)) },
      { id := ⟨"b"⟩, kind := "" }, { id := ⟨"a"⟩, kind := "other" }]
  edges := [{ source := ⟨"d"⟩, target := ⟨"a"⟩ }]

namespace Session

/-- **Only the relevant part of the graph matters.** Two graphs that have the same first node for each
identifier of the plan give sessions in which all calls are answered alike, with the same invocations, and
leave the same states and results. -/
theorem relevant_nodes_decide {plan : Plan} {g g' : Graph} (h : ∀ id ∈ plan.ids, g'.find? id = g.find? id)
    (logic : Option (Logic σ)) (host : σ) :
    ∃ s t, Session.start plan g logic host = .ok s ∧ Session.start plan g' logic host = .ok t
      ∧ ∀ calls : List Call,
        (t.performAll calls).2 = (s.performAll calls).2
        ∧ (t.performAll calls).1.journal = (s.performAll calls).1.journal
        ∧ (t.performAll calls).1.executor.status = (s.performAll calls).1.executor.status
        ∧ ∀ id, (t.performAll calls).1.executor.outputs? id
          = (s.performAll calls).1.executor.outputs? id := by
  obtain ⟨e, he, he'⟩ := Executor.new_withGraph h logic
  let s : Session σ := { executor := e, host }
  have hstart : Session.start plan g logic host = .ok s := start_of_new he host
  refine ⟨s, s.onExecutor (·.withGraph g'), hstart, start_of_new he' host, ?_⟩
  intro calls
  have houtline : ∀ e : Executor σ, (e.withGraph g').plan.outline = e.plan.outline := fun _ =>
    Executor.withGraph_view (fun e => e.plan.outline) fun _ => rfl
  rw [performAll_onExecutor (Executor.passedOn_withGraph g') (Reachable.start hstart).coherent
    (fun e _ => houtline e) calls]
  refine ⟨rfl, rfl, ?_, ?_⟩
  · exact Executor.withGraph_view Executor.status fun _ => rfl
  · intro id
    exact Executor.withGraph_view (fun e => e.outputs? id) fun _ => rfl

/-- A plan runs alike over a graph whose nodes have been rearranged. -/
theorem relevant_nodes_decide_sample :
    (∀ id ∈ Sample.plan.ids, Sample.rearranged.find? id = Sample.graph.find? id)
      ∧ ∃ s t : Session Unit, Session.start Sample.plan Sample.graph (some .echo) () = .ok s
        ∧ Session.start Sample.plan Sample.rearranged (some .echo) () = .ok t
        ∧ (t.performAll [.run]).2 = [.run (.ok ⟨3, 0, 0⟩)]
        ∧ (launches (t.performAll [.run]).1.journal).map (fun x => (x.1.id, x.2.get? "in"))
          = [(⟨"a"⟩, none), (⟨"b"⟩, none), (⟨"c"⟩, some (.bool true))] := by
  have hids : Sample.plan.ids = [⟨"a"⟩, ⟨"b"⟩, ⟨"c"⟩] := by
    rw [Plan.ids, Plan.records_eq]
    rfl
  have hsame : ∀ id ∈ Sample.plan.ids, Sample.rearranged.find? id = Sample.graph.find? id := by
    rw [hids]
    simp only [List.forall_mem_cons]
    exact ⟨rfl, rfl, rfl, fun id hid => absurd hid List.not_mem_nil⟩
  obtain ⟨s, hstart, hrun, hlaunched⟩ : ∃ s : Session Unit,
      Session.start Sample.plan Sample.graph (some .echo) () = .ok s
      ∧ (s.performAll [.run]).2 = [.run (.ok ⟨3, 0, 0⟩)]
      ∧ (launches (s.performAll [.run]).1.journal).map (fun x => (x.1.id, x.2.get? "in"))
        = [(⟨"a"⟩, none), (⟨"b"⟩, none), (⟨"c"⟩, some (.bool true))] :=
    ⟨_, (by rw [start, Executor.new, Plan.records_eq]; rfl), rfl, rfl⟩
  obtain ⟨s', t, hs, ht, hall⟩ := relevant_nodes_decide hsame (some .echo) ()
  obtain rfl := Except.ok.inj (hs.symm.trans hstart)
  obtain ⟨hanswers, hjournal, _, _⟩ := hall [.run]
  exact ⟨hsame, s', t, hs, ht, hanswers.trans hrun, hjournal ▸ hlaunched⟩

end Session

end StageFlow
