import StageFlow.Proofs.Bindings
import StageFlow.Proofs.Outline

/-!
# Links named on one side

A plan holds each link twice, with the producer and with the consumer. It is enough to name an output with
the producer and an input with the consumer: the controllers are those of the plan with all names.

## Contents
- **One side.** `NodeRecord.oneSided`, which keeps outputs with producers and inputs with consumers, and
  what it makes of the records of a plan.
- **Two sides.** `Plan.TwoSided`: both sides hold the same links under the same names.
- **Controllers.** Either plan gives each record the bindings of its full names.
- **Sessions.** `one_sided_names_suffice`.
-/

namespace StageFlow

/-! ## One side -/

mutual

/-- The record without the names of outputs at its incoming links and without the names of inputs at its
outgoing ones, and likewise for all that it leads to. -/
def NodeRecord.oneSided : NodeRecord → NodeRecord
  | ⟨id, up, down⟩ => ⟨id, inputsOnly up, outputsOnly down⟩

/-- Incoming links without the names of outputs. -/
def inputsOnly : List (Link NodeRecord) → List (Link NodeRecord)
  | [] => []
  | ⟨peer, _, input⟩ :: ls => ⟨peer.oneSided, "", input⟩ :: inputsOnly ls

/-- Outgoing links without the names of inputs. -/
def outputsOnly : List (Link NodeRecord) → List (Link NodeRecord)
  | [] => []
  | ⟨peer, output, _⟩ :: ls => ⟨peer.oneSided, output, ""⟩ :: outputsOnly ls

end

/-- The stage with all records named on one side. -/
def Stage.oneSided : Stage → Stage
  | static nodes => static (nodes.map NodeRecord.oneSided)
  | vm node => vm node.oneSided

/-- The plan with all records named on one side. -/
def Plan.oneSided (p : Plan) : Plan where
  stages := p.stages.map Stage.oneSided

/-- An incoming link without the name of its output. -/
def Link.inputOnly (l : Link NodeRecord) : Link NodeRecord := ⟨l.peer.oneSided, "", l.input⟩

/-- An outgoing link without the name of its input. -/
def Link.outputOnly (l : Link NodeRecord) : Link NodeRecord := ⟨l.peer.oneSided, l.output, ""⟩

theorem inputsOnly_eq (ls : List (Link NodeRecord)) : inputsOnly ls = ls.map Link.inputOnly := by
  induction ls with
  | nil => rfl
  | cons l ls ih => rw [inputsOnly, ih]; rfl

theorem outputsOnly_eq (ls : List (Link NodeRecord)) : outputsOnly ls = ls.map Link.outputOnly := by
  induction ls with
  | nil => rfl
  | cons l ls ih => rw [outputsOnly, ih]; rfl

namespace NodeRecord

@[simp] theorem id_oneSided (r : NodeRecord) : r.oneSided.id = r.id := by
  cases r
  rfl

theorem incoming_oneSided (r : NodeRecord) : r.oneSided.incoming = r.incoming.map Link.inputOnly := by
  cases r
  exact inputsOnly_eq _

theorem outgoing_oneSided (r : NodeRecord) :
    r.oneSided.outgoing = r.outgoing.map Link.outputOnly := by
  cases r
  exact outputsOnly_eq _

/-- The links to a node are the same ones, without the names of inputs. -/
theorem linksTo_oneSided (r : NodeRecord) (id : NodeId) :
    r.oneSided.linksTo id = (r.linksTo id).map Link.outputOnly := by
  unfold linksTo
  rw [outgoing_oneSided, List.filter_map]
  simp [Function.comp_def, Link.outputOnly]

end NodeRecord

mutual

/-- A record leads to the same records in the same order. -/
theorem NodeRecord.listing_oneSided : ∀ r : NodeRecord,
    r.oneSided.listing = r.listing.map NodeRecord.oneSided
  | ⟨id, up, down⟩ => by
    rw [NodeRecord.oneSided, NodeRecord.listing, NodeRecord.listing, List.map_cons, List.map_append,
      listing_inputsOnly up, listing_outputsOnly down, NodeRecord.oneSided]

theorem listing_inputsOnly : ∀ ls : List (Link NodeRecord),
    listingOfLinks (inputsOnly ls) = (listingOfLinks ls).map NodeRecord.oneSided
  | [] => rfl
  | ⟨peer, _, _⟩ :: ls => by
    rw [inputsOnly, listingOfLinks, listingOfLinks, List.map_append, peer.listing_oneSided,
      listing_inputsOnly ls]

theorem listing_outputsOnly : ∀ ls : List (Link NodeRecord),
    listingOfLinks (outputsOnly ls) = (listingOfLinks ls).map NodeRecord.oneSided
  | [] => rfl
  | ⟨peer, _, _⟩ :: ls => by
    rw [outputsOnly, listingOfLinks, listingOfLinks, List.map_append, peer.listing_oneSided,
      listing_outputsOnly ls]

end

theorem Stage.records_oneSided (stage : Stage) :
    stage.oneSided.records = stage.records.map NodeRecord.oneSided := by
  cases stage <;> rfl

namespace Plan

theorem listed_oneSided (p : Plan) : p.oneSided.listed = p.listed.map NodeRecord.oneSided := by
  unfold listed oneSided
  rw [List.flatMap_map, List.map_flatMap]
  exact List.flatMap_congr fun stage _ => stage.records_oneSided

theorem records_oneSided (p : Plan) : p.oneSided.records = p.records.map NodeRecord.oneSided := by
  rw [records_eq, records_eq, listed_oneSided, List.flatMap_map, List.map_flatMap]
  exact List.flatMap_congr fun r _ => r.listing_oneSided

theorem listedRecord?_oneSided (p : Plan) (id : NodeId) :
    p.oneSided.listedRecord? id = (p.listedRecord? id).map NodeRecord.oneSided := by
  unfold listedRecord?
  have hid : (fun r : NodeRecord => decide (r.id = id)) ∘ NodeRecord.oneSided
      = fun r => decide (r.id = id) := by
    funext r
    rw [Function.comp_apply, NodeRecord.id_oneSided]
  rw [listed_oneSided, List.find?_map, hid]

theorem outline_oneSided (p : Plan) : p.oneSided.outline = p.outline := by
  unfold outline oneSided
  rw [List.map_map]
  apply List.map_congr_left
  intro stage _
  rw [Function.comp_apply, Stage.records_oneSided, List.map_map]
  simp [Function.comp_def]

end Plan

/-! ## Two sides -/

/-- The names of the output and the input that a link connects. -/
def Link.names (l : Link NodeRecord) : String × String := (l.output, l.input)

/-- The links of a node from a producer. -/
def NodeRecord.linksFrom (r : NodeRecord) (source : NodeId) : List (Link NodeRecord) :=
  r.incoming.filter (·.peer.id = source)

/-- Both ends of each link hold it under the same names. -/
structure Plan.TwoSided (p : Plan) : Prop where
  /-- Inside links there are only stubs. -/
  stubs : ∀ r ∈ p.listed, ∀ l ∈ r.incoming ++ r.outgoing, l.peer = l.peer.stub
  /-- Where a node is listed first, its links from a producer are those that the producer, where that is
  listed first, has to it. -/
  matched : ∀ r ∈ p.listed, p.listedRecord? r.id = some r → ∀ l ∈ r.incoming,
    (p.listedRecord? l.peer.id).map (fun source => (source.linksTo r.id).map Link.names)
      = some ((r.linksFrom l.peer.id).map Link.names)

namespace Plan.TwoSided

variable {p : Plan} (hp : p.TwoSided)
include hp

/-- Every record that the plan refers to is listed or a stub. -/
theorem mem_records {r : NodeRecord} (hr : r ∈ p.records) : r ∈ p.listed ∨ r = r.stub := by
  rw [records_eq, List.mem_flatMap] at hr
  obtain ⟨listed, hlisted, hr⟩ := hr
  rw [NodeRecord.listing_eq, List.mem_cons, List.mem_flatMap] at hr
  rcases hr with rfl | ⟨l, hl, hr⟩
  · exact Or.inl hlisted
  · -- a stub leads to itself only
    rw [hp.stubs listed hlisted l hl, NodeRecord.listing_eq] at hr
    obtain rfl := List.mem_singleton.mp hr
    exact Or.inr rfl

/-- The record that the controller of a record's node is made from leads to stubs only, and its n-th link
from a producer is the producer's n-th link to the node. -/
theorem producerLink {r : NodeRecord} (hr : r ∈ p.records) {l : Link NodeRecord}
    (hl : l ∈ ((p.listedRecord? r.id).getD r).incoming) :
    l.peer = l.peer.stub
      ∧ ∀ n : Nat, (((p.listedRecord? r.id).getD r).linksFrom l.peer.id)[n]? = some l →
        ∃ (source : NodeRecord) (m : Link NodeRecord), p.listedRecord? l.peer.id = some source
          ∧ (source.linksTo r.id)[n]? = some m ∧ m.names = l.names := by
  cases hrec : p.listedRecord? r.id with
  | none =>
    -- a record that is not listed is a stub and has no links
    rw [hrec] at hl
    rcases hp.mem_records hr with hlisted | hstub
    · exact absurd (List.find?_eq_none.mp hrec r hlisted) (by simp)
    · rw [hstub] at hl
      exact absurd hl List.not_mem_nil
  | some rec =>
    rw [hrec, Option.getD_some] at hl
    have hlisted : rec ∈ p.listed := List.mem_of_find?_eq_some hrec
    have hid : rec.id = r.id := by simpa using List.find?_some hrec
    refine ⟨hp.stubs rec hlisted l (List.mem_append_left _ hl), ?_⟩
    intro n hn
    rw [Option.getD_some] at hn
    have hmatched := hp.matched rec hlisted (hid ▸ hrec) l hl
    obtain ⟨source, hsource, hnames⟩ := Option.map_eq_some_iff.mp hmatched
    have hname : ((source.linksTo rec.id).map Link.names)[n]? = some l.names := by
      rw [hnames, List.getElem?_map, hn]
      rfl
    rw [List.getElem?_map, hid] at hname
    obtain ⟨m, hm, heq⟩ := Option.map_eq_some_iff.mp hname
    exact ⟨source, m, hsource, hm, heq⟩

end Plan.TwoSided

/-! ## Controllers -/

namespace Plan

variable {p : Plan} {r : NodeRecord}

/-- A record whose producers are stubs tells nothing of their side; its controller has the names that their
listed records give. -/
theorem controllerOf_eq
    (h : ∀ l ∈ ((p.listedRecord? r.id).getD r).incoming, l.peer.outgoing = []) :
    p.controllerOf r =
      { id := r.id
        bindings := completeBindings p.listedRecord? r.id []
          (((p.listedRecord? r.id).getD r).incoming.map InputBinding.ofLink) } := by
  have hid := id_listedRecord?_getD p r
  unfold controllerOf
  generalize (p.listedRecord? r.id).getD r = rec at h hid
  have hinline : ∀ source, Controller.inlineProducer rec source = none := by
    intro source
    rw [Controller.inlineProducer, List.find?_eq_none]
    intro peer hpeer
    obtain ⟨l, hl, rfl⟩ := List.mem_map.mp hpeer
    simp [h l hl]
  unfold Controller.ofRecord Controller.complete
  simp only [completeBindings_of_none fun b _ => hinline b.source, hid]

/-- **Two-sided links are bound under their full names.** -/
theorem TwoSided.controllerOf_eq (hp : p.TwoSided) (hr : r ∈ p.records) :
    p.controllerOf r =
      { id := r.id
        bindings := ((p.listedRecord? r.id).getD r).incoming.map InputBinding.ofLink } := by
  rw [Plan.controllerOf_eq fun l hl => congrArg NodeRecord.outgoing (hp.producerLink hr hl).1]
  congr 1
  apply completeBindings_map (fun _ _ => rfl)
  intro l hl n hn
  obtain ⟨source, m, hsource, hm, hnames⟩ := (hp.producerLink hr hl).2 n hn
  refine ⟨source, m, hsource, hm, ?_⟩
  obtain ⟨ho, hi⟩ := Prod.mk.inj hnames
  simp [InputBinding.fill, InputBinding.ofLink, ho, hi]

/-- **One side of two-sided links is enough** for the same bindings. -/
theorem TwoSided.controllerOf_oneSided (hp : p.TwoSided) (hr : r ∈ p.records) :
    p.oneSided.controllerOf r.oneSided = p.controllerOf r := by
  have hrec : (p.oneSided.listedRecord? r.oneSided.id).getD r.oneSided
      = ((p.listedRecord? r.id).getD r).oneSided := by
    rw [NodeRecord.id_oneSided, listedRecord?_oneSided, Option.getD_map]
  have hstubs : ∀ l ∈ ((p.listedRecord? r.id).getD r).oneSided.incoming, l.peer.outgoing = [] := by
    intro l hl
    rw [NodeRecord.incoming_oneSided] at hl
    obtain ⟨k, hk, rfl⟩ := List.mem_map.mp hl
    show k.peer.oneSided.outgoing = []
    rw [(hp.producerLink hr hk).1]
    rfl
  rw [Plan.controllerOf_eq (by rw [hrec]; exact hstubs), hp.controllerOf_eq hr, hrec,
    NodeRecord.incoming_oneSided, List.map_map, NodeRecord.id_oneSided]
  congr 1
  apply completeBindings_map
  · intro l _
    exact NodeRecord.id_oneSided l.peer
  · intro l hl n hn
    obtain ⟨source, m, hsource, hm, hnames⟩ := (hp.producerLink hr hl).2 n hn
    refine ⟨source.oneSided, m.outputOnly, ?_, ?_, ?_⟩
    · rw [listedRecord?_oneSided, hsource]
      rfl
    · rw [NodeRecord.linksTo_oneSided, List.getElem?_map, hm]
      rfl
    · -- the output comes from the producer, and the input stays
      obtain ⟨ho, hi⟩ := Prod.mk.inj hnames
      simp [InputBinding.fill, InputBinding.ofLink, Link.inputOnly, Link.outputOnly, ho]

example : (Sample.parallel.oneSided.controllerOf { id := ⟨"c"⟩ }).bindings
    = [⟨⟨"a"⟩, "x", "p"⟩, ⟨⟨"a"⟩, "y", "r"⟩] := by decide

/-- Records that give the same controllers are registered alike. -/
theorem register_map {q : Plan} {g : NodeRecord → NodeRecord} {rs : List NodeRecord}
    (hid : ∀ r ∈ rs, (g r).id = r.id) (hc : ∀ r ∈ rs, q.controllerOf (g r) = p.controllerOf r)
    (positions : List (NodeId × Nat)) (v : KeyedVec NodeId Controller) :
    q.register positions (rs.map g) v = p.register positions rs v := by
  induction rs generalizing v with
  | nil => rfl
  | cons r rs ih =>
    rw [List.forall_mem_cons] at hid hc
    simp only [List.map_cons, register, hid.1, hc.1, ih hid.2 hc.2]

end Plan

/-! ## Sessions -/

variable {σ : Type} {p : Plan}

/-- A fresh executor of the plan with names on one side differs in nothing but the plan. -/
theorem Executor.new_oneSided (hp : p.TwoSided) (graph : Graph) (logic : Option (Logic σ)) :
    Executor.new p.oneSided graph logic
      = (Executor.new p graph logic).map (·.withPlan p.oneSided) := by
  have hregister : p.oneSided.register graph.positions p.oneSided.records .empty
      = p.register graph.positions p.records .empty := by
    rw [Plan.records_oneSided]
    exact Plan.register_map (fun r _ => r.id_oneSided) (fun r hr => hp.controllerOf_oneSided hr) _ _
  simp only [Executor.new, hregister]
  cases p.register graph.positions p.records .empty with
  | error b => rfl
  | ok controllers =>
    show (controllers.validate >>= fun _ => _) = Except.map _ (controllers.validate >>= fun _ => _)
    cases controllers.validate <;> rfl

namespace Session

theorem start_oneSided (hp : p.TwoSided) (graph : Graph) (logic : Option (Logic σ)) (host : σ) :
    Session.start p.oneSided graph logic host
      = (Session.start p graph logic host).map (·.withPlan p.oneSided) := by
  unfold start
  rw [Executor.new_oneSided hp]
  cases Executor.new p graph logic <;> rfl

/-- **It is enough to name each link on one side.** If both ends of each link hold it under the same names,
then without the outputs' names at the consumers and the inputs' names at the producers there are the same
controllers with the same bindings, and every sequence of calls has the same answers and leaves the same
states and results. -/
theorem one_sided_names_suffice (hp : p.TwoSided) (graph : Graph) (logic : Option (Logic σ))
    (host : σ) :
    ∃ s t, Session.start p graph logic host = .ok s
      ∧ Session.start p.oneSided graph logic host = .ok t
      ∧ t.executor.controllers = s.executor.controllers
      ∧ ∀ calls : List Call,
        (t.performAll calls).2 = (s.performAll calls).2
        ∧ (t.performAll calls).1.executor.status = (s.performAll calls).1.executor.status
        ∧ (∀ id, (t.performAll calls).1.executor.outputs? id
          = (s.performAll calls).1.executor.outputs? id)
        ∧ (t.performAll calls).1.journal = (s.performAll calls).1.journal := by
  obtain ⟨s, hs, hcoh, _, _, hplan, _⟩ := start_eq_ok p graph logic host
  refine ⟨s, s.withPlan p.oneSided, hs, ?_, rfl, ?_⟩
  · rw [start_oneSided hp, hs]
    rfl
  · intro calls
    have houtline : p.oneSided.outline = s.executor.plan.outline := by
      rw [hplan, Plan.outline_oneSided]
    rw [performAll_withPlan hcoh houtline calls]
    exact ⟨rfl, rfl, fun _ => rfl, rfl⟩

/-- Two links between the same nodes go together in their order, whatever stands between them. -/
theorem one_sided_names_suffice_sample :
    Sample.parallel.TwoSided
      ∧ ∃ s t : Session Unit,
        Session.start Sample.parallel Sample.graph (some Sample.twoOutputs) () = .ok s
        ∧ Session.start Sample.parallel.oneSided Sample.graph (some Sample.twoOutputs) () = .ok t
        ∧ t.executor.controllers = s.executor.controllers
        ∧ (t.performAll [.run]).2 = [.run (.ok ⟨3, 0, 0⟩)]
        ∧ (launches (t.performAll [.run]).1.journal).map
            (fun x => (x.1.id, x.2.get? "p", x.2.get? "q", x.2.get? "r"))
          = [(⟨"a"⟩, none, none, none), (⟨"b"⟩, none, some (.bool true), none),
            (⟨"c"⟩, some (.bool true), none, some (.bool false))] := by
  have hp : Sample.parallel.TwoSided := ⟨by decide, by decide⟩
  obtain ⟨s, hstart, hrun, hlaunched⟩ : ∃ s : Session Unit,
      Session.start Sample.parallel Sample.graph (some Sample.twoOutputs) () = .ok s
      ∧ (s.performAll [.run]).2 = [.run (.ok ⟨3, 0, 0⟩)]
      ∧ (launches (s.performAll [.run]).1.journal).map
          (fun x => (x.1.id, x.2.get? "p", x.2.get? "q", x.2.get? "r"))
        = [(⟨"a"⟩, none, none, none), (⟨"b"⟩, none, some (.bool true), none),
          (⟨"c"⟩, some (.bool true), none, some (.bool false))] :=
    ⟨_, (by rw [start, Executor.new, Plan.records_eq]; rfl), rfl, rfl⟩
  obtain ⟨s', t, hs, ht, hc, hall⟩ :=
    one_sided_names_suffice hp Sample.graph (some Sample.twoOutputs) ()
  obtain rfl := Except.ok.inj (hs.symm.trans hstart)
  obtain ⟨hanswers, _, _, hjournal⟩ := hall [.run]
  exact ⟨hp, s', t, hs, ht, hc, hanswers.trans hrun, hjournal ▸ hlaunched⟩

end Session

end StageFlow
