import Mathlib.Logic.Relation
import StageFlow.Proofs.Activity
import StageFlow.Proofs.Node

/-!
# The course of a run

Whatever the dispatch, a run is a sequence of three kinds of steps: a node is prepared, the host acts, an
invocation in flight is settled. What every step keeps, every run keeps, and so does every sequence of
calls.

## Contents
- **Endings.** An invocation with how it ended, and `Logic.Yields`, what is known of all endings.
- **Steps.** `Moment`, a session with the invocations in flight, and `Step`.
- **Soundness.** `Moment.Sound`: coherence, and that invocations in flight have the inputs they should have.
-/

namespace StageFlow

open Executor (Invocation Prepared NodeRun judge)

/-! ## Endings -/

/-- The event of an invocation being handed to the logic. -/
def Executor.Invocation.event (i : Invocation) : Event := .started i.node i.inputs

/-- An invocation and how it ended. -/
abbrev Ending := Invocation × Except String Object

/-- What an invocation amounts to. -/
def Ending.outcome (x : Ending) : Except ExecutorError Object := judge x.1.id x.2

/-- The event of an ending being taken in. -/
def Ending.event (x : Ending) : Event := .ended x.1.id x.2

/-- Whatever the host's state, and whatever other invocations do to it in between, the logic answers a node
and its inputs with results that satisfy `P`. -/
def Logic.Yields {σ : Type} (logic : Logic σ)
    (P : NodeDescriptor → Object → Except String Object → Prop) : Prop :=
  ∀ node inputs, (logic node inputs).Always fun o => P node inputs o.guarded

/-- The results of the logic are a function of node and inputs. -/
def Logic.Computes {σ : Type} (logic : Logic σ)
    (f : NodeDescriptor → Object → Except String Object) : Prop :=
  logic.Yields fun node inputs result => result = f node inputs

theorem Logic.yields_trivial {σ : Type} (logic : Logic σ) : logic.Yields fun _ _ _ => True :=
  fun node inputs => (logic node inputs).always_trivial

/-- Logic answers with what is left of one of the ways in which it may end. -/
theorem Logic.yields_mayEnd {σ : Type} (logic : Logic σ) :
    logic.Yields fun node inputs result => ∃ o, (logic node inputs).MayEnd o ∧ result = o.guarded :=
  fun node inputs => (logic node inputs).always_mayEnd.imp fun o ho => ⟨o, ho, rfl⟩

namespace Session

variable {σ : Type} {s : Session σ} {id : NodeId} {c : Controller} {flight : List NodeId}

/-- What preparing a node does to a session: a launch is noted. -/
theorem prepare_eq (h : s.executor.Coherent flight) (hc : s.executor.controllers.find? id = some c) :
    ∃ e', s.executor.PreparedTo c e'
      ∧ s.prepare id
          = (⟨e', s.host, s.journal ++ (s.executor.verdict c).launched.map Invocation.event⟩,
              .ok (s.executor.verdict c)) := by
  obtain ⟨e', he, hp⟩ := h.prepare hc
  refine ⟨e', hp, ?_⟩
  unfold prepare
  rw [he]
  cases s.executor.verdict c with
  | ready i => rfl
  | cached values => simp only [Prepared.launched, List.map_nil, List.append_nil]
  | waiting => simp only [Prepared.launched, List.map_nil, List.append_nil]

/-- What settling a node does to a session: the ending is noted. -/
theorem settle_eq (h : s.executor.WellFormed) (hc : s.executor.controllers.find? id = some c)
    (result : Except String Object) :
    ∃ e', s.executor.SettledTo c (judge id result) e'
      ∧ s.settle id result
          = (⟨e', s.host, s.journal ++ [.ended id result]⟩, NodeRun.ofOutcome (judge id result)) := by
  obtain ⟨e', he, hs⟩ := h.settle hc result
  refine ⟨e', hs, ?_⟩
  unfold settle
  rw [he]
  rfl

/-- The logic sees the host's part of a session only. -/
theorem invoke_keeps (logic : Logic σ) (i : Invocation) :
    (invoke logic i).Keeps fun s => (s.executor, s.journal) := by
  refine Activity.Keeps.zoom ?_ _
  intro host s
  rfl

theorem invoke_always {logic : Logic σ} {P : NodeDescriptor → Object → Except String Object → Prop}
    (hl : logic.Yields P) (i : Invocation) : (invoke logic i).Always (P i.node i.inputs) :=
  Activity.Always.zoom _ _ (Activity.Always.map (hl i.node i.inputs) fun _ h => h)

/-- An invocation ends as the logic does on the host's state. -/
theorem invoke_answer (logic : Logic σ) (i : Invocation) (s : Session σ) :
    ((invoke logic i).finish s).2 = ((logic i.node i.inputs).finish s.host).2.guarded := by
  unfold invoke
  rw [Activity.finish_zoom fun _ _ => rfl, Activity.finish_map]

/-- An activity that keeps executor and journal can only have changed the host's part. -/
theorem finish_eq_of_keeps {α : Type} {t : Activity (Session σ) α}
    (h : t.Keeps fun s => (s.executor, s.journal)) (s : Session σ) :
    ∃ host, t.finish s = ({ s with host }, (t.finish s).2) := by
  refine ⟨(t.finish s).1.host, Prod.ext ?_ rfl⟩
  have hkeep := h.finish s
  have hexec : (t.finish s).1.executor = s.executor := congrArg Prod.fst hkeep
  have hjournal : (t.finish s).1.journal = s.journal := congrArg Prod.snd hkeep
  show (t.finish s).1 = ⟨s.executor, (t.finish s).1.host, s.journal⟩
  rw [← hexec, ← hjournal]

/-! ## Steps -/

/-- A session within a run, with the invocations in flight, in the order in which they will be settled. -/
structure Moment (σ : Type) where
  flight : List Invocation
  session : Session σ

/-- One step of a run. -/
inductive Step : Moment σ → Moment σ → Prop
  /-- A node is prepared; if it is launched, it is the last one in flight. -/
  | prepare {flight : List Invocation} {s : Session σ} {id : NodeId} {c : Controller}
      {e' : Executor σ} (hc : s.executor.controllers.find? id = some c)
      (hp : s.executor.PreparedTo c e') :
      Step ⟨flight, s⟩
        ⟨flight ++ (s.executor.verdict c).launched,
          ⟨e', s.host, s.journal ++ (s.executor.verdict c).launched.map Invocation.event⟩⟩
  /-- The logic or the host does something of its own. -/
  | act {flight : List Invocation} {s : Session σ} (host : σ) :
      Step ⟨flight, s⟩ ⟨flight, { s with host }⟩
  /-- The first invocation in flight is settled. -/
  | settle {flight : List Invocation} {s : Session σ} {x : Ending} {c : Controller}
      {e' : Executor σ} (hc : s.executor.controllers.find? x.1.id = some c)
      (hs : s.executor.SettledTo c x.outcome e') :
      Step ⟨x.1 :: flight, s⟩ ⟨flight, ⟨e', s.host, s.journal ++ [x.event]⟩⟩

/-- Any number of steps. -/
abbrev Steps : Moment σ → Moment σ → Prop := Relation.ReflTransGen Step

/-- What every step keeps, any number of steps keeps. -/
theorem Steps.keeps {P : Moment σ → Prop} (hstep : ∀ m m', Step m m' → P m → P m')
    {m m' : Moment σ} (h : Steps m m') (hm : P m) : P m' := by
  induction h with
  | refl => exact hm
  | tail _ hlast ih => exact hstep _ _ hlast ih

/-! ## Soundness -/

/-- An invocation has the node of its identifier, and as inputs the results of its producers. -/
def Supplied (e : Executor σ) (i : Invocation) : Prop :=
  ∃ c, e.controllers.find? i.id = some c ∧ e.graph.find? i.id = some i.node
    ∧ c.inputsAvailable e.cache = true ∧ i.inputs = Executor.gatherInputs e.cache c.bindings

/-- A moment of a run as it should be. -/
structure Moment.Sound (m : Moment σ) : Prop where
  coherent : m.session.executor.Coherent (m.flight.map Invocation.id)
  distinct : (m.flight.map Invocation.id).Nodup
  supplied : ∀ i ∈ m.flight, Supplied m.session.executor i

variable {m m' : Moment σ}

theorem Supplied.of_frame {e e' : Executor σ} {i : Invocation} (h : Supplied e i)
    (hf : e'.frame = e.frame) (hx : e'.cache.Extends e.cache) : Supplied e' i := by
  obtain ⟨c, hc, hn, ha, hi⟩ := h
  obtain ⟨c', hc', hb⟩ := Executor.find?_of_frame hf hc
  have ha' : c'.inputsAvailable e.cache = true := by
    unfold Controller.inputsAvailable
    rw [hb]
    exact ha
  refine ⟨c', hc', by rw [Executor.graph_of_frame hf, hn], ?_, ?_⟩
  · exact Controller.inputsAvailable_of_extends hx ha'
  · rw [Controller.gatherInputs_of_extends hx ha', hb, hi]

/-- The controller of an invocation in flight is running. -/
theorem Moment.Sound.running {x : Invocation} {flight : List Invocation} {s : Session σ}
    (h : Moment.Sound ⟨flight, s⟩) (hx : x ∈ flight) :
    ∃ c, s.executor.controllers.find? x.id = some c ∧ c.state = .running :=
  (h.coherent.flying x.id).mp (List.mem_map_of_mem hx)

/-- A step only ever adds results. -/
theorem Step.extends (h : Step m m') (hm : m.Sound) :
    m'.session.executor.cache.Extends m.session.executor.cache := by
  cases h with
  | prepare hc hp => intro id r hr; rw [← hr]; exact congrArg (·.get? id) hp.cache
  | act host => exact fun id r hr => hr
  | @settle flight s x c e' hc hs =>
    intro id r hr
    show e'.cache.get? id = some r
    -- a node in flight has no result that could be replaced
    have hnone := hm.coherent.get?_eq_none_of_mem (List.mem_map_of_mem (f := Invocation.id)
      (List.mem_cons_self (a := x.1) (l := flight)))
    have hid : c.id = x.1.id := Executor.id_of_find? hc
    rw [hs.cache, Cache.get?_absorb, if_neg, hr]
    rintro rfl
    rw [hid, hnone] at hr
    exact absurd hr (by simp)

theorem Step.frame (h : Step m m') : m'.session.executor.frame = m.session.executor.frame := by
  cases h with
  | prepare hc hp => exact hp.frame
  | act host => rfl
  | settle hc hs => exact hs.frame

/-- **Every step leads from a sound moment to a sound one.** -/
theorem Step.sound (h : Step m m') (hm : m.Sound) : m'.Sound := by
  have hx := h.extends hm
  have hframe := h.frame
  cases h with
  | @prepare flight s id c e' hc hp =>
    have hcoh := hm.coherent.prepared hc hp
    rw [← List.map_append] at hcoh
    have hid : c.id = id := Executor.id_of_find? hc
    refine ⟨hcoh, ?_, ?_⟩
    · rw [List.map_append, List.nodup_append]
      refine ⟨hm.distinct, ?_, ?_⟩
      · cases s.executor.verdict c <;> simp [Prepared.launched]
      · -- what is in flight already is not launched again
        intro k hk k' hk' heq
        obtain ⟨i, hi, rfl⟩ := List.mem_map.mp hk'
        obtain ⟨hrun, hdue⟩ := Executor.mem_launched hi
        obtain ⟨d, hd, hrun'⟩ := (hm.coherent.flying k).mp hk
        rw [heq, Executor.id_of_due? hdue, hid, hc] at hd
        exact hrun (Option.some.inj hd ▸ hrun')
    · intro i hi
      rcases List.mem_append.mp hi with hi | hi
      · exact (hm.supplied i hi).of_frame hframe hx
      · obtain ⟨_, hdue⟩ := Executor.mem_launched hi
        obtain ⟨d, node, hd, hn, _, ha, rfl⟩ := Executor.due?_eq_some.mp hdue
        exact Supplied.of_frame ⟨d, hd, hn, ha, rfl⟩ hframe hx
  | act host => exact ⟨hm.coherent, hm.distinct, hm.supplied⟩
  | @settle flight s x c e' hc hs =>
    obtain ⟨d, hd, hrun⟩ := hm.running (x := x.1) List.mem_cons_self
    obtain rfl := Option.some.inj (hc.symm.trans hd)
    have hnodup := List.nodup_cons.mp hm.distinct
    refine ⟨hm.coherent.settled hc hrun hs ?_, hnodup.2, ?_⟩
    · intro k
      rw [List.map_cons, List.mem_cons]
      constructor
      · intro hk
        exact ⟨Or.inr hk, fun he => hnodup.1 (he ▸ hk)⟩
      · rintro ⟨hk | hk, hne⟩
        · exact absurd hk hne
        · exact hk
    · intro i hi
      exact (hm.supplied i (List.mem_cons_of_mem _ hi)).of_frame hframe hx

theorem Steps.sound (h : Steps m m') (hm : m.Sound) : m'.Sound :=
  Steps.keeps (fun _ _ hs => hs.sound) h hm

theorem Steps.frame (h : Steps m m') : m'.session.executor.frame = m.session.executor.frame := by
  induction h with
  | refl => rfl
  | tail _ hlast ih => exact hlast.frame.trans ih

theorem Steps.extends (h : Steps m m') (hm : m.Sound) :
    m'.session.executor.cache.Extends m.session.executor.cache := by
  induction h with
  | refl => exact fun id r hr => hr
  | tail hs hlast ih => exact fun id r hr => hlast.extends (Steps.sound hs hm) id r (ih id r hr)

end Session

end StageFlow
