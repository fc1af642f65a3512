import StageFlow.CommandLine
import StageFlow.Proofs.Registration
import StageFlow.Proofs.Safety

/-!
# Reports of fresh runs

A run that starts with all nodes waiting fails just if it leaves a node failed. So the report of a plan that is
run from files tells the same story three times: by its error, by the exit code and by the states of its nodes.

## Contents
- **Failed nodes.** Where a failed node comes from, and `run_fails_iff`.
- **Reports.** `Report.Faithful`, and the report of a run over a fresh session.
- **From files.** `prepareRun_eq_ok`, when there is something to run, and `runPlan_reports`.
-/

namespace StageFlow

open Executor (Invocation NodeRun judge)

/-! ## Failed nodes -/

namespace Session

variable {σ : Type} {s s' : Session σ} {stats : RunStats} {ids : List NodeId} {id : NodeId}
variable {rounds : List (List NodeId)} {batch : List Ending} {logic : Logic σ} {c : Controller}
variable {P : NodeDescriptor → Object → Except String Object → Prop}
variable {result : Session σ × Except Stop RunStats}

/-- A node that a stage leaves failed had failed before, or an invocation of it has failed in the stage. -/
theorem Served.of_failed (h : Served s ids batch s') (hc : s'.executor.controllers.find? id = some c)
    (hf : c.state = .failed) :
    (∃ d, s.executor.controllers.find? id = some d ∧ d.state = .failed)
      ∨ ∃ x ∈ batch, ∃ err, x.outcome = .error err := by
  rw [h.find?, Option.map_eq_some_iff] at hc
  obtain ⟨d, hd, rfl⟩ := hc
  replace hf : servedState s.executor ids batch d = .failed := hf
  unfold servedState at hf
  split at hf
  · rename_i x hx
    obtain ⟨hmem, _⟩ := mem_of_endingOf? hx
    cases ho : x.outcome with
    | ok values =>
      rw [ho] at hf
      exact absurd hf (by simp [NodeState.afterOutcome])
    | error err => exact Or.inr ⟨x, hmem, err, ho⟩
  · split at hf
    · exact absurd hf (by simp)
    · exact Or.inl ⟨d, hd, hf⟩

theorem Rounds.exists_failed (h : Rounds P s stats rounds batch result)
    (hc : result.1.executor.controllers.find? id = some c) (hf : c.state = .failed) :
    (∃ d, s.executor.controllers.find? id = some d ∧ d.state = .failed)
      ∨ ∃ x ∈ batch, ∃ err, x.outcome = .error err := by
  induction h with
  | done s stats => exact Or.inl ⟨c, hc, hf⟩
  | pass served _ _ _ _ ih =>
    rcases ih hc with ⟨d, hd, hdf⟩ | ⟨x, hx, err, ho⟩
    · rcases served.of_failed hd hdf with hold | ⟨x, hx, err, ho⟩
      · exact Or.inl hold
      · exact Or.inr ⟨x, List.mem_append_left _ hx, err, ho⟩
    · exact Or.inr ⟨x, List.mem_append_right _ hx, err, ho⟩
  | fail served _ _ => exact served.of_failed hc hf

/-- **A run that starts without failed nodes fails just if it ends with one.** -/
theorem run_fails_iff (hs : s.executor.Coherent []) (hl : s.executor.logic = some logic)
    (hfresh : ∀ c ∈ s.executor.controllers.items, c.state ≠ .failed) :
    (∃ stop, (run.finish s).2 = .error stop)
      ↔ ∃ c ∈ (run.finish s).1.executor.controllers.items, c.state = .failed := by
  obtain ⟨batch, hrounds⟩ := run_rounds hl logic.yields_trivial (moment_sound hs)
  have hw := (hrounds.steps.sound (moment_sound hs)).coherent.wellFormed
  constructor
  · rintro ⟨stop, hstop⟩
    obtain ⟨before, x, after, err, rfl, _, ho, _⟩ :=
      firstFailure?_eq_some ((hrounds.error_iff stop).mp hstop)
    obtain ⟨_, c, hc, hstate⟩ := hrounds.of_failed (List.mem_append_right before List.mem_cons_self) ho
    exact ⟨c, KeyedVec.mem_of_find? hc, hstate⟩
  · rintro ⟨c, hc, hstate⟩
    rcases hrounds.exists_failed (hw.indexed.find?_key hc) hstate with ⟨d, hd, hdf⟩ | ⟨x, hx, err, ho⟩
    · exact absurd hdf (hfresh d (KeyedVec.mem_of_find? hd))
    · -- what has failed anywhere in the run makes the run fail
      cases hfirst : firstFailure? batch with
      | some stop => exact ⟨stop, (hrounds.error_iff stop).mpr hfirst⟩
      | none =>
        obtain ⟨values, hok⟩ := firstFailure?_eq_none.mp hfirst x hx
        rw [ho] at hok
        exact absurd hok (by simp)

end Session

/-! ## Reports -/

/-- A report that tells of these nodes, of each by its state, its outputs if it has run, and that has an error
just if one of them has failed. -/
structure Report.Faithful (r : Report) (ids : List NodeId) : Prop where
  listed : r.nodes.map (·.id) = ids
  settled : ∀ n ∈ r.nodes, n.state = .waiting ∨ n.state = .cached ∨ n.state = .succeeded ∨ n.state = .failed
  outputs : ∀ n ∈ r.nodes, n.outputs.isSome = true ↔ n.state = .succeeded ∨ n.state = .cached
  clean : ∀ n ∈ r.nodes, ∀ o, n.outputs = some o → isError o = false
  either : r.stats.isSome = !r.error.isSome
  verdict : r.error.isSome = true ↔ ∃ n ∈ r.nodes, n.state = .failed

section

variable {σ : Type} {e : Executor σ} {result : Except Stop RunStats}

/-- A node of a report is a controller, with what the cache has of it. -/
theorem Report.mem_nodes_ofRun {n : NodeReport} : n ∈ (Report.ofRun e result).nodes
    ↔ ∃ c ∈ e.controllers.items, n = ⟨c.id, c.state, e.outputs? c.id⟩ := by
  simp only [Report.ofRun, Executor.status, List.map_map, List.mem_map, Function.comp_apply]
  exact exists_congr fun c => and_congr_right fun _ => eq_comm

theorem Report.error_ofRun : (Report.ofRun e result).error.isSome = true ↔ ∃ stop, result = .error stop := by
  cases result <;> simp [Report.ofRun]

namespace Executor

variable {c : Controller}

/-- Between calls no node is on its way. -/
theorem Coherent.atRest (h : e.Coherent []) (hc : e.controllers.find? c.id = some c) :
    c.state = .waiting ∨ c.state = .cached ∨ c.state = .succeeded ∨ c.state = .failed := by
  have hready := h.notReady c.id c hc
  have hrunning := h.ne_running hc
  cases hstate : c.state with
  | waiting => exact Or.inl rfl
  | ready => exact absurd hstate hready
  | running => exact absurd hstate hrunning
  | cached => exact Or.inr (Or.inl rfl)
  | succeeded => exact Or.inr (Or.inr (Or.inl rfl))
  | failed => exact Or.inr (Or.inr (Or.inr rfl))

theorem Coherent.isSome_outputs? (h : e.Coherent []) (hc : e.controllers.find? c.id = some c) :
    (e.outputs? c.id).isSome = true ↔ c.state = .succeeded ∨ c.state = .cached := by
  have hstored := h.stored c.id
  rw [hc] at hstored
  rw [outputs?, Option.isSome_map, Option.isSome_iff_exists, hstored]
  simp only [Option.some.injEq, exists_eq_left', or_comm]

theorem Coherent.isError_outputs? (h : e.Coherent []) {id : NodeId} {o : Object}
    (ho : e.outputs? id = some o) : isError o = false := by
  obtain ⟨r, hr, rfl⟩ := Option.map_eq_some_iff.mp ho
  rw [isError, SortedMap.contains, NodeResult.get?_toObject, h.clean id r hr]
  rfl

end Executor

end

/-- The report of a run that starts without failed nodes is faithful. -/
theorem Report.faithful_ofRun {σ : Type} {s : Session σ} {logic : Logic σ} (hs : s.executor.Coherent [])
    (hl : s.executor.logic = some logic)
    (hfresh : ∀ c ∈ s.executor.controllers.items, c.state ≠ .failed) :
    (Report.ofRun (Session.run.finish s).1.executor (Session.run.finish s).2).Faithful
      (s.executor.controllers.items.map (·.id)) := by
  have hsteps := Session.run_steps (Session.moment_sound hs)
  have hcoh := (hsteps.sound (Session.moment_sound hs)).coherent
  have hverdict := Session.run_fails_iff hs hl hfresh
  have hkeys : (Session.run.finish s).1.executor.controllers.items.map (·.id)
      = s.executor.controllers.items.map (·.id) := Executor.keys_of_frame hsteps.frame
  generalize Session.run.finish s = ended at hcoh hverdict hkeys
  obtain ⟨⟨e, host, journal⟩, result⟩ := ended
  have hfind : ∀ c ∈ e.controllers.items, e.controllers.find? c.id = some c := fun c hc =>
    hcoh.wellFormed.indexed.find?_key hc
  refine ⟨?_, ?_, ?_, ?_, ?_, ?_⟩
  · rw [← hkeys]
    simp only [Report.ofRun, Executor.status, List.map_map]
    rfl
  · intro n hn
    obtain ⟨c, hc, rfl⟩ := mem_nodes_ofRun.mp hn
    exact hcoh.atRest (hfind c hc)
  · intro n hn
    obtain ⟨c, hc, rfl⟩ := mem_nodes_ofRun.mp hn
    exact hcoh.isSome_outputs? (hfind c hc)
  · intro n hn o ho
    obtain ⟨c, _, rfl⟩ := mem_nodes_ofRun.mp hn
    exact hcoh.isError_outputs? ho
  · cases result <;> rfl
  · rw [error_ofRun, hverdict]
    constructor
    · rintro ⟨c, hc, hstate⟩
      exact ⟨_, mem_nodes_ofRun.mpr ⟨c, hc, rfl⟩, hstate⟩
    · rintro ⟨n, hn, hstate⟩
      obtain ⟨c, hc, rfl⟩ := mem_nodes_ofRun.mp hn
      exact ⟨c, hc, hstate⟩

/-! ## From files -/

namespace CommandLine

open LogFilter (fault?)

variable {files : Files} {a : Arguments} {plan : Plan} {graph : Graph} {options : Options}

/-- A computation goes on after a part of it that can fail just if that part has a result. -/
theorem mapError_bind_eq_ok {ε ε' α β : Type} {r : Except ε α} {f : ε → ε'} {next : α → Except ε' β} {b : β} :
    (r.mapError f >>= next) = .ok b ↔ ∃ x, r = .ok x ∧ next x = .ok b := by
  cases r with
  | error err => exact ⟨nofun, fun ⟨_, hx, _⟩ => nomatch hx⟩
  | ok x =>
    constructor
    · intro h
      exact ⟨x, rfl, h⟩
    · rintro ⟨_, ⟨⟩, h⟩
      exact h

theorem check_bind_eq_ok {ε β : Type} {fault : Option ε} {next : Unit → Except ε β} {b : β} :
    (check fault >>= next) = .ok b ↔ fault = none ∧ next () = .ok b := by
  cases fault with
  | none => exact ⟨fun h => ⟨rfl, h⟩, fun h => h.2⟩
  | some f => exact ⟨nofun, fun ⟨hf, _⟩ => nomatch hf⟩

/-- **A run is prepared just if everything loads,** and then it is that of a fresh session with the options. -/
theorem prepareRun_eq_ok {t : Session Unit} : prepareRun files a = .ok t ↔ fault? a.logFilter = none
    ∧ ∃ plan, Plan.loadFile files a.plan = .ok plan
    ∧ ∃ graph, Graph.loadFile files a.graph = .ok graph
    ∧ ∃ options, a.options.elim (.ok {}) (Options.loadFile files) = .ok options
    ∧ ∃ s, Session.start plan graph (some Logic.echo) () = .ok s
      ∧ t = { s with executor := s.executor.withOptions options } := by
  unfold prepareRun
  rw [check_bind_eq_ok, Option.map_eq_none_iff]
  refine and_congr_right fun _ => ?_
  cases a.options with
  | none =>
    simp only [mapError_bind_eq_ok, pure_bind, Option.elim, Except.ok.injEq, exists_eq_left']
    simp only [pure, Except.pure, Except.ok.injEq, eq_comm (b := t)]
  | some path =>
    simp only [mapError_bind_eq_ok, Option.elim]
    simp only [pure, Except.pure, Except.ok.injEq, eq_comm (b := t)]

/-- **What is reported of a plan that is run from files.** If plan, graph and options load, they are run from a
fresh session. The report tells of all nodes that the plan refers to and the graph has, of each once and in the
order in which the plan refers to them. If it can be written it is what is printed, and the program fails just if
the report has an error. -/
theorem runPlan_reports (elapsed : Option Binary64) (hfilter : fault? a.logFilter = none)
    (hplan : Plan.loadFile files a.plan = .ok plan) (hgraph : Graph.loadFile files a.graph = .ok graph)
    (hoptions : a.options.elim (.ok {}) (Options.loadFile files) = .ok options) :
    ∃ (s : Session Unit) (r : Report),
      Session.start plan graph (some Logic.echo) () = .ok s
      ∧ r = executeRun { s with executor := s.executor.withOptions options }
      ∧ r.Faithful (plan.ids.filter fun id => id ∈ graph.nodes.map (·.id))
      ∧ (r.nodes.map (·.id)).Nodup
      ∧ (Yaml.isWritable (r.toValue elapsed) = true → ∃ text, save? .yaml (r.toValue elapsed) = some text
        ∧ runPlan files a elapsed
          = if r.error.isSome then { exit := 1, output := text, errors := "Error: Execution plan failed\n" }
            else { exit := 0, output := text }) := by
  obtain ⟨e, he, hw, hitems, hcache, _, _, hlogic, _⟩ := Executor.new_eq_ok plan graph (some Logic.echo)
  have hwaiting := Executor.waiting_of_new hitems
  have hstart : Session.start plan graph (some Logic.echo) () = .ok { executor := e, host := () } :=
    Session.start_of_new he ()
  have hids := Executor.ids_of_new hitems
  have hnodup : (plan.ids.filter fun id => id ∈ graph.nodes.map (·.id)).Nodup :=
    (nodup_distinctFrom [] _).filter _
  have hfresh : ∀ c ∈ e.controllers.items, c.state ≠ .failed := by
    intro c hc
    rw [hwaiting c hc]
    exact fun h => NodeState.noConfusion h
  -- options have no part in what is tracked, so that the run is still one without failed nodes
  have hcoh : (e.withOptions options).Coherent [] :=
    (Executor.coherent_of_waiting hw hwaiting hcache).withOptions options
  have hfaithful : (executeRun { executor := e.withOptions options, host := () }).Faithful
      (plan.ids.filter fun id => id ∈ graph.nodes.map (·.id)) := by
    rw [← hids]
    exact Report.faithful_ofRun hcoh hlogic hfresh
  have hprepare : prepareRun files a = .ok { executor := e.withOptions options, host := () } :=
    prepareRun_eq_ok.mpr ⟨hfilter, plan, hplan, graph, hgraph, options, hoptions, _, hstart, rfl⟩
  refine ⟨_, _, hstart, rfl, hfaithful, ?_, ?_⟩
  · rw [hfaithful.listed]
    exact hnodup
  · intro hwritable
    have hsave : save? .yaml _ = some _ := if_pos hwritable
    refine ⟨_, hsave, ?_⟩
    rw [runPlan, hprepare]
    show Ending.ofReport elapsed _ = _
    rw [Ending.ofReport, hsave]
    rfl

/-- Something that could be read is known by what it shows. -/
theorem exists_of_toOption {ε α β : Type} {r : Except ε α} {f : α → β} {b : β}
    (h : r.toOption.map f = some b) : ∃ x, r = .ok x ∧ f x = b := by
  cases r with
  | error err => exact absurd h (by simp [Except.toOption])
  | ok x => exact ⟨x, rfl, Option.some.inj h⟩

/-- A plan of three nodes and a graph of two, of which the second one is configured to fail. -/
def sampleFiles : Files := fun path =>
  if path = "plan.yaml" then
    .ok "stages:\n- type: static\n  nodes:\n  - id: a\n  - id: b\n  - id: c"
  else
    .ok "nodes:\n- id: a\n  type: t\n- id: b\n  type: t\n  configuration:\n    $error: no"

def sampleArguments : Arguments := { plan := "plan.yaml", graph := "graph.yaml" }

/-- What is printed of the two nodes that the graph has. -/
def sampleOutput : String :=
  "error:\n  $error: \"Error in node 'b': no\"\nnodes:\n  - id: a\n    state: succeeded\n" ++
  "    outputs: \x7b\x7d\n  - id: b\n    state: failed"

/-- The first node succeeds and the second one fails, so that the program fails with a report of both. -/
theorem runPlan_reports_sample :
    ∃ t : Session Unit, prepareRun sampleFiles sampleArguments = .ok t
      ∧ (executeRun t).Faithful [⟨"a"⟩, ⟨"b"⟩]
      ∧ Yaml.isWritable ((executeRun t).toValue none) = true
      ∧ runPlan sampleFiles sampleArguments none
        = { exit := 1, output := sampleOutput, errors := "Error: Execution plan failed\n" } := by
  -- the files are read and run only once; that they load is known from there
  obtain ⟨t, ht, hshown⟩ : ∃ t, prepareRun sampleFiles sampleArguments = .ok t
      ∧ ((executeRun t).nodes.map (·.id), Yaml.isWritable ((executeRun t).toValue none),
          save? .yaml ((executeRun t).toValue none), (executeRun t).error.isSome)
        = ([⟨"a"⟩, ⟨"b"⟩], true, some sampleOutput, true) :=
    exists_of_toOption (by decide +kernel)
  simp only [Prod.mk.injEq] at hshown
  obtain ⟨hids, hwritable, hsave, herror⟩ := hshown
  obtain ⟨hfilter, plan, hplan, graph, hgraph, options, hoptions, s, hstart, rfl⟩ := prepareRun_eq_ok.mp ht
  obtain ⟨s', r, hstart', rfl, hfaithful, _, hprint⟩ := runPlan_reports none hfilter hplan hgraph hoptions
  obtain rfl := Except.ok.inj (hstart.symm.trans hstart')
  obtain ⟨text, htext, hrun⟩ := hprint hwritable
  obtain rfl := Option.some.inj (hsave.symm.trans htext)
  refine ⟨_, ht, ?_, hwritable, ?_⟩
  · rw [← hids, hfaithful.listed]
    exact hfaithful
  · rw [hrun, if_pos herror]

end CommandLine

end StageFlow
