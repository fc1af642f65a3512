import StageFlow.Proofs.Calls

/-!
# The life of a node

Which changes of state nodes go through. The operations on controllers would allow many more: whatever its
state, a node could be assessed anew or be said to have ended. That the documented life is kept to is due to
the order in which an executor takes these steps, across duplicates in a stage, retries and clearing.

The history of an executor has each step that any of its nodes has taken, so that the steps of one node lead
from its first state to its present one. What is said of the steps is therefore said of all changes of state.

## Contents
- **Changes of state.** `Call.Moves`, and `Transition.Lawful`, what holds of each step.
- **Lives.** `Life`, steps that lead from one state to another, and `Executor.Lives`, those of all nodes.
- **Steps.** Preparing a node, settling one, and what a run makes of these.
- **Calls.** `lifecycle_protocol`.
-/

namespace StageFlow

/-! ## Changes of state -/

/-- The changes of a node's state that there are in a call. -/
inductive Call.Moves (call : Call) (id : NodeId) : NodeState → NodeState → Prop
  | ready : Moves call id .waiting .ready
  | retry : Moves call id .failed .ready
  | start : Moves call id .ready .running
  | succeed : Moves call id .running .succeeded
  | fail : Moves call id .running .failed
  | find : Moves call id .succeeded .cached
  | clear (state : NodeState) (h : call = .clear ∨ call = .clearNode id) :
      Moves call id state .waiting

namespace Transition

/-- A step as it may be taken in a call. It need not change the state, but where it may be taken depends on
it. -/
structure Lawful (call : Call) (x : Transition) : Prop where
  moves : x.before ≠ x.after → call.Moves x.id x.before x.after
  assess : x.step = .assess → x.before ≠ .ready ∧ x.before ≠ .running
  start : x.step = .start → x.before = .ready
  settle : x.step = .settle → x.before = .running

variable {call : Call} {id : NodeId} {before after : NodeState}

theorem Lawful.of_assess (hready : before ≠ .ready) (hrun : before ≠ .running)
    (hmoves : before ≠ after → call.Moves id before after) :
    Lawful call ⟨id, .assess, before, after⟩ where
  moves := hmoves
  assess _ := ⟨hready, hrun⟩
  start h := Step.noConfusion h
  settle h := Step.noConfusion h

theorem Lawful.of_start : Lawful call ⟨id, .start, .ready, .running⟩ where
  moves _ := .start
  assess h := Step.noConfusion h
  start _ := rfl
  settle h := Step.noConfusion h

theorem Lawful.of_settle (outcome : Except ExecutorError Object) :
    Lawful call ⟨id, .settle, .running, .afterOutcome outcome⟩ where
  moves _ := by
    cases outcome with
    | ok values => exact .succeed
    | error err => exact .fail
  assess h := Step.noConfusion h
  start h := Step.noConfusion h
  settle _ := rfl

theorem Lawful.of_reset (h : call = .clear ∨ call = .clearNode id) :
    Lawful call ⟨id, .reset, before, .waiting⟩ where
  moves _ := .clear before h
  assess h := Step.noConfusion h
  start h := Step.noConfusion h
  settle h := Step.noConfusion h

end Transition

/-! ## Lives -/

/-- Steps that lead from one state to another: each begins in the state in which the one before has ended. -/
inductive Life : NodeState → List Transition → NodeState → Prop
  | nil (state : NodeState) : Life state [] state
  | cons (x : Transition) {steps : List Transition} {state : NodeState} (rest : Life x.after steps state) :
      Life x.before (x :: steps) state

theorem Life.single (x : Transition) : Life x.before [x] x.after := .cons x (.nil _)

theorem Life.append {a b c : NodeState} {steps steps' : List Transition} (h : Life a steps b)
    (h' : Life b steps' c) : Life a (steps ++ steps') c := by
  induction h with
  | nil _ => exact h'
  | cons x _ ih => exact .cons x (ih h')

namespace Executor

variable {σ : Type} {e e₁ e' : Executor σ} {id : NodeId} {c : Controller} {flight : List NodeId}
variable {steps steps' : List Transition}

/-- All steps of nodes between two executors: those of each node lead from its state in the first to its
state in the second. -/
structure Lives (e : Executor σ) (steps : List Transition) (e' : Executor σ) : Prop where
  history : e'.history = e.history ++ steps
  life : ∀ id c', e'.controllers.find? id = some c' →
    ∃ c, e.controllers.find? id = some c ∧ Life c.state (steps.filter fun x => x.id = id) c'.state

theorem Lives.refl (e : Executor σ) : e.Lives [] e where
  history := (List.append_nil _).symm
  life _ c' hc' := ⟨c', hc', .nil _⟩

theorem Lives.trans (h : e.Lives steps e₁) (h' : e₁.Lives steps' e') : e.Lives (steps ++ steps') e' where
  history := by rw [h'.history, h.history, List.append_assoc]
  life id c' hc' := by
    obtain ⟨c₁, hc₁, hlast⟩ := h'.life id c' hc'
    obtain ⟨c, hc, hfirst⟩ := h.life id c₁ hc₁
    rw [List.filter_append]
    exact ⟨c, hc, hfirst.append hlast⟩

/-- Steps of one node. -/
theorem Lives.of_node {state : NodeState} (hc : e.controllers.find? c.id = some c)
    (hhistory : e'.history = e.history ++ steps) (hid : ∀ x ∈ steps, x.id = c.id)
    (hlife : Life c.state steps state)
    (hfind : ∀ k, e'.controllers.find? k
      = if k = c.id then some { c with state } else e.controllers.find? k) :
    e.Lives steps e' where
  history := hhistory
  life k c' hc' := by
    rw [hfind] at hc'
    split at hc'
    · rename_i hk
      subst hk
      have hall : (steps.filter fun x => x.id = c.id) = steps := by
        apply List.filter_eq_self.mpr
        intro x hx
        exact decide_eq_true (hid x hx)
      rw [hall, ← Option.some.inj hc']
      exact ⟨c, hc, hlife⟩
    · -- the other nodes take no step
      rename_i hk
      have hnone : (steps.filter fun x => x.id = k) = [] := by
        apply List.filter_eq_nil_iff.mpr
        intro x hx hxk
        apply hk
        rw [← of_decide_eq_true hxk, hid x hx]
      rw [hnone]
      exact ⟨c', hc', .nil _⟩

/-! ## Steps -/

theorem life_preparation (e : Executor σ) (c : Controller) :
    Life c.state (e.preparation c) (e.preparedState c) := by
  unfold preparation preparedState
  by_cases hrun : c.state = .running
  · rw [if_pos hrun, if_pos hrun, hrun]
    exact .nil _
  rw [if_neg hrun, if_neg hrun]
  by_cases hhas : e.cache.has c.id = true
  · rw [if_pos hhas, if_pos hhas]
    exact Life.single ⟨c.id, .assess, c.state, .cached⟩
  rw [if_neg hhas, if_neg hhas]
  by_cases havail : c.inputsAvailable e.cache = true
  · rw [if_pos havail, if_pos havail]
    exact .cons ⟨c.id, .assess, c.state, .ready⟩ (Life.single ⟨c.id, .start, .ready, .running⟩)
  · rw [if_neg havail, if_neg havail]
    exact Life.single ⟨c.id, .assess, c.state, c.state⟩

theorem id_of_mem_preparation {x : Transition} (h : x ∈ e.preparation c) : x.id = c.id := by
  unfold preparation at h
  split_ifs at h
  · exact absurd h List.not_mem_nil
  · rw [List.mem_singleton.mp h]
  · rcases List.mem_pair.mp h with rfl | rfl
    · rfl
    · rfl
  · rw [List.mem_singleton.mp h]

/-- **The steps of a preparation are lawful.** A node that is found to have a result has come to it or has
been found to have it before, and one that is made ready has been waiting or has failed. -/
theorem Coherent.lawful_preparation (h : e.Coherent flight) (hc : e.controllers.find? id = some c)
    (call : Call) : ∀ x ∈ e.preparation c, x.Lawful call := by
  obtain rfl : c.id = id := id_of_find? hc
  have hready := h.notReady c.id c hc
  intro x hx
  unfold preparation at hx
  split_ifs at hx with hrun hhas havail
  · exact absurd hx List.not_mem_nil
  · rw [List.mem_singleton.mp hx]
    apply Transition.Lawful.of_assess hready hrun
    obtain ⟨d, hd, hstate⟩ := (h.stored c.id).mp (Cache.has_iff.mp hhas)
    obtain rfl := Option.some.inj (hc.symm.trans hd)
    rcases hstate with hstate | hstate
    · intro hne
      exact absurd hstate hne
    · intro _
      rw [hstate]
      exact .find
  · rcases List.mem_pair.mp hx with rfl | rfl
    · apply Transition.Lawful.of_assess hready hrun
      have hnone := Cache.has_eq_false_iff.mp (Bool.not_eq_true _ ▸ hhas)
      intro _
      rcases h.idle hc hrun hnone with hstate | hstate
      · rw [hstate]
        exact .ready
      · rw [hstate]
        exact .retry
    · exact .of_start
  · rw [List.mem_singleton.mp hx]
    apply Transition.Lawful.of_assess hready hrun
    intro hne
    exact absurd rfl hne

theorem PreparedTo.lives (hp : e.PreparedTo c e') (hc : e.controllers.find? c.id = some c) :
    e.Lives (e.preparation c) e' :=
  .of_node hc hp.history (fun _ hx => id_of_mem_preparation hx) (e.life_preparation c) hp.find?

theorem SettledTo.lives {outcome : Except ExecutorError Object} (hs : e.SettledTo c outcome e')
    (hc : e.controllers.find? c.id = some c) :
    e.Lives [⟨c.id, .settle, c.state, .afterOutcome outcome⟩] e' := by
  have hlife := Life.single ⟨c.id, .settle, c.state, .afterOutcome outcome⟩
  refine .of_node hc hs.history ?_ hlife hs.find?
  intro x hx
  rw [List.mem_singleton.mp hx]

theorem ClearedTo.lives (h : e.ClearedTo id e') :
    e.Lives ((e.controllers.find? id).toList.map fun c => ⟨id, .reset, c.state, .waiting⟩) e' where
  history := h.history
  life k c' hc' := by
    rw [h.find?, Option.map_eq_some_iff] at hc'
    obtain ⟨c, hc, rfl⟩ := hc'
    refine ⟨c, hc, ?_⟩
    by_cases hk : k = id
    · subst hk
      rw [hc, Option.toList_some, List.map_singleton, if_pos rfl, List.filter_cons_of_pos (by simp)]
      exact Life.single ⟨k, .reset, c.state, .waiting⟩
    · have hnone : (((e.controllers.find? id).toList.map fun c =>
          (⟨id, .reset, c.state, .waiting⟩ : Transition)).filter fun x => x.id = k) = [] := by
        apply List.filter_eq_nil_iff.mpr
        intro x hx hxk
        obtain ⟨d, _, rfl⟩ := List.mem_map.mp hx
        exact hk (of_decide_eq_true hxk).symm
      rw [hnone, if_neg hk]
      exact .nil _

theorem WellFormed.lives_clear (hw : e.WellFormed) :
    e.Lives (e.controllers.items.map fun c => ⟨c.id, .reset, c.state, .waiting⟩) e.clear where
  history := rfl
  life k c' hc' := by
    rw [find?_clear, Option.map_eq_some_iff] at hc'
    obtain ⟨c, hc, rfl⟩ := hc'
    refine ⟨c, hc, ?_⟩
    -- of each node there is one controller, which takes one step
    have hone : (e.controllers.items.filter fun d => d.id = k) = [c] := hw.indexed.filter_key hc
    rw [List.filter_map]
    show Life c.state ((e.controllers.items.filter fun d => d.id = k).map _) .waiting
    rw [hone]
    exact Life.single ⟨c.id, .reset, c.state, .waiting⟩

end Executor

namespace Session

variable {σ : Type} {s : Session σ} {m m' : Moment σ}

/-- **Each step of a run is lawful:** what is settled has been in flight. -/
theorem Step.lives (h : Step m m') (hm : m.Sound) (call : Call) :
    ∃ steps, m.session.executor.Lives steps m'.session.executor ∧ ∀ x ∈ steps, x.Lawful call := by
  cases h with
  | @prepare flight s id c e' hc hp =>
    obtain rfl : c.id = id := Executor.id_of_find? hc
    exact ⟨_, hp.lives hc, hm.coherent.lawful_preparation hc call⟩
  | act host => exact ⟨[], .refl _, fun _ hx => absurd hx List.not_mem_nil⟩
  | @settle flight s x c e' hc hs =>
    obtain ⟨d, hd, hrun⟩ := hm.running (x := x.1) List.mem_cons_self
    obtain rfl := Option.some.inj (hc.symm.trans hd)
    have hid : c.id = x.1.id := Executor.id_of_find? hc
    refine ⟨_, hs.lives (hid ▸ hc), ?_⟩
    intro y hy
    rw [List.mem_singleton.mp hy, hrun]
    exact .of_settle x.outcome

theorem Steps.lives (h : Steps m m') (hm : m.Sound) (call : Call) :
    ∃ steps, m.session.executor.Lives steps m'.session.executor ∧ ∀ x ∈ steps, x.Lawful call := by
  induction h with
  | refl => exact ⟨[], .refl _, fun _ hx => absurd hx List.not_mem_nil⟩
  | tail hs hlast ih =>
    obtain ⟨steps, hlives, hlawful⟩ := ih
    obtain ⟨steps', hlives', hlawful'⟩ := hlast.lives (Steps.sound hs hm) call
    refine ⟨steps ++ steps', hlives.trans hlives', ?_⟩
    intro x hx
    rcases List.mem_append.mp hx with hx | hx
    · exact hlawful x hx
    · exact hlawful' x hx

/-! ## Calls -/

/-- **Each step of a call is lawful.** -/
theorem perform_lives (hs : s.executor.Coherent []) (call : Call) :
    ∃ steps, s.executor.Lives steps (s.perform call).1.executor ∧ ∀ x ∈ steps, x.Lawful call := by
  cases call with
  | run => exact (perform_run_steps hs).lives (moment_sound hs) .run
  | runNode id => exact (perform_runNode_steps hs id).lives (moment_sound hs) (.runNode id)
  | clear =>
    refine ⟨_, hs.wellFormed.lives_clear, ?_⟩
    intro x hx
    obtain ⟨c, _, rfl⟩ := List.mem_map.mp hx
    exact .of_reset (Or.inl rfl)
  | clearNode id =>
    obtain ⟨e', he, hcleared⟩ := hs.clearNode_eq id
    rw [perform_clearNode he]
    refine ⟨_, hcleared.lives, ?_⟩
    intro x hx
    obtain ⟨c, _, rfl⟩ := List.mem_map.mp hx
    exact .of_reset (Or.inr rfl)
  | withOptions options =>
    have hlives := Executor.Lives.refl s.executor
    exact ⟨[], ⟨hlives.history, hlives.life⟩, fun _ hx => absurd hx List.not_mem_nil⟩

theorem performAll_lives (hs : s.executor.Coherent []) (calls : List Call) :
    ∃ steps, s.executor.Lives steps (s.performAll calls).1.executor := by
  induction calls generalizing s with
  | nil => exact ⟨[], .refl _⟩
  | cons call calls ih =>
    obtain ⟨steps, hfirst, _⟩ := perform_lives hs call
    obtain ⟨steps', hrest⟩ := ih (perform_coherent hs call)
    exact ⟨steps ++ steps', hfirst.trans hrest⟩

/-- **Nodes keep to the documented life,** whatever is called and however it ends. After any calls the
recorded steps of each node lead from waiting to the state that it is in, so that each change of state is among
them; and whatever call is made then, each step that it adds either leaves the state as it is or makes one of the
changes of `Call.Moves`. A node is assessed only if it is neither ready nor running, and settled only if it is
running. -/
theorem lifecycle_protocol (plan : Plan) (graph : Graph) (logic : Option (Logic σ)) (host : σ) :
    ∃ s, Session.start plan graph logic host = .ok s ∧ ∀ calls : List Call,
      let t := (s.performAll calls).1
      (∀ c ∈ t.executor.controllers.items,
        Life .waiting (t.executor.history.filter fun x => x.id = c.id) c.state)
      ∧ ∀ call, ∃ steps, (t.perform call).1.executor.history = t.executor.history ++ steps
        ∧ ∀ x ∈ steps, x.Lawful call := by
  obtain ⟨e, he, hw, hitems, _, _, _, _, hhistory⟩ := Executor.new_eq_ok plan graph logic
  have hwaiting := Executor.waiting_of_new hitems
  refine ⟨{ executor := e, host }, start_of_new he host, ?_⟩
  intro calls t
  have hs : Reachable { executor := e, host } := .start (start_of_new he host)
  have ht : t.executor.Coherent [] := (hs.performAll calls).coherent
  constructor
  · intro c hc
    obtain ⟨steps, hlives⟩ := performAll_lives hs.coherent calls
    obtain ⟨d, hd, hlife⟩ := hlives.life c.id c (ht.wellFormed.indexed.find?_key hc)
    have hsteps : t.executor.history = steps := by
      rw [hlives.history]
      exact congrArg (· ++ steps) hhistory
    rw [hsteps, ← hwaiting d (KeyedVec.mem_of_find? hd)]
    exact hlife
  · intro call
    obtain ⟨steps, hlives, hlawful⟩ := perform_lives ht call
    exact ⟨steps, hlives.history, hlawful⟩

/-- A producer is invoked in a first run, found in a second one and cleared. -/
example :
    ∃ s : Session Unit, Session.start Sample.plan Sample.graph (some .echo) () = .ok s
      ∧ ((s.performAll [.run, .run, .clear]).1.executor.history.filter fun x => x.id = ⟨"a"⟩).map
          (fun x => (x.step, x.before, x.after))
        = [(.assess, .waiting, .ready), (.start, .ready, .running), (.settle, .running, .succeeded),
          (.assess, .succeeded, .cached), (.reset, .cached, .waiting)] :=
  ⟨_, (by rw [start, Executor.new, Plan.records_eq]; rfl), rfl⟩

end Session

end StageFlow
