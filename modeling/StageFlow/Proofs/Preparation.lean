import StageFlow.Proofs.Course
import StageFlow.Proofs.Traversal

/-!
# Preparing a stage

The first loop of a concurrent stage: every node is prepared before any of them is invoked. Which ones are
launched is decided by the executor as the stage finds it, since nothing is stored in between.

## Contents
- **What is due.** It depends on the node's own result and on those of its producers.
- **Preparation.** `Prepares`, the state in which preparing nodes leaves a session.
- **Counts.** `Counts`, what a stage adds to the counts of a run.
- **The loop.** `prepareStage_eq`.
-/

namespace StageFlow

open Executor (Invocation Prepared NodeRun judge)

/-- The counts of a run after one more node has been prepared. A launch is not counted yet. -/
def RunStats.tally (stats : RunStats) : Prepared → RunStats
  | .cached _ => { stats with cached := stats.cached + 1 }
  | .waiting => { stats with waiting := stats.waiting + 1 }
  | .ready _ => stats

@[simp] theorem RunStats.invoked_tally (stats : RunStats) (p : Prepared) :
    (stats.tally p).invoked = stats.invoked := by
  cases p <;> rfl

namespace Executor

variable {σ : Type} {e e' : Executor σ} {c : Controller}

/-- Whether a node is due, and with which inputs, depends on its own result and on those of its producers
alone. -/
theorem due?_congr (hf : e'.frame = e.frame) {id : NodeId}
    (hown : e'.cache.get? id = e.cache.get? id)
    (hsrc : ∀ c, e.controllers.find? id = some c → ∀ b ∈ c.bindings,
      e'.cache.get? b.source = e.cache.get? b.source) :
    e'.due? id = e.due? id := by
  have hb := bindings_of_frame hf id
  have hhas : e'.cache.has id = e.cache.has id := by rw [Cache.has, Cache.has, hown]
  unfold due?
  rw [graph_of_frame hf, hhas]
  cases hd : e.controllers.find? id with
  | none =>
    rw [hd, Option.map_none, Option.map_eq_none_iff] at hb
    rw [hb]
  | some d =>
    rw [hd, Option.map_some, Option.map_eq_some_iff] at hb
    obtain ⟨d', hd', hb⟩ := hb
    have hout : ∀ b ∈ d.bindings,
        e'.cache.output? b.source b.output = e.cache.output? b.source b.output := by
      intro b hmem
      unfold Cache.output?
      rw [hsrc d hd b hmem]
    have havail : d'.inputsAvailable e'.cache = d.inputsAvailable e.cache := by
      rw [Bool.eq_iff_iff, Controller.inputsAvailable_iff, Controller.inputsAvailable_iff, hb]
      apply forall₂_congr
      intro b hmem
      rw [hout b hmem]
    have hgather : gatherInputs e'.cache d'.bindings = gatherInputs e.cache d.bindings := by
      unfold gatherInputs
      rw [hb]
      apply List.foldl_ext
      intro inputs b hmem
      rw [hout b hmem]
    rw [hd']
    cases e.graph.find? id with
    | none => rfl
    | some node =>
      simp only
      rw [havail, hgather]

/-- What is due depends on the frame and on the cache alone. -/
theorem due?_of_frame (hf : e'.frame = e.frame) (hc : e'.cache = e.cache) (id : NodeId) :
    e'.due? id = e.due? id :=
  due?_congr hf (by rw [hc]) fun _ _ _ _ => by rw [hc]

theorem due?_eq_none_of_find? {id : NodeId} (h : e.controllers.find? id = none) :
    e.due? id = none := by
  unfold due?
  rw [h]

/-- To prepare a node twice is to prepare it once. -/
theorem preparedState_idem (h : e'.cache = e.cache) (c : Controller) :
    e'.preparedState { c with state := e.preparedState c } = e.preparedState c := by
  have havail : ({ c with state := e.preparedState c } : Controller).inputsAvailable e'.cache
      = c.inputsAvailable e.cache := by
    rw [h]
    rfl
  rw [preparedState, havail, h]
  show (if e.preparedState c = .running then _ else if e.cache.has c.id then _ else _) = _
  unfold preparedState
  split_ifs <;> simp_all

theorem preparedState_of_cache (h : e'.cache = e.cache) (c : Controller) :
    e'.preparedState c = e.preparedState c := by
  unfold preparedState
  rw [h]

end Executor

namespace Session

variable {σ : Type} {s s' : Session σ} {flight : List Invocation} {ids : List NodeId}

/-! ## Preparation -/

/-- The state in which preparing nodes leaves a session: of each identifier that is not in flight what is
due has been launched, and nothing is stored. -/
structure Prepares (s : Session σ) (flight : List Invocation) (ids : List NodeId)
    (pending : List Invocation) (s' : Session σ) : Prop where
  due : pending = (distinctFrom (flight.map Invocation.id) ids).filterMap s.executor.due?
  steps : Steps ⟨flight, s⟩ ⟨flight ++ pending, s'⟩
  cache : s'.executor.cache = s.executor.cache
  journal : s'.journal = s.journal ++ pending.map Invocation.event
  find? : ∀ k, s'.executor.controllers.find? k = (s.executor.controllers.find? k).map fun c =>
    if k ∈ ids then { c with state := s.executor.preparedState c } else c

theorem Prepares.nil (flight : List Invocation) (s : Session σ) : Prepares s flight [] [] s where
  due := rfl
  steps := by rw [List.append_nil]
  cache := rfl
  journal := (List.append_nil _).symm
  find? k := by simp

/-- An identifier without a controller is passed over. -/
theorem Prepares.skip {id : NodeId} {pending : List Invocation}
    (hid : s.executor.controllers.find? id = none) (h : Prepares s flight ids pending s') :
    Prepares s flight (id :: ids) pending s' where
  due := by
    rw [h.due, filterMap_distinctFrom_cons_none (Executor.due?_eq_none_of_find? hid)]
  steps := h.steps
  cache := h.cache
  journal := h.journal
  find? k := by
    rw [h.find? k]
    by_cases hk : k = id
    · rw [hk, hid]
      rfl
    · simp only [List.mem_cons, hk, false_or]

/-- One node more, prepared before the others. -/
theorem Prepares.cons {id : NodeId} {c : Controller} {e₁ : Executor σ} {rest : List Invocation}
    (hs : Moment.Sound ⟨flight, s⟩) (hc : s.executor.controllers.find? id = some c)
    (hp : s.executor.PreparedTo c e₁)
    (h : Prepares
      ⟨e₁, s.host, s.journal ++ (s.executor.verdict c).launched.map Invocation.event⟩
      (flight ++ (s.executor.verdict c).launched) ids rest s') :
    Prepares s flight (id :: ids) ((s.executor.verdict c).launched ++ rest) s' where
  due := by
    have hid : c.id = id := Executor.id_of_find? hc
    subst hid
    have hdue : ∀ k, e₁.due? k = s.executor.due? k := Executor.due?_of_frame hp.frame hp.cache
    rw [h.due, funext hdue]
    cases hs.coherent.assess hc with
    | inFlight hrun _ hv _ =>
      -- a node in flight counts as seen
      have hfly : c.id ∈ flight.map Invocation.id := (hs.coherent.flying c.id).mpr ⟨c, hc, hrun⟩
      rw [hv, distinctFrom_cons_of_mem hfly]
      simp [Prepared.launched]
    | done r _ hr hv _ =>
      -- nothing of a node with a result is due
      have hnone := Executor.due?_eq_none_of_get? hr
      rw [hv, filterMap_distinctFrom_cons_none hnone]
      simp [Prepared.launched]
    | due i hrun hi hv _ =>
      have hfly : c.id ∉ flight.map Invocation.id := by
        intro hm
        obtain ⟨d, hd, hrun'⟩ := (hs.coherent.flying c.id).mp hm
        exact hrun (Option.some.inj (hc.symm.trans hd) ▸ hrun')
      -- launched or seen, the node is passed over from now on
      have hswap : distinctFrom ((flight ++ [i]).map Invocation.id) ids
          = distinctFrom (c.id :: flight.map Invocation.id) ids := by
        apply distinctFrom_congr
        intro k _
        simp [Executor.id_of_due? hi, or_comm]
      rw [hv, distinctFrom_cons_of_not_mem hfly, List.filterMap_cons_some hi]
      show [i] ++ _ = _
      rw [← hswap]
      rfl
    | idle _ _ hd hv _ =>
      rw [hv, filterMap_distinctFrom_cons_none hd]
      simp [Prepared.launched]
  steps := by
    rw [← List.append_assoc]
    exact Relation.ReflTransGen.head (Step.prepare hc hp) h.steps
  cache := h.cache.trans hp.cache
  journal := by rw [h.journal, List.map_append, List.append_assoc]
  find? k := by
    have hid : c.id = id := Executor.id_of_find? hc
    subst hid
    rw [h.find? k]
    show ((e₁.controllers.find? k).map fun d =>
      if k ∈ ids then { d with state := e₁.preparedState d } else d) = _
    rw [hp.find? k]
    by_cases hk : k = c.id
    · rw [if_pos hk, hk, hc, Option.map_some, Option.map_some, if_pos List.mem_cons_self,
        Executor.preparedState_idem hp.cache]
      split <;> rfl
    · rw [if_neg hk]
      simp only [List.mem_cons, hk, false_or, Executor.preparedState_of_cache hp.cache]

/-! ## Counts -/

attribute [ext] RunStats

/-- What a stage adds to the counts of a run, entry by entry, if so many of its nodes are invoked. Entries
without a controller do not count. -/
structure Counts (e : Executor σ) (ids : List NodeId) (launched : Nat) (stats stats' : RunStats) :
    Prop where
  invoked : stats'.invoked = stats.invoked + launched
  cached : stats'.cached = stats.cached + ids.countP fun id => e.tracks id && e.cache.has id
  waiting : stats'.waiting + launched
    = stats.waiting + ids.countP fun id => e.tracks id && !e.cache.has id

namespace Counts

variable {e e' : Executor σ} {id : NodeId} {launched : Nat} {stats stats' : RunStats}

theorem nil (e : Executor σ) (stats : RunStats) : Counts e [] 0 stats stats := ⟨rfl, rfl, rfl⟩

/-- Only which nodes are there and have results matters. -/
theorem congr (h : Counts e' ids launched stats stats')
    (hd : ∀ k ∈ ids, e'.tracks k = e.tracks k
      ∧ (e.tracks k = true → e'.cache.has k = e.cache.has k)) :
    Counts e ids launched stats stats' := by
  have hcached : ∀ k ∈ ids, (e'.tracks k && e'.cache.has k) = (e.tracks k && e.cache.has k) := by
    intro k hk
    obtain ⟨ht, hh⟩ := hd k hk
    rw [ht]
    cases hb : e.tracks k with
    | false => rfl
    | true => rw [hh hb]
  have hwaiting : ∀ k ∈ ids,
      (e'.tracks k && !e'.cache.has k) = (e.tracks k && !e.cache.has k) := by
    intro k hk
    obtain ⟨ht, hh⟩ := hd k hk
    rw [ht]
    cases hb : e.tracks k with
    | false => rfl
    | true => rw [hh hb]
  refine ⟨h.invoked, ?_, ?_⟩
  · rw [h.cached, List.countP_congr fun k hk => by rw [hcached k hk]]
  · rw [h.waiting, List.countP_congr fun k hk => by rw [hwaiting k hk]]

theorem skip (ht : e.tracks id = false) (h : Counts e ids launched stats stats') :
    Counts e (id :: ids) launched stats stats' := by
  refine ⟨h.invoked, ?_, ?_⟩
  · rw [h.cached, List.countP_cons, ht]
    rfl
  · rw [h.waiting, List.countP_cons, ht]
    rfl

theorem hit (ht : e.tracks id = true) (hhas : e.cache.has id = true)
    (h : Counts e ids launched { stats with cached := stats.cached + 1 } stats') :
    Counts e (id :: ids) launched stats stats' := by
  refine ⟨h.invoked, ?_, ?_⟩
  · rw [h.cached, List.countP_cons, ht, hhas]
    simp only [Bool.and_self, if_true]
    omega
  · rw [h.waiting, List.countP_cons, ht, hhas]
    rfl

theorem wait (ht : e.tracks id = true) (hhas : e.cache.has id = false)
    (h : Counts e ids launched { stats with waiting := stats.waiting + 1 } stats') :
    Counts e (id :: ids) launched stats stats' := by
  refine ⟨h.invoked, ?_, ?_⟩
  · rw [h.cached, List.countP_cons, ht, hhas]
    rfl
  · rw [h.waiting, List.countP_cons, ht, hhas]
    simp only [Bool.not_false, Bool.and_self, if_true]
    omega

/-- A launch that is counted at once. -/
theorem launch (ht : e.tracks id = true) (hhas : e.cache.has id = false)
    (h : Counts e ids launched { stats with invoked := stats.invoked + 1 } stats') :
    Counts e (id :: ids) (launched + 1) stats stats' := by
  refine ⟨?_, ?_, ?_⟩
  · have hi : stats'.invoked = stats.invoked + 1 + launched := h.invoked
    omega
  · rw [h.cached, List.countP_cons, ht, hhas]
    rfl
  · have hw : stats'.waiting + launched
        = stats.waiting + ids.countP fun id => e.tracks id && !e.cache.has id := h.waiting
    rw [List.countP_cons, ht, hhas]
    simp only [Bool.not_false, Bool.and_self, if_true]
    omega

/-- A launch may as well be counted when the stage has settled. -/
theorem shift (n : Nat) (h : Counts e ids launched stats stats') :
    Counts e ids launched { stats with invoked := stats.invoked + n }
      { stats' with invoked := stats'.invoked + n } := by
  refine ⟨?_, h.cached, h.waiting⟩
  show stats'.invoked + n = stats.invoked + n + launched
  rw [h.invoked]
  omega

/-- The four ways in which a node can be found, as they are counted. A launch is added to the nodes
invoked when the stage has settled. -/
theorem assess {c : Controller} (hc : e.Assessment c) (ht : e.tracks c.id = true)
    (h : Counts e ids launched (stats.tally (e.verdict c)) stats') :
    Counts e (c.id :: ids) (launched + (e.verdict c).launched.length) stats
      { stats' with invoked := stats'.invoked + (e.verdict c).launched.length } := by
  cases hc with
  | inFlight _ hnone hv _ =>
    rw [hv] at h ⊢
    exact h.wait ht (Cache.has_eq_false_iff.mpr hnone)
  | done r _ hr hv _ =>
    rw [hv] at h ⊢
    exact h.hit ht (Cache.has_iff.mpr ⟨r, hr⟩)
  | due i _ hi hv _ =>
    obtain ⟨_, _, _, _, hnone, _⟩ := Executor.due?_eq_some.mp hi
    rw [hv] at h ⊢
    exact (h.shift 1).launch ht (Cache.has_eq_false_iff.mpr hnone)
  | idle _ hnone _ hv _ =>
    rw [hv] at h ⊢
    exact h.wait ht (Cache.has_eq_false_iff.mpr hnone)

/-- What a stage adds is determined. -/
theorem unique {stats₁ stats₂ : RunStats} (h₁ : Counts e ids launched stats stats₁)
    (h₂ : Counts e ids launched stats stats₂) : stats₁ = stats₂ := by
  have hinvoked := h₁.invoked.trans h₂.invoked.symm
  have hcached := h₁.cached.trans h₂.cached.symm
  have hwaiting := Nat.add_right_cancel (h₁.waiting.trans h₂.waiting.symm)
  exact RunStats.ext hinvoked hcached hwaiting

end Counts

/-! ## The loop -/

theorem prepareStage_cons (r : NodeRecord) (rs : List NodeRecord) (stats : RunStats)
    {s s₁ s' : Session σ} {p : Prepared} {answer : Except Stop (RunStats × List Invocation)}
    (ht : s.executor.tracks r.id = true) (hp : s.prepare r.id = (s₁, .ok p))
    (h : prepareStage rs (stats.tally p) s₁ = (s', answer)) :
    prepareStage (r :: rs) stats s = (s', answer.map fun x => (x.1, p.launched ++ x.2)) := by
  rw [prepareStage, ht, hp]
  cases p with
  | cached values =>
    show prepareStage rs (stats.tally (.cached values)) s₁ = _
    rw [h]
    cases answer <;> rfl
  | waiting =>
    show prepareStage rs (stats.tally .waiting) s₁ = _
    rw [h]
    cases answer <;> rfl
  | ready i =>
    have hrest : prepareStage rs stats s₁ = (s', answer) := h
    simp only [Bool.not_true, Bool.false_eq_true, if_false, hrest]
    rfl

/-- **Preparing the nodes of a stage** never breaks off, and launches what is due as the loop finds it. -/
theorem prepareStage_eq (rs : List NodeRecord) (stats : RunStats)
    (hs : Moment.Sound ⟨flight, s⟩) :
    ∃ s' stats' pending, prepareStage rs stats s = (s', .ok (stats', pending))
      ∧ Prepares s flight (rs.map (·.id)) pending s'
      ∧ stats'.invoked = stats.invoked
      ∧ Counts s.executor (rs.map (·.id)) pending.length stats
          { stats' with invoked := stats.invoked + pending.length } := by
  induction rs generalizing flight s stats with
  | nil => exact ⟨s, stats, [], rfl, .nil flight s, rfl, .nil s.executor stats⟩
  | cons r rs ih =>
    have hw := hs.coherent.wellFormed
    cases ht : s.executor.tracks r.id with
    | false =>
      obtain ⟨s', stats', pending, heq, hp, hi, hn⟩ := ih stats hs
      refine ⟨s', stats', pending, ?_, hp.skip (hw.tracks_eq_false_iff.mp ht), hi, hn.skip ht⟩
      rw [prepareStage, ht]
      exact heq
    | true =>
      obtain ⟨c, hc⟩ := hw.tracks_iff.mp ht
      obtain ⟨e₁, hp, hprep⟩ := prepare_eq hs.coherent hc
      have hid : c.id = r.id := Executor.id_of_find? hc
      obtain ⟨s', stats', pending, heq, hrest, hi, hn⟩ :=
        ih (stats.tally (s.executor.verdict c)) ((Step.prepare hc hp).sound hs)
      refine ⟨s', stats', _, prepareStage_cons r rs stats ht hprep heq, .cons hs hc hp hrest, ?_, ?_⟩
      · rw [hi, RunStats.invoked_tally]
      · -- the counts of the other nodes are the same before and after this one
        have hrest' := hn.congr (e := s.executor) fun k _ =>
          ⟨Executor.tracks_of_frame hp.frame k, fun _ => by rw [hp.cache]⟩
        have hcons := hrest'.assess (hs.coherent.assess hc) (hid ▸ ht)
        rw [hid, RunStats.invoked_tally] at hcons
        rw [List.map_cons, List.length_append, Nat.add_comm, ← Nat.add_assoc]
        exact hcons

end Session

end StageFlow
