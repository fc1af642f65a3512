import StageFlow.Proofs.Stage

/-!
# Sequential stages

One node after the other, each of them prepared with the results of those before it. If no node of a stage
concerns another one, that makes no difference, and a sequential stage serves its nodes as a concurrent
one does, up to its first failure.

## Contents
- **One node.** What its answer says of the batch and of the counts.
- **Steps.** A sequential stage as steps, whatever its nodes have to do with each other.
- **Independence.** `Independent`, and `runSequential_eq`.
-/

namespace StageFlow

open Executor (Invocation NodeRun judge)

/-- The counts of a run after one more node. -/
def RunStats.count (stats : RunStats) : NodeRun → RunStats
  | .cached _ => { stats with cached := stats.cached + 1 }
  | .invoked _ => { stats with invoked := stats.invoked + 1 }
  | .waiting => { stats with waiting := stats.waiting + 1 }

namespace Session

variable {σ : Type} {s s' : Session σ} {id : NodeId} {ids : List NodeId} {batch : List Ending}

/-! ## One node -/

/-- The batch of one node is what was due of it. -/
theorem Served.single (h : Served s [id] batch s') :
    batch = [] ∧ s.executor.due? id = none ∨ ∃ x, batch = [x] ∧ s.executor.due? id = some x.1 := by
  have hdue := h.due
  rw [distinctFrom_cons_of_not_mem List.not_mem_nil, distinctFrom] at hdue
  cases hd : s.executor.due? id with
  | none =>
    rw [List.filterMap_cons_none hd] at hdue
    exact Or.inl ⟨List.map_eq_nil_iff.mp hdue, rfl⟩
  | some i =>
    rw [List.filterMap_cons_some hd] at hdue
    obtain ⟨x, rest, rfl, rfl, hrest⟩ := List.map_eq_cons_iff.mp hdue
    rw [List.map_eq_nil_iff.mp hrest]
    exact Or.inr ⟨x, rfl, rfl⟩

/-- A node that fails is the one in the batch, and the first failure of its stage. -/
theorem Served.firstFailure?_of_error (h : Served s [id] batch s') {stop : Stop}
    (ha : nodeAnswer s.executor id batch = .error stop) :
    firstFailure? batch = some (stop.inNode id) := by
  rcases h.single with ⟨rfl, _⟩ | ⟨x, rfl, hx⟩
  · cases hr : s.executor.cache.get? id <;> simp [nodeAnswer, hr] at ha
  · obtain ⟨_, _, _, _, hnone, _⟩ := Executor.due?_eq_some.mp hx
    simp only [nodeAnswer, hnone] at ha
    cases ho : x.outcome with
    | ok values => simp [ho, NodeRun.ofOutcome] at ha
    | error err =>
      rw [ho, NodeRun.ofOutcome, Except.error.injEq] at ha
      unfold firstFailure?
      rw [List.findSome?_cons, Ending.failure?, ho, Executor.id_of_due? hx, ← ha]
      rfl

/-- A node that does not fail is counted by what its run came to. -/
theorem Served.counts_of_ok (h : Served s [id] batch s') (ht : s.executor.tracks id = true)
    {run : NodeRun} (ha : nodeAnswer s.executor id batch = .ok run) :
    firstFailure? batch = none ∧ ∀ {launched stats stats'},
      Counts s.executor ids launched (stats.count run) stats'
        → Counts s.executor (id :: ids) (batch.length + launched) stats stats' := by
  rcases h.single with ⟨rfl, _⟩ | ⟨x, rfl, hx⟩
  · refine ⟨rfl, fun {launched stats stats'} hn => ?_⟩
    rw [List.length_nil, Nat.zero_add]
    cases hr : s.executor.cache.get? id with
    | some r =>
      simp only [nodeAnswer, hr, Except.ok.injEq] at ha
      subst ha
      exact hn.hit ht (Cache.has_iff.mpr ⟨r, hr⟩)
    | none =>
      simp only [nodeAnswer, hr, Except.ok.injEq] at ha
      subst ha
      exact hn.wait ht (Cache.has_eq_false_iff.mpr hr)
  · obtain ⟨_, _, _, _, hnone, _⟩ := Executor.due?_eq_some.mp hx
    simp only [nodeAnswer, hnone] at ha
    cases ho : x.outcome with
    | error err => simp [ho, NodeRun.ofOutcome] at ha
    | ok values =>
      rw [ho, NodeRun.ofOutcome, Except.ok.injEq] at ha
      subst ha
      refine ⟨?_, fun hn => ?_⟩
      · rw [firstFailure?_eq_none]
        intro y hy
        rw [List.mem_singleton.mp hy]
        exact ⟨values, ho⟩
      · rw [List.length_singleton, Nat.add_comm]
        exact hn.launch ht (Cache.has_eq_false_iff.mpr hnone)

/-! ## Steps -/

variable {logic : Logic σ} {P : NodeDescriptor → Object → Except String Object → Prop}

theorem runSequential_cons_ok (r : NodeRecord) (rs : List NodeRecord) (stats : RunStats)
    (ht : s.executor.tracks r.id = true) {s₁ : Session σ} {run : NodeRun}
    (h : (runWith logic r.id).finish s = (s₁, .ok run)) :
    (runSequential logic (r :: rs) stats).finish s
      = (runSequential logic rs (stats.count run)).finish s₁ := by
  rw [runSequential, Activity.finish_seq, Activity.finish_read]
  simp only [ht, Bool.not_true, Bool.false_eq_true, if_false]
  rw [Activity.finish_seq, h]
  cases run <;> rfl

theorem runSequential_cons_error (r : NodeRecord) (rs : List NodeRecord) (stats : RunStats)
    (ht : s.executor.tracks r.id = true) {s₁ : Session σ} {stop : Stop}
    (h : (runWith logic r.id).finish s = (s₁, .error stop)) :
    (runSequential logic (r :: rs) stats).finish s = (s₁, .error (stop.inNode r.id)) := by
  rw [runSequential, Activity.finish_seq, Activity.finish_read]
  simp only [ht, Bool.not_true, Bool.false_eq_true, if_false]
  rw [Activity.finish_seq, h]
  rfl

theorem runSequential_cons_untracked (r : NodeRecord) (rs : List NodeRecord) (stats : RunStats)
    (ht : s.executor.tracks r.id = false) :
    (runSequential logic (r :: rs) stats).finish s = (runSequential logic rs stats).finish s := by
  rw [runSequential, Activity.finish_seq, Activity.finish_read]
  simp only [ht, Bool.not_false, if_true]

/-- A sequential stage is a sequence of steps. -/
theorem runSequential_steps (logic : Logic σ) (rs : List NodeRecord) (stats : RunStats)
    (hs : Moment.Sound ⟨[], s⟩) :
    Steps ⟨[], s⟩ ⟨[], ((runSequential logic rs stats).finish s).1⟩ := by
  induction rs generalizing s stats with
  | nil => exact .refl
  | cons r rs ih =>
    cases ht : s.executor.tracks r.id with
    | false =>
      rw [runSequential_cons_untracked r rs stats ht]
      exact ih stats hs
    | true =>
      obtain ⟨c, hc⟩ := hs.coherent.wellFormed.tracks_iff.mp ht
      obtain ⟨s₁, batch, heq, hserved, _⟩ := runWith_eq logic.yields_trivial hs hc
      cases ha : nodeAnswer s.executor r.id batch with
      | error stop =>
        rw [runSequential_cons_error r rs stats ht (ha ▸ heq)]
        exact hserved.steps
      | ok run =>
        rw [runSequential_cons_ok r rs stats ht (ha ▸ heq)]
        exact hserved.steps.trans (ih (stats.count run) (hserved.steps.sound hs))

/-! ## Independence -/

/-- The nodes of a stage do not concern each other: none with a controller is listed twice, and none has a
producer in the stage but perhaps itself. -/
structure Independent (e : Executor σ) (ids : List NodeId) : Prop where
  distinct : (ids.filter e.tracks).Nodup
  apart : ∀ id ∈ ids, ∀ c, e.controllers.find? id = some c →
    ∀ b ∈ c.bindings, b.source ∈ ids → b.source = id

/-- It is enough to look at the controllers one by one. -/
theorem Independent.of_items {e : Executor σ} (hd : (ids.filter e.tracks).Nodup)
    (ha : ∀ c ∈ e.controllers.items, c.id ∈ ids → ∀ b ∈ c.bindings, b.source ∈ ids → b.source = c.id) :
    Independent e ids := by
  refine ⟨hd, ?_⟩
  intro id hid c hc b hb hsrc
  obtain rfl : c.id = id := Executor.id_of_find? hc
  exact ha c (KeyedVec.mem_of_find? hc) hid b hb hsrc

theorem Independent.of_frame {e e' : Executor σ} (h : Independent e ids)
    (hf : e'.frame = e.frame) : Independent e' ids := by
  constructor
  · rw [funext (Executor.tracks_of_frame hf)]
    exact h.distinct
  · intro id hid c hc b hb
    obtain ⟨d, hd, hbd⟩ := Executor.find?_of_frame hf.symm hc
    exact h.apart id hid d hd b (hbd ▸ hb)

theorem Independent.tail {e : Executor σ} (h : Independent e (id :: ids)) : Independent e ids := by
  refine ⟨?_, ?_⟩
  · have hd := h.distinct
    rw [List.filter_cons] at hd
    split at hd
    · exact (List.nodup_cons.mp hd).2
    · exact hd
  · intro k hk c hc b hb hsrc
    exact h.apart k (List.mem_cons_of_mem id hk) c hc b hb (List.mem_cons_of_mem id hsrc)

/-- The first node of an independent stage does not change what is due of the others. -/
theorem Served.ahead (h : Served s [id] batch s') (hind : Independent s.executor (id :: ids))
    (ht : s.executor.tracks id = true) :
    ∀ k ∈ ids, s.executor.tracks k = true
      → k ∉ [id] ∧ s'.executor.due? k = s.executor.due? k := by
  intro k hk hkt
  have hne : k ∉ [id] := by
    rw [List.mem_singleton]
    rintro rfl
    have hd := hind.distinct
    rw [List.filter_cons_of_pos ht, List.nodup_cons] at hd
    exact hd.1 (List.mem_filter.mpr ⟨hk, hkt⟩)
  refine ⟨hne, h.due?_eq hne fun c hc b hb hsrc => ?_⟩
  have hself := hind.apart k (List.mem_cons_of_mem id hk) c hc b hb
    (List.mem_singleton.mp hsrc ▸ List.mem_cons_self)
  rw [hself] at hsrc
  exact hne hsrc

/-- **A sequential stage of independent nodes serves them up to the first failure,** and all of them if
there is none. -/
theorem runSequential_eq (hl : logic.Yields P) (rs : List NodeRecord) (stats : RunStats)
    (hs : Moment.Sound ⟨[], s⟩) (hind : Independent s.executor (rs.map (·.id))) :
    ∃ s' done rest batch stats', rs.map (·.id) = done ++ rest
      ∧ (runSequential logic rs stats).finish s = (s', stageAnswer batch stats')
      ∧ Served s done batch s'
      ∧ (firstFailure? batch = none → rest = []
        ∧ Counts s.executor (rs.map (·.id)) batch.length stats stats')
      ∧ ∀ x ∈ batch, P x.1.node x.1.inputs x.2 := by
  -- on the records: what the rest finds due is what was due before, since the first concerns none of them
  induction rs generalizing s stats with
  | nil =>
    exact ⟨s, [], [], [], stats, rfl, rfl, .nil s, fun _ => ⟨rfl, .nil _ stats⟩,
      fun x hx => absurd hx List.not_mem_nil⟩
  | cons r rs ih =>
    have hw := hs.coherent.wellFormed
    rw [List.map_cons] at hind ⊢
    cases ht : s.executor.tracks r.id with
    | false =>
      obtain ⟨s', done, rest, batch, stats', hids, heq, hserved, hok, hP⟩ := ih stats hs hind.tail
      have hnone := hw.tracks_eq_false_iff.mp ht
      have happart : ∀ k ∈ done, s.executor.tracks k = true
          → k ∉ [r.id] ∧ s.executor.due? k = s.executor.due? k := by
        intro k _ hkt
        refine ⟨?_, rfl⟩
        intro hk
        rw [List.mem_singleton.mp hk, ht] at hkt
        exact absurd hkt (by simp)
      refine ⟨s', r.id :: done, rest, batch, stats', by rw [hids]; rfl, ?_,
        (Served.untracked hnone).append hserved happart hw, ?_, hP⟩
      · rw [runSequential_cons_untracked r rs stats ht, heq]
      · intro hf
        exact ⟨(hok hf).1, (hok hf).2.skip ht⟩
    | true =>
      obtain ⟨c, hc⟩ := hw.tracks_iff.mp ht
      obtain ⟨s₁, batch₁, heq₁, hserved₁, hP₁⟩ := runWith_eq hl hs hc
      have hahead := hserved₁.ahead hind ht
      cases ha : nodeAnswer s.executor r.id batch₁ with
      | error stop =>
        have hf := hserved₁.firstFailure?_of_error ha
        refine ⟨s₁, [r.id], rs.map (·.id), batch₁, stats, rfl, ?_, hserved₁, ?_, hP₁⟩
        · rw [runSequential_cons_error r rs stats ht (ha ▸ heq₁), stageAnswer, hf]
        · intro hnone
          rw [hf] at hnone
          exact absurd hnone (by simp)
      | ok run =>
        have hframe := hserved₁.steps.frame
        obtain ⟨s', done, rest, batch, stats', hids, heq, hserved, hok, hP⟩ :=
          ih (stats.count run) (hserved₁.steps.sound hs) (hind.tail.of_frame hframe)
        obtain ⟨hf₁, hcount⟩ := hserved₁.counts_of_ok ht ha
        have hf : firstFailure? (batch₁ ++ batch) = firstFailure? batch := by
          rw [firstFailure?_append, hf₁, Option.none_or]
        have hdone : ∀ k ∈ done, k ∈ rs.map (·.id) := fun k hk => by
          rw [hids]
          exact List.mem_append_left rest hk
        refine ⟨s', r.id :: done, rest, batch₁ ++ batch, stats', by rw [hids]; rfl, ?_,
          hserved₁.append hserved (fun k hk => hahead k (hdone k hk)) hw, ?_, ?_⟩
        · rw [runSequential_cons_ok r rs stats ht (ha ▸ heq₁), heq, stageAnswer, stageAnswer, hf]
        · intro hnone
          rw [hf] at hnone
          obtain ⟨hrest, hn⟩ := hok hnone
          refine ⟨hrest, ?_⟩
          rw [List.length_append]
          refine hcount (hn.congr fun k hk => ⟨Executor.tracks_of_frame hframe k, ?_⟩)
          intro hkt
          unfold Cache.has
          rw [hserved₁.get?_of_not_mem (hahead k hk hkt).1]
        · intro x hx
          exact (List.mem_append.mp hx).elim (hP₁ x) (hP x)

end Session

end StageFlow
