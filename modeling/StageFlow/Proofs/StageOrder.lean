import StageFlow.Proofs.Dispatch
import StageFlow.Proofs.Rounds

/-!
# The order of a concurrent stage

All nodes of a concurrent stage are prepared from what was there before it, so the order in which they are
listed decides which failure is the first, and nothing else that is left behind.

## Contents
- **Batches.** What is known of a batch whatever its order.
- **Stages.** Two orders of one stage serve the same batch, up to its order.
- **Order.** `stage_order_irrelevant`.
-/

namespace StageFlow

open Executor (Invocation gatherInputs)

/-! ## Batches -/

theorem endingOf?_perm {batch batch' : List Ending} (hd : (batch.map fun x => x.1.id).Nodup)
    (hp : batch'.Perm batch) (id : NodeId) : endingOf? batch' id = endingOf? batch id := by
  have hd' : (batch'.map fun x => x.1.id).Nodup := (hp.map _).nodup_iff.mpr hd
  cases hend : endingOf? batch' id with
  | none =>
    rw [endingOf?_eq_none, (hp.map _).mem_iff, ← endingOf?_eq_none] at hend
    exact hend.symm
  | some x =>
    obtain ⟨hx, rfl⟩ := mem_of_endingOf? hend
    exact (endingOf?_of_mem hd (hp.mem_iff.mp hx)).symm

/-- Whether a batch has a failure does not depend on its order, though the first one does. -/
theorem firstFailure?_perm {batch batch' : List Ending} (hp : batch'.Perm batch) :
    firstFailure? batch' = none ↔ firstFailure? batch = none := by
  rw [firstFailure?_eq_none, firstFailure?_eq_none]
  exact forall_congr' fun x => by rw [hp.mem_iff]

namespace Session

variable {σ : Type} {s s' t' : Session σ} {ids ids' : List NodeId} {batch batch' : List Ending}
variable {logic : Logic σ} {f : NodeDescriptor → Object → Except String Object}

/-! ## Stages -/

theorem Counts.perm {e : Executor σ} {launched : Nat} {stats stats' : RunStats} (hp : ids'.Perm ids)
    (h : Counts e ids' launched stats stats') : Counts e ids launched stats stats' where
  invoked := h.invoked
  cached := by rw [h.cached, hp.countP_eq]
  waiting := by rw [h.waiting, hp.countP_eq]

/-- Two orders of one stage launch the same invocations. A node that is listed twice is launched once in
either. -/
theorem Served.launched_perm (h : Served s ids batch s') (h' : Served s ids' batch' t')
    (hp : ids'.Perm ids) : (batch'.map Prod.fst).Perm (batch.map Prod.fst) := by
  have hdistinct : (distinctFrom [] ids').Perm (distinctFrom [] ids) := by
    rw [List.perm_ext_iff_of_nodup (nodup_distinctFrom [] ids') (nodup_distinctFrom [] ids)]
    intro id
    rw [mem_distinctFrom, mem_distinctFrom, hp.mem_iff]
  rw [h.due, h'.due]
  exact hdistinct.filterMap _

/-- Two orders of one stage serve the same batch if the logic computes its results. -/
theorem Served.batch_perm (h : Served s ids batch s') (h' : Served s ids' batch' t')
    (hp : ids'.Perm ids) (hP : ∀ x ∈ batch, x.2 = f x.1.node x.1.inputs)
    (hP' : ∀ x ∈ batch', x.2 = f x.1.node x.1.inputs) : batch'.Perm batch := by
  rw [batch_of_computed hP, batch_of_computed hP']
  exact (h.launched_perm h' hp).map _

/-- What a node is handed in a stage is gathered from what was there before the stage. -/
theorem Served.inputs_eq (h : Served s ids batch s') (hw : s.executor.WellFormed) {x : Ending}
    (hx : x ∈ batch) : ∃ c, s.executor.controller? x.1.node.id = .ok (some c)
      ∧ x.1.inputs = gatherInputs s.executor.cache c.bindings := by
  obtain ⟨c, node, hc, _, _, _, heq⟩ := Executor.due?_eq_some.mp (h.due_of_mem hx).2
  rw [h.node_id hx, hw.controller?_eq]
  exact ⟨c, by rw [hc], by rw [heq]⟩

/-! ## Order -/

/-- **The order in which a concurrent stage lists its nodes is irrelevant.** Whatever is listed, and however
often, both orders leave the same results and states and count the same; one fails exactly if the other
does; and they launch the same invocations, with inputs from what was there before the stage, so that no
node sees the result of another one of its stage. -/
theorem stage_order_irrelevant (hs : Reachable s) (hl : logic.Computes f) {stage stage' : Stage}
    (hp : stage'.records.Perm stage.records) (stats : RunStats) :
    let x := (runCounted logic stage.records stats).finish s
    let y := (runCounted logic stage'.records stats).finish s
    (runConcurrent logic stage.records stats).finish s = (x.1, x.2.2.elim (.ok x.2.1) .error)
      ∧ (runConcurrent logic stage'.records stats).finish s = (y.1, y.2.2.elim (.ok y.2.1) .error)
      ∧ y.1.executor.cache = x.1.executor.cache
      ∧ y.1.executor.controllers = x.1.executor.controllers
      ∧ y.2.1 = x.2.1
      ∧ (x.2.2 = none ∧ y.2.2 = none
        ∨ (∃ err, x.2.2 = some (.error err)) ∧ ∃ err, y.2.2 = some (.error err))
      ∧ ∃ launched launched', launches x.1.journal = launches s.journal ++ launched
        ∧ launches y.1.journal = launches s.journal ++ launched'
        ∧ launched'.Perm launched ∧ (launched.map fun l => l.1.id).Nodup
        ∧ ∀ l ∈ launched, ∃ c, s.executor.controller? l.1.id = .ok (some c)
          ∧ l.2 = gatherInputs s.executor.cache c.bindings := by
  have hsound := hs.sound
  obtain ⟨s', batch, stats₁, heq, hserved, hcounts, _, hP⟩ :=
    runCounted_eq hl stage.records stats hsound
  obtain ⟨t', batch', stats₂, heq', hserved', hcounts', _, hP'⟩ :=
    runCounted_eq hl stage'.records stats hsound
  have hids := hp.map (·.id)
  have hbatch := hserved.batch_perm hserved' hids hP hP'
  have hagree := hserved.agree hserved' (fun _ => hids.mem_iff) (endingOf?_perm hserved.nodup hbatch)
    hsound.coherent.wellFormed ⟨rfl, rfl, rfl, rfl⟩
  intro x y
  have hx : x = (s', stats₁, firstFailure? batch) := heq
  have hy : y = (t', stats₂, firstFailure? batch') := heq'
  have hconc : ∀ rs : List NodeRecord, (runConcurrent logic rs stats).finish s
      = (((runCounted logic rs stats).finish s).1, ((runCounted logic rs stats).finish s).2.2.elim
        (.ok ((runCounted logic rs stats).finish s).2.1) .error) := by
    intro rs
    rw [runConcurrent_eq_counted, Activity.finish_map]
  refine ⟨hconc _, hconc _, ?_, ?_, ?_, ?_, ?_⟩
  · rw [hx, hy, hagree.cache]
  · rw [hx, hy, hagree.controllers]
  · rw [hx, hy]
    rw [hbatch.length_eq] at hcounts'
    exact (hcounts'.perm hids).unique hcounts
  · rw [hx, hy]
    cases hf : firstFailure? batch with
    | none => exact Or.inl ⟨rfl, (firstFailure?_perm hbatch).mpr hf⟩
    | some stop =>
      cases hf' : firstFailure? batch' with
      | none => exact absurd ((firstFailure?_perm hbatch).mp hf') (by simp [hf])
      | some stop' =>
        obtain ⟨_, _, _, err, _, _, _, rfl⟩ := firstFailure?_eq_some hf
        obtain ⟨_, _, _, err', _, _, _, rfl⟩ := firstFailure?_eq_some hf'
        exact Or.inr ⟨⟨_, rfl⟩, ⟨_, rfl⟩⟩
  · rw [hx, hy]
    refine ⟨_, _, hserved.started, hserved'.started, hbatch.map _, ?_, ?_⟩
    · rw [List.map_map]
      show (batch.map fun x => x.1.node.id).Nodup
      rw [List.map_congr_left fun x hx => hserved.node_id hx]
      exact hserved.nodup
    · intro l hl
      obtain ⟨x, hx, rfl⟩ := List.mem_map.mp hl
      exact hserved.inputs_eq hsound.coherent.wellFormed hx

/-- A producer that is listed thrice before its consumer is launched once, and so it is after it. -/
theorem stage_order_irrelevant_sample :
    ∃ s : Session Unit, Session.start Sample.repeating Sample.graph (some .echo) () = .ok s
      ∧ ((runCounted .echo Sample.repeating.listed.reverse {}).finish s).2.1
        = ((runCounted .echo Sample.repeating.listed {}).finish s).2.1
      ∧ ((runCounted .echo Sample.repeating.listed {}).finish s).2.1 = ⟨1, 0, 3⟩ := by
  obtain ⟨s, hstart, hcounts⟩ : ∃ s : Session Unit,
      Session.start Sample.repeating Sample.graph (some .echo) () = .ok s
      ∧ ((runCounted .echo Sample.repeating.listed {}).finish s).2.1 = ⟨1, 0, 3⟩ := by
    refine ⟨_, (by rw [start, Executor.new, Plan.records_eq]; rfl), ?_⟩
    rfl
  have hcomputes : (Logic.echo : Logic Unit).Computes fun node inputs => .ok (node.echo inputs) :=
    fun _ _ => rfl
  have hperm : (Stage.static Sample.repeating.listed.reverse).records.Perm
      (Stage.static Sample.repeating.listed).records := List.reverse_perm _
  obtain ⟨_, _, _, _, hsame, _⟩ := stage_order_irrelevant (.start hstart) hcomputes hperm {}
  exact ⟨s, hstart, hsame, hcounts⟩

end Session

end StageFlow
