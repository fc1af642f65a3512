import StageFlow.Proofs.Exchange

/-!
# Outlines of plans

Once a session has started, all that its calls look up in the plan is which identifiers each stage lists;
links count only for the bindings that controllers were made with. A session whose plan is exchanged for one
with the same outline therefore goes on as it would have.

## Contents
- **Exchange.** `Executor.withPlan`, which every operation of an executor passes on.
- **Calls.** `performAll_withPlan`.
-/

namespace StageFlow

variable {σ : Type}

/-! ## Exchange -/

namespace Executor

/-- The same executor with another plan. -/
def withPlan (e : Executor σ) (plan : Plan) : Executor σ := { e with plan }

/-- An executor that stays on its ground has its own graph after an exchange of the plan. -/
theorem SameGround.withPlan_eq {e e' : Executor σ} (h : e.SameGround e') (q : Plan) :
    e'.withPlan q = e'.rebase q e.graph e.positions := by
  rw [← h.graph, ← h.positions]
  rfl

/-- No operation of an executor looks at the plan. -/
theorem passedOn_withPlan (q : Plan) : PassedOn fun e : Executor σ => e.withPlan q where
  tracks _ _ := rfl
  logic _ := rfl
  options _ := rfl
  prepare e id := by
    rw [(e.sameGround_prepare id).withPlan_eq]
    exact prepare_rebase q (fun _ _ => rfl) id
  settle e id result := by
    rw [(e.sameGround_settle id result).withPlan_eq]
    exact settle_rebase e q e.graph e.positions id result
  clearNode e id := by
    show (e.rebase q e.graph e.positions).clearNode id = _
    rw [clearNode_rebase]
    cases he : e.clearNode id with
    | error b => rfl
    | ok e' => exact congrArg Except.ok ((e.sameGround_clearNode id he).withPlan_eq q).symm
  clear _ := rfl
  withOptions _ _ := rfl

end Executor

/-! ## Calls -/

namespace Session

/-- The same session with another plan. -/
def withPlan (s : Session σ) (plan : Plan) : Session σ :=
  { s with executor := s.executor.withPlan plan }

/-- **An exchange of the plan for one with the same outline** makes no difference to what calls answer, and
stays the only difference in what they leave behind. -/
theorem performAll_withPlan {s : Session σ} {q : Plan} (hs : s.executor.Coherent [])
    (h : q.outline = s.executor.plan.outline) (calls : List Call) :
    (s.withPlan q).performAll calls
      = ((s.performAll calls).1.withPlan q, (s.performAll calls).2) := by
  apply performAll_onExecutor (Executor.passedOn_withPlan q) hs
  intro e he
  show q.outline = e.plan.outline
  rw [h, he]

end Session

end StageFlow
