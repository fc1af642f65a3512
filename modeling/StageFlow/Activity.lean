/-!
# Activities

Work that goes on in turns: it reads and writes a shared state, may pause so that other work gets its
turn, and ends with an answer after finitely many turns. Running it to the end, giving it some turns and
then dropping it, and having several activities in flight together are all functions on it.

## Contents
- **Type.** `Activity`, with `Monad` operations.
- **Turns.** `poll`, `pollAtMost` and `finish`.
- **In flight together.** `both` and `all`.
- **Change of state.** `zoom` and `withLocal`.
-/

namespace StageFlow

/-! ## Type -/

/-- Work on a state `σ` that ends with an `α`. -/
inductive Activity (σ α : Type) : Type
  /-- The end. -/
  | done (a : α)
  /-- Writes to the state and goes on in the same turn; what comes next may depend on the state before. -/
  | effect (write : σ → σ) (next : σ → Activity σ α)
  /-- Ends the turn. -/
  | pause (next : Activity σ α)

namespace Activity

variable {σ τ υ α β γ : Type}

/-- Goes on with another activity at the end. -/
def bind : Activity σ α → (α → Activity σ β) → Activity σ β
  | done a, f => f a
  | effect write next, f => effect write fun s => (next s).bind f
  | pause next, f => pause (next.bind f)

/-- Changes the answer. -/
def map (f : α → β) (t : Activity σ α) : Activity σ β := t.bind fun a => done (f a)

instance : Monad (Activity σ) where
  pure := done
  bind := bind

/-- The state as it is. -/
def read : Activity σ σ := effect id done

/-- Writes to the state. -/
def modify (write : σ → σ) : Activity σ Unit := effect write fun _ => done ()

/-- Writes to the state and gives an answer. -/
def step (f : σ → σ × α) : Activity σ α := effect (fun s => (f s).1) fun s => done (f s).2

/-- Pauses so many times first. -/
def after : (pauses : Nat) → Activity σ α → Activity σ α
  | 0, t => t
  | n + 1, t => pause (after n t)

/-! ## Turns -/

/-- One turn: the state afterwards, and the answer or what is left to do. -/
def poll : Activity σ α → σ → σ × (α ⊕ Activity σ α)
  | done a, s => (s, .inl a)
  | effect write next, s => (next s).poll (write s)
  | pause next, s => (s, .inr next)

/-- At most so many turns; no answer if they are not enough. -/
def pollAtMost : (turns : Nat) → Activity σ α → σ → σ × Option α
  | 0, _, s => (s, none)
  | n + 1, t, s =>
    match t.poll s with
    | (s, .inl a) => (s, some a)
    | (s, .inr t) => pollAtMost n t s

/-- As many turns as it takes. -/
def finish : Activity σ α → σ → σ × α
  | done a, s => (s, a)
  | effect write next, s => (next s).finish (write s)
  | pause next, s => next.finish s

/-! ## In flight together -/

/-- The turn of a second activity, after a first one has ended its turn. `resume` is what remains when
the second has only paused, and `conclude` when it has come to its end. -/
def secondTurn (resume : Activity σ β → Activity σ γ) (conclude : β → Activity σ γ) :
    Activity σ β → Activity σ γ
  | done b => pause (conclude b)
  | effect write next => effect write fun s => secondTurn resume conclude (next s)
  | pause next => pause (resume next)

/-- Two activities in flight together: in each turn the first has its turn and then the second, as long as
they have not come to their ends. -/
def both : Activity σ α → Activity σ β → Activity σ (α × β)
  | done a, u => u.map (a, ·)
  | effect write next, u => effect write fun s => (next s).both u
  | pause next, u => secondTurn next.both (fun b => next.map (·, b)) u

/-- Several activities in flight together; the answers keep their order. -/
def all : List (Activity σ α) → Activity σ (List α)
  | [] => done []
  | t :: ts => (both t (all ts)).map fun (a, as) => a :: as

/-! ## Change of state -/

/-- Work on a part of a larger state. -/
def zoom (get : τ → σ) (set : σ → τ → τ) : Activity σ α → Activity τ α
  | done a => done a
  | effect write next => effect (fun s => set (write (get s)) s) fun s => (next (get s)).zoom get set
  | pause next => pause (next.zoom get set)

/-- Work on a state `υ` that is put together from a shared state `σ` and a local part `τ`, which only this
activity sees and which it gives back at the end. -/
def withLocal (join : τ → σ → υ) (localPart : υ → τ) (share : υ → σ → σ) :
    Activity υ α → τ → Activity σ (τ × α)
  | done a, l => done (l, a)
  | effect write next, l =>
    effect (fun s => share (write (join l s)) s) fun s =>
      (next (join l s)).withLocal join localPart share (localPart (write (join l s)))
  | pause next, l => pause (next.withLocal join localPart share l)

end Activity

end StageFlow
