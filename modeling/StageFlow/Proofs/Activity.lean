import Mathlib.Data.List.Forall2
import StageFlow.Activity

/-!
# Laws of activities

What is known of an activity whatever its turns are interleaved with. An invocation of a node shares the
host's state with every other one in flight, so a law that only speaks of an activity run on its own says
nothing about a stage; the predicates here are kept by `both` and `all`.

## Contents
- **Running to the end.** `finish` of each combinator.
- **Answers.** `Always P`: the answer satisfies `P`, whatever the states met on the way; `MayEnd`, the answers
  that there can be.
- **Frame.** `Keeps view`: no write changes what `view` shows.
- **Indifference.** `Ignores change`: the activity goes on alike after a change of the state.
-/

namespace StageFlow.Activity

variable {σ τ α β γ ι : Type}

/-! ## Running to the end -/

@[simp] theorem finish_done (a : α) (s : σ) : (done a).finish s = (s, a) := rfl

@[simp] theorem finish_pure (a : α) (s : σ) : (pure a : Activity σ α).finish s = (s, a) := rfl

@[simp] theorem finish_step (f : σ → σ × α) (s : σ) : (step f).finish s = f s := rfl

@[simp] theorem finish_read (s : σ) : (read : Activity σ σ).finish s = (s, s) := rfl

/-- What comes next starts in the state in which the first activity has left off. -/
theorem finish_bind (t : Activity σ α) (f : α → Activity σ β) (s : σ) :
    (t.bind f).finish s = (f (t.finish s).2).finish (t.finish s).1 := by
  induction t generalizing s with
  | done a => rfl
  | effect write next ih => exact ih s (write s)
  | pause next ih => exact ih s

@[simp] theorem finish_seq (t : Activity σ α) (f : α → Activity σ β) (s : σ) :
    (t >>= f).finish s = (f (t.finish s).2).finish (t.finish s).1 :=
  finish_bind t f s

@[simp] theorem finish_map (f : α → β) (t : Activity σ α) (s : σ) :
    (t.map f).finish s = ((t.finish s).1, f (t.finish s).2) := by
  rw [map, finish_bind]
  rfl

/-- Work on a part of a state answers as it does on the part alone. -/
theorem finish_zoom {get : τ → σ} {set : σ → τ → τ} (h : ∀ x s, get (set x s) = x) (t : Activity σ α)
    (s : τ) : ((t.zoom get set).finish s).2 = (t.finish (get s)).2 := by
  induction t generalizing s with
  | done a => rfl
  | effect write next ih =>
    show (((next (get s)).zoom get set).finish (set (write (get s)) s)).2
      = ((next (get s)).finish (write (get s))).2
    rw [ih, h]
  | pause next ih => exact ih s

/-- Work on a part of a state leaves that part as it does on the part alone, and the rest as it was. -/
theorem finish_zoom_eq (get : τ → σ) (set : σ → τ → τ) (hget : ∀ x s, get (set x s) = x)
    (hset : ∀ x y s, set x (set y s) = set x s) (hself : ∀ s, set (get s) s = s) (t : Activity σ α)
    (s : τ) : (t.zoom get set).finish s = (set (t.finish (get s)).1 s, (t.finish (get s)).2) := by
  induction t generalizing s with
  | done a => exact Prod.ext (hself s).symm rfl
  | effect write next ih =>
    show ((next (get s)).zoom get set).finish (set (write (get s)) s)
      = (set ((next (get s)).finish (write (get s))).1 s, ((next (get s)).finish (write (get s))).2)
    rw [ih, hget, hset]
  | pause next ih => exact ih s

/-- What comes next may be put together first. -/
theorem bind_assoc (t : Activity σ α) (f : α → Activity σ β) (g : β → Activity σ γ) :
    (t.bind f).bind g = t.bind fun a => (f a).bind g := by
  induction t with
  | done a => rfl
  | effect write next ih => exact congrArg (effect write) (funext ih)
  | pause next ih => exact congrArg pause ih

/-! ## Answers -/

/-- The answer satisfies `P`, even if other activities write to the state between the turns: every
continuation is taken in every state. -/
def Always (P : α → Prop) : Activity σ α → Prop
  | done a => P a
  | effect _ next => ∀ s, (next s).Always P
  | pause next => next.Always P

theorem Always.finish {P : α → Prop} {t : Activity σ α} (h : t.Always P) (s : σ) :
    P (t.finish s).2 := by
  induction t generalizing s with
  | done a => exact h
  | effect write next ih => exact ih s (h s) (write s)
  | pause next ih => exact ih h s

theorem Always.bind {P : α → Prop} {Q : β → Prop} {t : Activity σ α} {f : α → Activity σ β}
    (h : t.Always P) (hf : ∀ a, P a → (f a).Always Q) : (t.bind f).Always Q := by
  induction t with
  | done a => exact hf a h
  | effect write next ih => intro s; exact ih s (h s)
  | pause next ih => exact ih h

theorem Always.map {P : α → Prop} {Q : β → Prop} {f : α → β} {t : Activity σ α}
    (h : t.Always P) (hf : ∀ a, P a → Q (f a)) : (t.map f).Always Q :=
  h.bind hf

theorem Always.zoom {P : α → Prop} {t : Activity σ α} (get : τ → σ) (set : σ → τ → τ)
    (h : t.Always P) : (t.zoom get set).Always P := by
  induction t with
  | done a => exact h
  | effect write next ih => intro s; exact ih (get s) (h (get s))
  | pause next ih => exact ih h

theorem Always.secondTurn {P : β → Prop} {Q : γ → Prop} {resume : Activity σ β → Activity σ γ}
    {conclude : β → Activity σ γ} {u : Activity σ β} (h : u.Always P)
    (hr : ∀ u : Activity σ β, u.Always P → (resume u).Always Q)
    (hc : ∀ b, P b → (conclude b).Always Q) : (secondTurn resume conclude u).Always Q := by
  induction u with
  | done b => exact hc b h
  | effect write next ih => intro s; exact ih s (h s)
  | pause next _ => exact hr next h

/-- Two activities in flight together answer as each of them always does. -/
theorem Always.both {P : α → Prop} {Q : β → Prop} {t : Activity σ α} {u : Activity σ β}
    (ht : t.Always P) (hu : u.Always Q) : (both t u).Always fun p => P p.1 ∧ Q p.2 := by
  induction t generalizing u with
  | done a => exact hu.map fun b hb => ⟨ht, hb⟩
  | effect write next ih => intro s; exact ih s (ht s) hu
  | pause next ih =>
    -- the first has ended its turn, and the second has one
    exact hu.secondTurn (fun u hu => ih ht hu) fun b hb => Always.map ht fun a ha => ⟨ha, hb⟩

/-- Of several activities in flight together each gives an answer of its own, in their order. -/
theorem Always.all {P : ι → α → Prop} {t : ι → Activity σ α} {is : List ι}
    (h : ∀ i ∈ is, (t i).Always (P i)) : (all (is.map t)).Always (List.Forall₂ P is) := by
  induction is with
  | nil => exact List.Forall₂.nil
  | cons i is ih =>
    have hi : (t i).Always (P i) := h i List.mem_cons_self
    have his : (Activity.all (is.map t)).Always (List.Forall₂ P is) :=
      ih fun j hj => h j (List.mem_cons_of_mem i hj)
    exact (hi.both his).map fun p hp => List.Forall₂.cons hp.1 hp.2

theorem Always.imp {P Q : α → Prop} {t : Activity σ α} (h : t.Always P) (hpq : ∀ a, P a → Q a) :
    t.Always Q := by
  induction t with
  | done a => exact hpq a h
  | effect write next ih => intro s; exact ih s (h s)
  | pause next ih => exact ih h

theorem always_trivial (t : Activity σ α) : t.Always fun _ => True := by
  induction t with
  | done a => trivial
  | effect write next ih => exact ih
  | pause next ih => exact ih

/-- The activity can end with an answer, if others write to the state as they like between its turns. -/
def MayEnd : Activity σ α → α → Prop
  | done a, answer => answer = a
  | effect _ next, answer => ∃ s, (next s).MayEnd answer
  | pause next, answer => next.MayEnd answer

/-- An activity ends in one of the ways in which it can. -/
theorem always_mayEnd (t : Activity σ α) : t.Always t.MayEnd := by
  induction t with
  | done a => rfl
  | effect write next ih =>
    intro s
    exact (ih s).imp fun a ha => ⟨s, ha⟩
  | pause next ih => exact ih

/-! ## Frame -/

/-- No write of the activity changes what `view` shows. -/
def Keeps (view : σ → γ) : Activity σ α → Prop
  | done _ => True
  | effect write next => (∀ s, view (write s) = view s) ∧ ∀ s, (next s).Keeps view
  | pause next => next.Keeps view

theorem Keeps.finish {view : σ → γ} {t : Activity σ α} (h : t.Keeps view) (s : σ) :
    view (t.finish s).1 = view s := by
  induction t generalizing s with
  | done a => rfl
  | effect write next ih => exact (ih s (h.2 s) (write s)).trans (h.1 s)
  | pause next ih => exact ih h s

theorem Keeps.bind {view : σ → γ} {t : Activity σ α} {f : α → Activity σ β}
    (h : t.Keeps view) (hf : ∀ a, (f a).Keeps view) : (t.bind f).Keeps view := by
  induction t with
  | done a => exact hf a
  | effect write next ih => exact ⟨h.1, fun s => ih s (h.2 s)⟩
  | pause next ih => exact ih h

theorem Keeps.map {view : σ → γ} {t : Activity σ α} (f : α → β) (h : t.Keeps view) :
    (t.map f).Keeps view :=
  h.bind fun _ => trivial

/-- Work on a part of a state keeps all that the part is not seen in. -/
theorem Keeps.zoom {view : τ → γ} {get : τ → σ} {set : σ → τ → τ}
    (h : ∀ x s, view (set x s) = view s) (t : Activity σ α) : (t.zoom get set).Keeps view := by
  induction t with
  | done a => trivial
  | effect write next ih => exact ⟨fun s => h (write (get s)) s, fun s => ih (get s)⟩
  | pause next ih => exact ih

theorem Keeps.secondTurn {δ : Type} {view : σ → δ} {resume : Activity σ β → Activity σ γ}
    {conclude : β → Activity σ γ} {u : Activity σ β} (h : u.Keeps view)
    (hr : ∀ u : Activity σ β, u.Keeps view → (resume u).Keeps view)
    (hc : ∀ b, (conclude b).Keeps view) : (secondTurn resume conclude u).Keeps view := by
  induction u with
  | done b => exact hc b
  | effect write next ih => exact ⟨h.1, fun s => ih s (h.2 s)⟩
  | pause next _ => exact hr next h

theorem Keeps.both {view : σ → γ} {t : Activity σ α} {u : Activity σ β}
    (ht : t.Keeps view) (hu : u.Keeps view) : (both t u).Keeps view := by
  induction t generalizing u with
  | done a => exact hu.map _
  | effect write next ih => exact ⟨ht.1, fun s => ih s (ht.2 s) hu⟩
  | pause next ih => exact hu.secondTurn (fun u hu => ih ht hu) fun b => Keeps.map _ ht

/-- Activities that keep a part of the state on their own keep it together. -/
theorem Keeps.all {view : σ → γ} {ts : List (Activity σ α)} (h : ∀ t ∈ ts, t.Keeps view) :
    (all ts).Keeps view := by
  induction ts with
  | nil => trivial
  | cons t ts ih =>
    have ht : t.Keeps view := h t List.mem_cons_self
    have hts : (Activity.all ts).Keeps view := ih fun u hu => h u (List.mem_cons_of_mem t hu)
    exact (ht.both hts).map _

/-! ## Indifference -/

/-- The activity neither sees nor undoes a change of the state: no write interferes with it, and no
continuation depends on it. -/
def Ignores (change : σ → σ) : Activity σ α → Prop
  | done _ => True
  | effect write next =>
    (∀ s, write (change s) = change (write s)) ∧ (∀ s, next (change s) = next s)
      ∧ ∀ s, (next s).Ignores change
  | pause next => next.Ignores change

/-- Run in the changed state, the activity gives the same answer, and leaves the state it would have left,
changed. -/
theorem Ignores.finish {change : σ → σ} {t : Activity σ α} (h : t.Ignores change) (s : σ) :
    t.finish (change s) = (change (t.finish s).1, (t.finish s).2) := by
  induction t generalizing s with
  | done a => rfl
  | effect write next ih =>
    show (next (change s)).finish (write (change s)) = _
    rw [h.2.1 s, h.1 s]
    exact ih s (h.2.2 s) (write s)
  | pause next ih => exact ih h s

theorem Ignores.bind {change : σ → σ} {t : Activity σ α} {f : α → Activity σ β}
    (h : t.Ignores change) (hf : ∀ a, (f a).Ignores change) : (t.bind f).Ignores change := by
  induction t with
  | done a => exact hf a
  | effect write next ih =>
    refine ⟨h.1, ?_, fun s => ih s (h.2.2 s)⟩
    intro s
    exact congrArg (fun u : Activity σ α => u.bind f) (h.2.1 s)
  | pause next ih => exact ih h

theorem Ignores.map {change : σ → σ} {t : Activity σ α} (f : α → β) (h : t.Ignores change) :
    (t.map f).Ignores change :=
  h.bind fun _ => trivial

/-- What is read may decide how to go on, as long as the change makes no difference to it. -/
theorem Ignores.read {change : σ → σ} {f : σ → Activity σ α} (h : ∀ s, f (change s) = f s)
    (hf : ∀ s, (f s).Ignores change) : (Activity.read >>= f).Ignores change :=
  ⟨fun _ => rfl, h, hf⟩

theorem Ignores.step {change : σ → σ} {f : σ → σ × α}
    (h : ∀ s, f (change s) = (change (f s).1, (f s).2)) : (Activity.step f).Ignores change := by
  refine ⟨fun s => congrArg Prod.fst (h s), ?_, fun _ => trivial⟩
  intro s
  have hsame : (f (change s)).2 = (f s).2 := by rw [h]
  exact congrArg done hsame

/-- Work on a part of a state ignores a change of the rest. -/
theorem Ignores.zoom {change : τ → τ} {get : τ → σ} {set : σ → τ → τ}
    (hget : ∀ s, get (change s) = get s) (hset : ∀ x s, set x (change s) = change (set x s))
    (t : Activity σ α) : (t.zoom get set).Ignores change := by
  induction t with
  | done a => trivial
  | effect write next ih =>
    refine ⟨?_, ?_, fun s => ih (get s)⟩
    · intro s
      show set (write (get (change s))) (change s) = change (set (write (get s)) s)
      rw [hget, hset]
    · intro s
      exact congrArg (fun x => (next x).zoom get set) (hget s)
  | pause next ih => exact ih

theorem Ignores.secondTurn {change : σ → σ} {resume : Activity σ β → Activity σ γ}
    {conclude : β → Activity σ γ} {u : Activity σ β} (h : u.Ignores change)
    (hr : ∀ u : Activity σ β, u.Ignores change → (resume u).Ignores change)
    (hc : ∀ b, (conclude b).Ignores change) : (secondTurn resume conclude u).Ignores change := by
  induction u with
  | done b => exact hc b
  | effect write next ih =>
    refine ⟨h.1, ?_, fun s => ih s (h.2.2 s)⟩
    intro s
    exact congrArg (Activity.secondTurn resume conclude) (h.2.1 s)
  | pause next _ => exact hr next h

theorem Ignores.both {change : σ → σ} {t : Activity σ α} {u : Activity σ β}
    (ht : t.Ignores change) (hu : u.Ignores change) : (both t u).Ignores change := by
  induction t generalizing u with
  | done a => exact hu.map _
  | effect write next ih =>
    refine ⟨ht.1, ?_, fun s => ih s (ht.2.2 s) hu⟩
    intro s
    exact congrArg (fun t : Activity σ α => t.both u) (ht.2.1 s)
  | pause next ih => exact hu.secondTurn (fun u hu => ih ht hu) fun b => Ignores.map _ ht

/-- Activities that ignore a change on their own ignore it together. -/
theorem Ignores.all {change : σ → σ} {ts : List (Activity σ α)} (h : ∀ t ∈ ts, t.Ignores change) :
    (all ts).Ignores change := by
  induction ts with
  | nil => trivial
  | cons t ts ih =>
    have ht : t.Ignores change := h t List.mem_cons_self
    have hts : (Activity.all ts).Ignores change := ih fun u hu => h u (List.mem_cons_of_mem t hu)
    exact (ht.both hts).map _

end StageFlow.Activity
