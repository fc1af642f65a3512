/-!
# Association lists

Finite maps as lists of entries, looked up from the front. The order of entries is free, so that two
lists which answer every look-up alike need not be equal.

## Contents
- **Operations.** `lookup`, `insert`, `erase`.
- **Look-ups.** What `lookup` finds after each operation, and how the number of entries changes.
-/

namespace StageFlow.Assoc

variable {κ α : Type} [DecidableEq κ]

/-! ## Operations -/

/-- The value of the first entry with the key. -/
def lookup (key : κ) : List (κ × α) → Option α
  | [] => none
  | e :: es => if key = e.1 then some e.2 else lookup key es

/-- Replaces the first entry with the key where it stands, or adds an entry at the end. -/
def insert (key : κ) (value : α) : List (κ × α) → List (κ × α)
  | [] => [(key, value)]
  | e :: es => if key = e.1 then (key, value) :: es else e :: insert key value es

/-- Removes the first entry with the key. -/
def erase (key : κ) : List (κ × α) → List (κ × α)
  | [] => []
  | e :: es => if key = e.1 then es else e :: erase key es

/-! ## Look-ups -/

@[simp] theorem lookup_nil (k : κ) : lookup k ([] : List (κ × α)) = none := rfl

theorem lookup_cons (k : κ) (e : κ × α) (es : List (κ × α)) :
    lookup k (e :: es) = if k = e.1 then some e.2 else lookup k es := rfl

@[simp] theorem lookup_insert (key : κ) (value : α) (es : List (κ × α)) (k : κ) :
    lookup k (insert key value es) = if k = key then some value else lookup k es := by
  induction es with
  | nil => rfl
  | cons e es ih =>
    unfold insert
    split
    · rename_i he
      subst he
      by_cases h : k = e.1 <;> simp [lookup, h]
    · rename_i he
      by_cases h : k = e.1
      · have hk : ¬ k = key := fun hk => he (hk ▸ h)
        rw [lookup_cons, lookup_cons, if_pos h, if_neg hk, if_pos h]
      · rw [lookup_cons, lookup_cons, if_neg h, if_neg h, ih]

theorem lookup_eq_none_iff {k : κ} {es : List (κ × α)} :
    lookup k es = none ↔ k ∉ es.map (·.1) := by
  induction es with
  | nil => simp
  | cons e es ih => by_cases h : k = e.1 <;> simp [lookup, h, ih]

theorem lookup_filter_ne (key : κ) (es : List (κ × α)) (k : κ) :
    lookup k (es.filter (·.1 ≠ key)) = if k = key then none else lookup k es := by
  induction es with
  | nil => simp
  | cons e es ih =>
    by_cases he : e.1 = key
    · rw [List.filter_cons_of_neg (by simpa using he), ih, lookup_cons]
      by_cases h : k = key
      · rw [if_pos h, if_pos h]
      · have hk : ¬ k = e.1 := fun hk => h (hk.trans he)
        rw [if_neg h, if_neg h, if_neg hk]
    · rw [List.filter_cons_of_pos (by simpa using he), lookup_cons, lookup_cons, ih]
      by_cases h : k = key
      · have hk : ¬ k = e.1 := fun hk => he (hk.symm.trans h)
        rw [if_neg hk, if_pos h, if_pos h]
      · rw [if_neg h, if_neg h]

end StageFlow.Assoc
