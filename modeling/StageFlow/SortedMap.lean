import StageFlow.Assoc

/-!
# Maps kept in key order

A finite map from text to values, held as the list of its entries in strictly ascending key order.
There is one such list for each map, so two maps with the same look-ups are equal.

## Contents
- **Type.** `SortedMap`, with the order of its keys as part of the type.
- **Operations.** `get?`, `insert`, `erase`, `ofEntries`, `map`.
- **Look-ups.** One lemma for each operation, through `get?`.
-/

namespace StageFlow

/-- A map from text to `α`; keys ascend by code point, which is also the order of their UTF-8 bytes. -/
structure SortedMap (α : Type) where
  entries : List (String × α)
  ascending : entries.Pairwise fun a b => a.1 < b.1

namespace SortedMap

variable {α β : Type}

/-! ## Insertion into the entry list -/

/-- Puts an entry at its place, over an entry with the same key. -/
def insertEntry (key : String) (value : α) : List (String × α) → List (String × α)
  | [] => [(key, value)]
  | e :: es =>
    if key < e.1 then (key, value) :: e :: es
    else if key = e.1 then (key, value) :: es
    else e :: insertEntry key value es

theorem key_of_mem_insertEntry {key : String} {value : α} {es : List (String × α)}
    {e : String × α} (h : e ∈ insertEntry key value es) : e.1 = key ∨ e ∈ es := by
  induction es with
  | nil => simp only [insertEntry, List.mem_singleton] at h; exact .inl (by rw [h])
  | cons x xs ih =>
    unfold insertEntry at h
    split at h
    · rcases List.mem_cons.1 h with rfl | h
      · exact .inl rfl
      · exact .inr h
    · split at h
      · rcases List.mem_cons.1 h with rfl | h
        · exact .inl rfl
        · exact .inr (List.mem_cons_of_mem _ h)
      · rcases List.mem_cons.1 h with rfl | h
        · exact .inr List.mem_cons_self
        · rcases ih h with hk | hm
          · exact .inl hk
          · exact .inr (List.mem_cons_of_mem _ hm)

theorem lt_of_not_lt_of_ne {a b : String} (hlt : ¬ a < b) (hne : ¬ a = b) : b < a := by
  rcases Std.lt_trichotomy a b with h | h | h
  · exact absurd h hlt
  · exact absurd h hne
  · exact h

theorem ascending_insertEntry {key : String} {value : α} {es : List (String × α)}
    (h : es.Pairwise fun a b => a.1 < b.1) :
    (insertEntry key value es).Pairwise fun a b => a.1 < b.1 := by
  induction es with
  | nil => simp [insertEntry]
  | cons x xs ih =>
    have hx := List.pairwise_cons.1 h
    unfold insertEntry
    split
    · rename_i hlt
      refine List.pairwise_cons.2 ⟨fun e he => ?_, h⟩
      rcases List.mem_cons.1 he with rfl | he
      · exact hlt
      · exact String.lt_trans hlt (hx.1 e he)
    · split
      · rename_i heq
        exact List.pairwise_cons.2 ⟨fun e he => by simpa [heq] using hx.1 e he, hx.2⟩
      · rename_i hlt hne
        refine List.pairwise_cons.2 ⟨fun e he => ?_, ih hx.2⟩
        rcases key_of_mem_insertEntry he with hk | hm
        · rw [hk]; exact lt_of_not_lt_of_ne hlt hne
        · exact hx.1 e hm

/-! ## Operations -/

/-- The map without entries. -/
def empty : SortedMap α := ⟨[], .nil⟩

instance : EmptyCollection (SortedMap α) := ⟨empty⟩

instance : Inhabited (SortedMap α) := ⟨empty⟩

/-- The value stored under a key. -/
def get? (m : SortedMap α) (key : String) : Option α := Assoc.lookup key m.entries

/-- Does the map have an entry for the key? -/
def contains (m : SortedMap α) (key : String) : Bool := (m.get? key).isSome

/-- Stores a value under a key, in place of any value stored there before. -/
def insert (m : SortedMap α) (key : String) (value : α) : SortedMap α :=
  ⟨insertEntry key value m.entries, ascending_insertEntry m.ascending⟩

/-- Removes the entry of a key, if there is one. -/
def erase (m : SortedMap α) (key : String) : SortedMap α :=
  ⟨m.entries.filter (·.1 ≠ key), m.ascending.filter _⟩

/-- Adds entries one after the other, so that the last entry of a key wins. -/
def insertAll (m : SortedMap α) (entries : List (String × α)) : SortedMap α :=
  entries.foldl (fun m e => m.insert e.1 e.2) m

/-- The map of a list of entries; the last entry of a key wins. -/
def ofEntries (entries : List (String × α)) : SortedMap α := empty.insertAll entries

/-- How many entries the map has. -/
def size (m : SortedMap α) : Nat := m.entries.length

/-- Does the map have no entry? -/
def isEmpty (m : SortedMap α) : Bool := m.entries.isEmpty

/-- The keys, in ascending order. -/
def keys (m : SortedMap α) : List String := m.entries.map (·.1)

/-- The keys are distinct, since they ascend. -/
theorem nodup_keys (m : SortedMap α) : m.keys.Nodup := by
  rw [keys, List.Nodup, List.pairwise_map]
  refine m.ascending.imp ?_
  intro a b hlt heq
  rw [heq] at hlt
  exact String.lt_irrefl _ hlt

/-! ## Look-ups -/

theorem lookup_insertEntry (key : String) (value : α) (es : List (String × α)) (k : String) :
    Assoc.lookup k (insertEntry key value es) = if k = key then some value else Assoc.lookup k es := by
  induction es with
  | nil => rfl
  | cons e es ih =>
    unfold insertEntry
    split
    · simp [Assoc.lookup_cons]
    · split
      · rename_i he
        subst he
        by_cases h : k = e.1 <;> simp [Assoc.lookup_cons, h]
      · rename_i he
        by_cases h : k = e.1
        · have hk : ¬ k = key := fun hk => he (hk ▸ h)
          rw [Assoc.lookup_cons, Assoc.lookup_cons, if_pos h, if_neg hk, if_pos h]
        · rw [Assoc.lookup_cons, Assoc.lookup_cons, if_neg h, if_neg h, ih]

@[simp] theorem get?_empty (k : String) : (empty : SortedMap α).get? k = none := rfl

@[simp] theorem get?_insert (m : SortedMap α) (key : String) (value : α) (k : String) :
    (m.insert key value).get? k = if k = key then some value else m.get? k :=
  lookup_insertEntry key value m.entries k

@[simp] theorem get?_erase (m : SortedMap α) (key k : String) :
    (m.erase key).get? k = if k = key then none else m.get? k :=
  Assoc.lookup_filter_ne key m.entries k

end SortedMap

end StageFlow
