import Mathlib.Data.List.Nodup
import StageFlow.Proofs.ByteOrder
import StageFlow.Proofs.SortedMap

/-!
# Stored results

A stored result keeps its outputs in no particular order, and the object made of it has them by name. Nothing
is lost between the two: which object it is does not depend on the order, and the object has the same
outputs.

## Contents
- **Entries.** Lists of entries with distinct keys and the same look-ups, `Assoc.perm_iff_lookup`.
- **Results.** When a result gives an object, and `NodeResult.survives_storage`.
-/

namespace StageFlow

/-! ## Entries -/

namespace Assoc

variable {κ α : Type} [DecidableEq κ] {es fs : List (κ × α)}

/-- With distinct keys an entry is found under its key. -/
theorem lookup_eq_some_iff (h : (es.map (·.1)).Nodup) {k : κ} {a : α} :
    lookup k es = some a ↔ (k, a) ∈ es := by
  induction es with
  | nil => simp
  | cons e es ih =>
    rw [List.map_cons, List.nodup_cons] at h
    rw [lookup_cons, List.mem_cons]
    by_cases hk : k = e.1
    · have hout : (k, a) ∉ es := fun hmem => h.1 (hk ▸ List.mem_map_of_mem hmem)
      rw [if_pos hk, Option.some.injEq, or_iff_left hout, hk]
      exact ⟨fun ha => ha ▸ rfl, fun he => (congrArg Prod.snd he).symm⟩
    · have hne : (k, a) ≠ e := fun he => hk (congrArg Prod.fst he)
      rw [if_neg hk, or_iff_right hne, ih h.2]

/-- **Two lists of entries with distinct keys are the same but for the order** if they have the same
look-ups. -/
theorem perm_iff_lookup (he : (es.map (·.1)).Nodup) (hf : (fs.map (·.1)).Nodup) :
    es.Perm fs ↔ ∀ k, lookup k es = lookup k fs := by
  rw [List.perm_ext_iff_of_nodup (List.Nodup.of_map _ he) (List.Nodup.of_map _ hf)]
  constructor
  · intro h k
    apply Option.ext
    intro a
    rw [lookup_eq_some_iff he, lookup_eq_some_iff hf, h]
  · rintro h ⟨k, a⟩
    rw [← lookup_eq_some_iff he, ← lookup_eq_some_iff hf, h]

end Assoc

/-! ## Results -/

namespace NodeResult

variable {r : NodeResult} {o : Object}

/-- **A result gives the object that has its entries in order.** -/
theorem toObject_eq_iff : r.toObject = o ↔ r.entries.Perm o.entries := by
  rw [Assoc.perm_iff_lookup r.distinct o.nodup_keys]
  constructor
  · rintro rfl k
    exact (r.get?_toObject k).symm
  · intro h
    apply SortedMap.ext_get?
    intro k
    rw [get?_toObject]
    exact h k

theorem perm_entries_toObject (r : NodeResult) : r.toObject.entries.Perm r.entries :=
  (toObject_eq_iff.mp rfl).symm

/-- The entries, sorted by the names of the outputs. -/
def sorted (r : NodeResult) : List (String × Value) := r.entries.mergeSort fun a b => a.1 ≤ b.1

theorem perm_sorted (r : NodeResult) : r.sorted.Perm r.entries := List.mergeSort_perm r.entries _

theorem ascending_sorted (r : NodeResult) : r.sorted.Pairwise fun a b => a.1 ≤ b.1 := by
  have hsorted : r.sorted.Pairwise fun a b => decide (a.1 ≤ b.1) = true := by
    refine List.pairwise_mergeSort ?_ ?_ r.entries
    · intro a b c hab hbc
      rw [decide_eq_true_iff] at hab hbc ⊢
      exact String.le_trans hab hbc
    · intro a b
      rw [Bool.or_eq_true, decide_eq_true_iff, decide_eq_true_iff]
      exact String.le_total a.1 b.1
  exact hsorted.imp of_decide_eq_true

/-- The object is made by sorting the entries. -/
theorem entries_toObject (r : NodeResult) : r.toObject.entries = r.sorted := by
  have hascending : r.toObject.entries.Pairwise fun a b => a.1 ≤ b.1 :=
    r.toObject.ascending.imp fun h => String.not_lt.mp (String.lt_asymm h)
  refine List.Perm.eq_of_pairwise ?_ hascending r.ascending_sorted
    (r.perm_entries_toObject.trans r.perm_sorted.symm)
  -- entries with the same name are the same
  rintro ⟨k, v⟩ ⟨k', v'⟩ hv hv' hle hge
  obtain rfl : k = k' := String.le_antisymm hle hge
  rw [r.perm_entries_toObject.mem_iff, ← Assoc.lookup_eq_some_iff r.distinct] at hv
  rw [r.perm_sorted.mem_iff, ← Assoc.lookup_eq_some_iff r.distinct, hv] at hv'
  rw [Option.some.inj hv']

/-- **Outputs survive being stored,** whatever the order in which they are kept.

A result made of an object gives it back, in every order of its entries, and a result with other entries does
not. The object of a result has the entries of the result, sorted by name: their names ascend in the order of
their bytes, and none comes twice. A result made of it has the same entries, so that it answers every look-up
alike. -/
theorem survives_storage :
    (∀ o : Object, (ofObject o).toObject = o
        ∧ ∀ r : NodeResult, r.toObject = o ↔ r.entries.Perm (ofObject o).entries)
      ∧ ∀ r : NodeResult,
        (∀ other : NodeResult, other.toObject = r.toObject ↔ other.entries.Perm r.entries)
          ∧ r.toObject.entries.Perm r.entries
          ∧ r.toObject.entries = r.sorted
          ∧ r.toObject.keys.Pairwise (fun a b => Text.bytes a < Text.bytes b)
          ∧ (ofObject r.toObject).entries.Perm r.entries
          ∧ ∀ output, (ofObject r.toObject).get? output = r.get? output := by
  refine ⟨fun o => ⟨toObject_ofObject o, fun r => toObject_eq_iff⟩, fun r => ⟨?_, ?_, ?_, ?_, ?_, ?_⟩⟩
  · intro other
    rw [toObject_eq_iff]
    exact ⟨fun h => h.trans r.perm_entries_toObject, fun h => h.trans r.perm_entries_toObject.symm⟩
  · exact r.perm_entries_toObject
  · exact r.entries_toObject
  · rw [SortedMap.keys, List.pairwise_map]
    exact r.toObject.ascending.imp Text.bytes_lt_iff.mpr
  · exact r.perm_entries_toObject
  · intro output
    rw [get?_ofObject, get?_toObject]

end NodeResult

end StageFlow
