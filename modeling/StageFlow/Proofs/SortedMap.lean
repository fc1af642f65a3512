import StageFlow.Cache

/-!
# Maps from their look-ups

Two maps that answer every look-up alike are the same map, and so are two caches. This is what lets a
statement about results be proved one identifier at a time.

## Contents
- **Maps.** `SortedMap.ext_get?`.
- **Results and caches.** `Cache.ext_get?`, look-ups of stored objects, and when an object tells of a failure.
-/

namespace StageFlow

/-! ## Maps -/

namespace SortedMap

variable {α : Type}

/-- A key before all keys of a list is not found in it. -/
theorem lookup_eq_none_of_lt {k : String} {es : List (String × α)} (h : ∀ e ∈ es, k < e.1) :
    Assoc.lookup k es = none := by
  rw [Assoc.lookup_eq_none_iff]
  intro hk
  obtain ⟨e, he, heq⟩ := List.mem_map.mp hk
  exact String.lt_irrefl k (by simpa [heq] using h e he)

/-- The first keys of two ascending lists with the same look-ups cannot differ: the smaller one would be
missing from the other list. -/
theorem not_lt_of_lookup_eq {d e : String × α} {ds es : List (String × α)}
    (hd : ∀ x ∈ ds, d.1 < x.1)
    (h : Assoc.lookup e.1 (d :: ds) = Assoc.lookup e.1 (e :: es)) : ¬ e.1 < d.1 := by
  intro hlt
  have hne : ¬ e.1 = d.1 := fun heq => String.lt_irrefl d.1 (by rw [heq] at hlt; exact hlt)
  have hnone : Assoc.lookup e.1 ds = none :=
    lookup_eq_none_of_lt fun x hx => String.lt_trans hlt (hd x hx)
  rw [Assoc.lookup_cons, Assoc.lookup_cons, if_neg hne, if_pos rfl, hnone] at h
  exact absurd h (by simp)

theorem entries_eq_of_lookup_eq {l₁ l₂ : List (String × α)}
    (h₁ : l₁.Pairwise fun a b => a.1 < b.1) (h₂ : l₂.Pairwise fun a b => a.1 < b.1)
    (h : ∀ k, Assoc.lookup k l₁ = Assoc.lookup k l₂) : l₁ = l₂ := by
  induction l₁ generalizing l₂ with
  | nil =>
    cases l₂ with
    | nil => rfl
    | cons e es => exact absurd (h e.1) (by simp [Assoc.lookup_cons])
  | cons d ds ih =>
    cases l₂ with
    | nil => exact absurd (h d.1) (by simp [Assoc.lookup_cons])
    | cons e es =>
      have hd := List.pairwise_cons.mp h₁
      have he := List.pairwise_cons.mp h₂
      have hkey : d.1 = e.1 := by
        rcases Std.lt_trichotomy d.1 e.1 with hlt | heq | hgt
        · exact absurd hlt (not_lt_of_lookup_eq he.1 (h d.1).symm)
        · exact heq
        · exact absurd hgt (not_lt_of_lookup_eq hd.1 (h e.1))
      have hval : d.2 = e.2 := by
        have := h d.1
        rw [Assoc.lookup_cons, Assoc.lookup_cons, if_pos rfl, if_pos hkey] at this
        exact Option.some.inj this
      have htail : ds = es := by
        apply ih hd.2 he.2
        intro k
        by_cases hk : k = d.1
        · rw [hk, lookup_eq_none_of_lt hd.1, hkey, lookup_eq_none_of_lt he.1]
        · have := h k
          rwa [Assoc.lookup_cons, Assoc.lookup_cons, if_neg hk, if_neg (hkey ▸ hk)] at this
      rw [htail, Prod.ext hkey hval]

/-- **A map is what its look-ups are.** -/
theorem ext_get? {m n : SortedMap α} (h : ∀ k, m.get? k = n.get? k) : m = n := by
  obtain ⟨l₁, h₁⟩ := m
  obtain ⟨l₂, h₂⟩ := n
  have : l₁ = l₂ := entries_eq_of_lookup_eq h₁ h₂ h
  subst this
  rfl

/-- With distinct keys the order in which entries are added does not matter. -/
theorem get?_insertAll {es : List (String × α)} (hd : (es.map (·.1)).Nodup) (m : SortedMap α) (k : String) :
    (m.insertAll es).get? k = (Assoc.lookup k es).or (m.get? k) := by
  induction es generalizing m with
  | nil => rfl
  | cons e es ih =>
    rw [List.map_cons, List.nodup_cons] at hd
    show ((m.insert e.1 e.2).insertAll es).get? k = _
    rw [ih hd.2, get?_insert, Assoc.lookup_cons]
    by_cases hk : k = e.1
    · have hnone : Assoc.lookup k es = none := by
        rw [hk]
        exact Assoc.lookup_eq_none_iff.mpr hd.1
      rw [if_pos hk, if_pos hk, hnone, Option.none_or, Option.some_or]
    · rw [if_neg hk, if_neg hk]

end SortedMap

/-! ## Results and caches -/

/-- A cache is what its look-ups are. -/
theorem Cache.ext_get? {c d : Cache} (h : ∀ id, c.get? id = d.get? id) : c = d := by
  obtain ⟨m⟩ := c
  obtain ⟨n⟩ := d
  have : m = n := SortedMap.ext_get? fun k => h ⟨k⟩
  rw [this]

theorem Cache.has_iff {c : Cache} {id : NodeId} : c.has id = true ↔ ∃ r, c.get? id = some r :=
  Option.isSome_iff_exists

theorem Cache.has_eq_false_iff {c : Cache} {id : NodeId} : c.has id = false ↔ c.get? id = none := by
  simp [Cache.has]

@[simp] theorem NodeResult.get?_ofObject (o : Object) (output : String) :
    (NodeResult.ofObject o).get? output = o.get? output := rfl

/-- The object of a result has its outputs. -/
@[simp] theorem NodeResult.get?_toObject (r : NodeResult) (output : String) :
    r.toObject.get? output = r.get? output := by
  show (SortedMap.empty.insertAll r.entries).get? output = r.get? output
  rw [SortedMap.get?_insertAll r.distinct, SortedMap.get?_empty, Option.or_none]
  rfl

/-- **A result gives back the object that it was made from.** -/
@[simp] theorem NodeResult.toObject_ofObject (o : Object) : (NodeResult.ofObject o).toObject = o := by
  apply SortedMap.ext_get?
  intro k
  rw [NodeResult.get?_toObject, NodeResult.get?_ofObject]

/-- An object has a message of failure just if it tells of a failure. -/
theorem errorMessage?_eq_none_iff {o : Object} : errorMessage? o = none ↔ isError o = false := by
  simp [errorMessage?, isError, SortedMap.contains]

end StageFlow
