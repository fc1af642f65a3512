import Mathlib.Data.List.Nodup
import Mathlib.Data.List.Perm.Subperm
import StageFlow.KeyedVec

/-!
# Laws of vectors with keys

As long as nobody changes a key behind the index, positions and items agree, and then a keyed vector is
its list of items with distinct keys: no operation breaks off, and each look-up is a linear search.

## Contents
- **Agreement.** `Indexed`, a fact about the list of keys and the positions alone.
- **Reading.** `find?`, the linear search, and what the other readers give under agreement.
- **Writing.** `replace` is what writing in place amounts to; `push` and `insertWith` add at the end.
- **Numbering.** What positions there are after `renumber`, and vectors made by `ofItems?`.
- **Removing.** `erase` moves the items behind the removed one up.
-/

namespace StageFlow

/-! ## Agreement -/

namespace Assoc

variable {κ α : Type} [DecidableEq κ]

/-- An entry for a new key makes the list longer by one. -/
theorem length_insert_of_lookup_eq_none {key : κ} {value : α} {es : List (κ × α)}
    (h : lookup key es = none) : (insert key value es).length = es.length + 1 := by
  induction es with
  | nil => rfl
  | cons e es ih =>
    rw [lookup_cons] at h
    split at h
    · exact absurd h (by simp)
    · rename_i hne
      unfold insert
      rw [if_neg hne, List.length_cons, ih h, List.length_cons]

/-- A new value for a key that has an entry leaves the list as long as it was. -/
theorem length_insert_of_lookup_isSome {key : κ} {value : α} {es : List (κ × α)}
    (h : (lookup key es).isSome) : (insert key value es).length = es.length := by
  induction es with
  | nil => exact absurd h (by simp)
  | cons e es ih =>
    rw [lookup_cons] at h
    unfold insert
    split
    · rfl
    · rename_i hne
      rw [if_neg hne] at h
      rw [List.length_cons, ih h, List.length_cons]

theorem lookup_insert_eq_none {key : κ} {value : α} {es : List (κ × α)} {k : κ} :
    lookup k (insert key value es) = none ↔ k ≠ key ∧ lookup k es = none := by
  rw [lookup_insert]
  split <;> simp [*]

theorem length_erase_of_lookup_isSome {key : κ} {es : List (κ × α)}
    (h : (lookup key es).isSome) : (erase key es).length + 1 = es.length := by
  induction es with
  | nil => exact absurd h (by simp)
  | cons e es ih =>
    rw [lookup_cons] at h
    unfold erase
    split
    · rfl
    · rename_i hne
      rw [if_neg hne] at h
      rw [List.length_cons, ih h, List.length_cons]

/-- With distinct keys an erased key is gone. -/
theorem lookup_erase {es : List (κ × α)} (hd : (es.map (·.1)).Nodup) (key k : κ) :
    lookup k (erase key es) = if k = key then none else lookup k es := by
  induction es with
  | nil => simp [erase]
  | cons e es ih =>
    rw [List.map_cons, List.nodup_cons] at hd
    unfold erase
    split
    · rename_i he
      subst he
      rw [lookup_cons]
      by_cases hk : k = e.1
      · rw [if_pos hk, hk, lookup_eq_none_iff.mpr hd.1]
      · rw [if_neg hk, if_neg hk]
    · rename_i he
      rw [lookup_cons, lookup_cons, ih hd.2]
      by_cases hk : k = e.1
      · have hne : ¬ k = key := fun h => he (h.symm.trans hk)
        rw [if_pos hk, if_neg hne, if_pos hk]
      · rw [if_neg hk, if_neg hk]

end Assoc

namespace KeyedVec

variable {κ α β : Type} [DecidableEq κ] [Keyed κ α]

/-- The keys in the order of the items. -/
def keys (v : KeyedVec κ α) : List κ := v.items.map Keyed.key

/-- Positions and items agree: there are as many of both, and the position noted for a key is that of the
item which has it. -/
structure Indexed (v : KeyedVec κ α) : Prop where
  sizes : v.items.length = v.positions.length
  position?_eq_some : ∀ key i, v.position? key = some i ↔ v.keys[i]? = some key

theorem Indexed.empty : (KeyedVec.empty : KeyedVec κ α).Indexed :=
  ⟨rfl, fun key i => by simp [KeyedVec.empty, position?, keys]⟩

/-- Agreement only concerns keys and positions. -/
theorem Indexed.of_keys {v w : KeyedVec κ α} (h : v.Indexed) (hp : w.positions = v.positions)
    (hk : w.keys = v.keys) : w.Indexed := by
  refine ⟨?_, ?_⟩
  · have hlen : w.items.length = v.items.length := by simpa [keys] using congrArg List.length hk
    rw [hlen, hp, h.sizes]
  · intro key i
    rw [hk, ← h.position?_eq_some, position?, position?, hp]

/-- No key comes twice. -/
theorem Indexed.nodup_keys {v : KeyedVec κ α} (h : v.Indexed) : v.keys.Nodup := by
  rw [List.nodup_iff_getElem?_ne_getElem?]
  intro i j hij hj heq
  have hkey : v.keys[j]? = some v.keys[j] := List.getElem?_eq_getElem hj
  have hi := (h.position?_eq_some _ i).mpr (heq.trans hkey)
  have hj' := (h.position?_eq_some _ j).mpr hkey
  rw [hi] at hj'
  exact absurd (Option.some.inj hj') (Nat.ne_of_lt hij)

/-- The positions have the keys of the items. -/
theorem Indexed.nodup_positions {v : KeyedVec κ α} (h : v.Indexed) :
    (v.positions.map (·.1)).Nodup := by
  have hsub : v.keys ⊆ v.positions.map (·.1) := by
    intro key hkey
    obtain ⟨i, hi⟩ := List.getElem?_of_mem hkey
    have hp := (h.position?_eq_some key i).mpr hi
    by_contra hout
    rw [position?, Assoc.lookup_eq_none_iff.mpr hout] at hp
    exact absurd hp (by simp)
  have hlen : (v.positions.map (·.1)).length = v.keys.length := by
    rw [List.length_map, keys, List.length_map, h.sizes]
  have hperm := (h.nodup_keys.subperm hsub).perm_of_length_le (Nat.le_of_eq hlen)
  exact hperm.nodup_iff.mp h.nodup_keys

/-! ## Reading -/

/-- The first item with a key, searched for from the front. -/
def find? (v : KeyedVec κ α) (key : κ) : Option α := v.items.find? fun a => Keyed.key a = key

theorem key_of_find? {v : KeyedVec κ α} {key : κ} {a : α} (h : v.find? key = some a) :
    Keyed.key a = key := by
  simpa using List.find?_some h

theorem mem_of_find? {v : KeyedVec κ α} {key : κ} {a : α} (h : v.find? key = some a) :
    a ∈ v.items :=
  List.mem_of_find?_eq_some h

theorem find?_eq_none_iff {v : KeyedVec κ α} {key : κ} : v.find? key = none ↔ key ∉ v.keys := by
  simp [find?, keys]

/-- With distinct keys an item is what a search for its key finds. -/
theorem Indexed.find?_key {v : KeyedVec κ α} (h : v.Indexed) {a : α} (ha : a ∈ v.items) :
    v.find? (Keyed.key a) = some a := by
  cases hf : v.find? (Keyed.key a) with
  | none => exact absurd (List.mem_map.mpr ⟨a, ha, rfl⟩) (find?_eq_none_iff.mp hf)
  | some b =>
    have hkey : Keyed.key b = Keyed.key a := key_of_find? hf
    rw [List.inj_on_of_nodup_map h.nodup_keys (mem_of_find? hf) ha hkey]

/-- With distinct keys the item that a search finds is the only one with its key. -/
theorem Indexed.filter_key {v : KeyedVec κ α} (h : v.Indexed) {key : κ} {a : α}
    (ha : v.find? key = some a) : (v.items.filter fun b => Keyed.key b = key) = [a] := by
  have hnodup : (v.items.map Keyed.key).Nodup := h.nodup_keys
  unfold find? at ha
  generalize v.items = as at hnodup ha
  induction as with
  | nil => exact absurd ha (by simp)
  | cons b as ih =>
    rw [List.map_cons, List.nodup_cons] at hnodup
    by_cases hb : Keyed.key b = key
    · have hrest : (as.filter fun b => Keyed.key b = key) = [] := by
        rw [List.filter_eq_nil_iff]
        intro d hd hkey
        apply hnodup.1
        rw [hb, ← of_decide_eq_true hkey]
        exact List.mem_map_of_mem hd
      rw [List.find?_cons_of_pos (by simpa using hb)] at ha
      rw [List.filter_cons_of_pos (by simpa using hb), hrest, Option.some.inj ha]
    · rw [List.find?_cons_of_neg (by simpa using hb)] at ha
      rw [List.filter_cons_of_neg (by simpa using hb)]
      exact ih hnodup.2 ha

/-- Items can be counted by their keys. -/
theorem Indexed.countP_items {v : KeyedVec κ α} (h : v.Indexed) (p : α → Bool) :
    v.items.countP p = v.keys.countP fun key => (v.find? key).any p := by
  unfold keys
  rw [List.countP_map]
  apply List.countP_congr
  intro a ha
  simp [h.find?_key ha]

/-- The position noted for a key is that of an item with the key. -/
theorem Indexed.exists_of_position? {v : KeyedVec κ α} (h : v.Indexed) {key : κ} {i : Nat}
    (hi : v.position? key = some i) : ∃ a, v.items[i]? = some a ∧ Keyed.key a = key := by
  have hkey : v.keys[i]? = some key := (h.position?_eq_some key i).mp hi
  rwa [keys, List.getElem?_map, Option.map_eq_some_iff] at hkey

/-- The position noted for a key leads to the item that a search finds. -/
theorem Indexed.getElem?_position {v : KeyedVec κ α} (h : v.Indexed) {key : κ} {i : Nat}
    (hi : v.position? key = some i) : v.items[i]? = v.find? key := by
  obtain ⟨a, ha, rfl⟩ := h.exists_of_position? hi
  rw [ha, h.find?_key (List.mem_of_getElem? ha)]

theorem Indexed.position?_eq_none {v : KeyedVec κ α} (h : v.Indexed) {key : κ} :
    v.position? key = none ↔ v.find? key = none := by
  rw [find?_eq_none_iff, Option.eq_none_iff_forall_ne_some]
  constructor
  · intro hne hmem
    obtain ⟨i, hi⟩ := List.getElem?_of_mem hmem
    exact hne i ((h.position?_eq_some key i).mpr hi)
  · intro hmem i hi
    exact hmem (List.mem_of_getElem? ((h.position?_eq_some key i).mp hi))

/-- **Under agreement a look-up is a linear search.** -/
theorem Indexed.get?_eq {v : KeyedVec κ α} (h : v.Indexed) (key : κ) :
    v.get? key = .ok (v.find? key) := by
  unfold get?
  split
  · rename_i hp
    rw [h.position?_eq_none.mp hp]
  · rename_i i hp
    obtain ⟨a, ha, _⟩ := h.exists_of_position? hp
    unfold at?
    rw [ha, ← h.getElem?_position hp, ha]
    rfl

/-- A key is at one place only. -/
theorem Indexed.place_unique {v : KeyedVec κ α} (h : v.Indexed) {key : κ} {i j : Nat}
    (hi : v.keys[i]? = some key) (hj : v.keys[j]? = some key) : i = j := by
  rw [← h.position?_eq_some] at hi hj
  exact Option.some.inj (hi.symm.trans hj)

/-- The position of a key is where a search finds it. -/
theorem Indexed.position?_eq {v : KeyedVec κ α} (h : v.Indexed) (key : κ) :
    v.position? key = v.items.findIdx? fun a => Keyed.key a = key := by
  refine Option.ext fun i => ?_
  rw [h.position?_eq_some, List.findIdx?_eq_some_iff_getElem, keys, List.getElem?_map,
    Option.map_eq_some_iff]
  simp only [decide_eq_true_eq]
  constructor
  · rintro ⟨a, ha, rfl⟩
    obtain ⟨hlt, rfl⟩ := List.getElem?_eq_some_iff.mp ha
    refine ⟨hlt, rfl, fun j hji hj => ?_⟩
    have hi : v.keys[i]? = some (Keyed.key v.items[i]) := by
      rw [keys, List.getElem?_map, ha, Option.map_some]
    have hj : v.keys[j]? = some (Keyed.key v.items[i]) := by
      rw [keys, List.getElem?_map, List.getElem?_eq_getElem (Nat.lt_trans hji hlt), Option.map_some, hj]
    exact absurd (h.place_unique hi hj) (Nat.ne_of_gt hji)
  · rintro ⟨hlt, hkey, _⟩
    exact ⟨v.items[i], List.getElem?_eq_getElem hlt, hkey⟩

theorem Indexed.contains_eq {v : KeyedVec κ α} (h : v.Indexed) (key : κ) :
    v.contains key = (v.find? key).isSome := by
  rw [contains, Bool.eq_iff_iff, Option.isSome_iff_ne_none, Option.isSome_iff_ne_none, Ne, Ne,
    h.position?_eq_none]

theorem validateFrom_eq_ok {v : KeyedVec κ α} {as : List α} {start : Nat}
    (h : ∀ i a, as[i]? = some a → v.position? (Keyed.key a) = some (start + i)) :
    v.validateFrom start as = .ok () := by
  induction as generalizing start with
  | nil => rfl
  | cons a as ih =>
    have ha : v.position? (Keyed.key a) = some start := h 0 a rfl
    unfold validateFrom
    rw [if_pos ha]
    apply ih
    intro i b hb
    rw [h (i + 1) b hb]
    congr 1
    omega

/-- Validation does not break off. -/
theorem Indexed.validate_eq {v : KeyedVec κ α} (h : v.Indexed) : v.validate = .ok () := by
  have hfrom : v.validateFrom 0 v.items = .ok () := by
    apply validateFrom_eq_ok
    intro i a ha
    rw [Nat.zero_add, h.position?_eq_some, keys, List.getElem?_map, ha]
    rfl
  unfold validate size
  rw [if_pos h.sizes]
  exact hfrom

/-! ## Writing -/

/-- The vector with an item in the place of the one with its key. -/
def replace (v : KeyedVec κ α) (b : α) : KeyedVec κ α :=
  { v with items := v.items.map fun a => if Keyed.key a = Keyed.key b then b else a }

/-- Whatever `g` shows alike of the new item and of the one it replaces is as before. -/
theorem map_items_replace {v : KeyedVec κ α} {b : α} {g : α → β}
    (hg : ∀ a ∈ v.items, Keyed.key a = Keyed.key b → g a = g b) :
    (v.replace b).items.map g = v.items.map g := by
  unfold replace
  rw [List.map_map]
  apply List.map_congr_left
  intro a ha
  show g (if Keyed.key a = Keyed.key b then b else a) = g a
  split
  · rename_i hkey
    exact (hg a ha hkey).symm
  · rfl

@[simp] theorem keys_replace (v : KeyedVec κ α) (b : α) : (v.replace b).keys = v.keys :=
  map_items_replace fun _ _ h => h

theorem Indexed.replace {v : KeyedVec κ α} (h : v.Indexed) (b : α) : (v.replace b).Indexed :=
  h.of_keys rfl (keys_replace v b)

@[simp] theorem find?_replace (v : KeyedVec κ α) (b : α) (key : κ) :
    (v.replace b).find? key
      = if key = Keyed.key b then (v.find? key).map fun _ => b else v.find? key := by
  unfold find? KeyedVec.replace
  generalize v.items = as
  -- three keys are in play: the one looked for, that of `b`, and that of the first item
  induction as with
  | nil => simp
  | cons a as ih =>
    rw [List.map_cons, List.find?_cons, List.find?_cons, ih]
    by_cases hab : Keyed.key a = Keyed.key b
    · by_cases hk : key = Keyed.key b
      · simp [hab, hk]
      · have hne : ¬ Keyed.key b = key := fun he => hk he.symm
        simp [hab, hk, hne]
    · by_cases hk : key = Keyed.key b
      · simp [hab, hk]
      · simp [hab, hk]

/-- Writing to the item of a key in place replaces it, as long as the key stays. -/
theorem Indexed.modifyKey_eq {v : KeyedVec κ α} (h : v.Indexed) {key : κ} {a : α}
    (ha : v.find? key = some a) {b : α} (hb : Keyed.key b = key) :
    v.modifyKey key (fun _ => b) = .ok (v.replace b, true) := by
  subst hb
  cases hp : v.position? (Keyed.key b) with
  | none => exact absurd (h.position?_eq_none.mp hp) (by simp [ha])
  | some i =>
    have hi : v.items[i]? = some a := (h.getElem?_position hp).trans ha
    have hlt : i < v.items.length := (List.getElem?_eq_some_iff.mp hi).1
    have hitems : v.items.modify i (fun _ => b)
        = v.items.map fun c => if Keyed.key c = Keyed.key b then b else c := by
      refine List.ext_getElem? ?_
      intro j
      rw [List.getElem?_modify, List.getElem?_map]
      cases hj : v.items[j]? with
      | none => rfl
      | some c =>
        -- the item at another place has another key
        have hiff : i = j ↔ Keyed.key c = Keyed.key b := by
          rw [← Option.some.injEq i j, ← hp, h.position?_eq_some, keys, List.getElem?_map, hj]
          simp
        by_cases hij : i = j
        · simp [hij, hiff.mp hij]
        · have hne : ¬ Keyed.key c = Keyed.key b := fun he => hij (hiff.mpr he)
          simp [hij, hne]
    unfold modifyKey
    rw [hp]
    show (v.setAt i fun _ => b).map (fun v => (v, true)) = _
    unfold setAt
    rw [if_pos hlt, hitems]
    rfl

theorem find?_mapItems {v : KeyedVec κ α} {f : α → α} (hf : ∀ a, Keyed.key (f a) = Keyed.key a)
    (key : κ) : (v.mapItems f).find? key = (v.find? key).map f := by
  unfold find? mapItems
  rw [List.find?_map]
  congr 2
  funext a
  simp [hf]

/-- Writing to an item in place is harmless if its key stays. -/
theorem Indexed.modify {v : KeyedVec κ α} (h : v.Indexed) {i : Nat} {f : α → α}
    (hf : ∀ a, v.items[i]? = some a → Keyed.key (f a) = Keyed.key a) :
    ({ v with items := v.items.modify i f } : KeyedVec κ α).Indexed := by
  refine h.of_keys rfl (List.ext_getElem? fun j => ?_)
  rw [keys, keys, List.getElem?_map, List.getElem?_modify, List.getElem?_map]
  cases hj : v.items[j]? with
  | none => rfl
  | some a =>
    by_cases hij : i = j
    · subst hij
      simp [hf a hj]
    · simp [hij]

/-- The item at an index is written to in place. -/
theorem Indexed.setAt {v : KeyedVec κ α} (h : v.Indexed) {i : Nat} {f : α → α} {a : α}
    (ha : v.items[i]? = some a) (hf : Keyed.key (f a) = Keyed.key a) :
    ∃ w, v.setAt i f = .ok w ∧ w.Indexed ∧ w.items = v.items.modify i f := by
  unfold KeyedVec.setAt
  rw [if_pos (List.getElem?_eq_some_iff.mp ha).1]
  refine ⟨_, rfl, h.modify fun b hb => ?_, rfl⟩
  obtain rfl : a = b := Option.some.inj (ha.symm.trans hb)
  exact hf

/-- The item of a key is written to in place if there is one. -/
theorem Indexed.modifyKey {v : KeyedVec κ α} (h : v.Indexed) {key : κ} {f : α → α}
    (hf : ∀ a ∈ v.items, Keyed.key a = key → Keyed.key (f a) = key) :
    ∃ w, v.modifyKey key f = .ok (w, (v.position? key).isSome) ∧ w.Indexed
      ∧ w.items = match v.position? key with
        | some i => v.items.modify i f
        | none => v.items := by
  unfold KeyedVec.modifyKey
  cases hp : v.position? key with
  | none => exact ⟨v, rfl, h, rfl⟩
  | some i =>
    obtain ⟨a, ha, hkey⟩ := h.exists_of_position? hp
    obtain ⟨w, hw, hindexed, hitems⟩ :=
      h.setAt ha ((hf a (List.mem_of_getElem? ha) hkey).trans hkey.symm)
    refine ⟨w, ?_, hindexed, hitems⟩
    show (v.setAt i f).map (fun v => (v, true)) = _
    rw [hw]
    rfl

/-- All items are written to in place. -/
theorem Indexed.mapItems {v : KeyedVec κ α} (h : v.Indexed) {f : α → α}
    (hf : ∀ a ∈ v.items, Keyed.key (f a) = Keyed.key a) : (v.mapItems f).Indexed := by
  refine h.of_keys rfl ?_
  unfold keys KeyedVec.mapItems
  rw [List.map_map]
  exact List.map_congr_left hf

/-- A vector with an item of a new key at the end agrees with the position noted for it there. -/
theorem Indexed.append {v : KeyedVec κ α} (h : v.Indexed) {a : α} (ha : Keyed.key a ∉ v.keys) :
    (⟨v.items ++ [a], Assoc.insert (Keyed.key a) v.items.length v.positions⟩ :
      KeyedVec κ α).Indexed := by
  have hnone : Assoc.lookup (Keyed.key a) v.positions = none :=
    h.position?_eq_none.mpr (find?_eq_none_iff.mpr ha)
  refine ⟨?_, ?_⟩
  · rw [Assoc.length_insert_of_lookup_eq_none hnone, ← h.sizes, List.length_append]
    rfl
  · intro key i
    have hlen : v.keys.length = v.items.length := List.length_map _
    unfold position?
    rw [Assoc.lookup_insert, keys, List.map_append]
    show _ ↔ (v.keys ++ [Keyed.key a])[i]? = some key
    by_cases hk : key = Keyed.key a
    · subst hk
      rw [if_pos rfl, Option.some.injEq]
      constructor
      · rintro rfl
        rw [← hlen, List.getElem?_concat_length]
      · intro hi
        by_cases hlt : i < v.keys.length
        · rw [List.getElem?_append_left hlt] at hi
          exact absurd (List.mem_of_getElem? hi) ha
        · have := (List.getElem?_eq_some_iff.mp hi).1
          rw [List.length_append, List.length_singleton] at this
          omega
    · rw [if_neg hk, ← position?, h.position?_eq_some]
      by_cases hlt : i < v.keys.length
      · rw [List.getElem?_append_left hlt]
      · rw [List.getElem?_eq_none (Nat.le_of_not_lt hlt), List.getElem?_append_right (Nat.le_of_not_lt hlt),
          List.getElem?_singleton]
        split
        · simp [Ne.symm hk]
        · simp

/-- **An item takes the place of the one with its key, or comes last.** -/
theorem Indexed.push {v : KeyedVec κ α} (h : v.Indexed) (a : α) :
    ∃ w, v.push a = .ok (w, ((v.position? (Keyed.key a)).getD v.items.length)) ∧ w.Indexed
      ∧ w.items = match v.position? (Keyed.key a) with
        | some i => v.items.set i a
        | none => v.items ++ [a] := by
  unfold KeyedVec.push
  cases hp : v.position? (Keyed.key a) with
  | some i =>
    obtain ⟨b, hb, hkey⟩ := h.exists_of_position? hp
    simp only [(List.getElem?_eq_some_iff.mp hb).1, if_true]
    refine ⟨_, rfl, ?_, rfl⟩
    rw [List.set_eq_modify]
    refine h.modify fun c hc => ?_
    obtain rfl : b = c := Option.some.inj (hb.symm.trans hc)
    exact hkey.symm
  | none =>
    exact ⟨_, rfl, h.append (find?_eq_none_iff.mp (h.position?_eq_none.mp hp)), rfl⟩

/-- **An item made for a key comes last, unless the key has an item, and then nothing changes.** -/
theorem Indexed.insertWith {v : KeyedVec κ α} (h : v.Indexed) (key : κ) (a : α)
    (hkey : Keyed.key a = key) :
    ∃ w i, v.insertWith key (fun _ => a) = .ok (w, i) ∧ w.Indexed
      ∧ w.items = if key ∈ v.keys then v.items else v.items ++ [a] := by
  subst hkey
  unfold KeyedVec.insertWith
  cases hp : v.position? (Keyed.key a) with
  | some i =>
    have hmem : Keyed.key a ∈ v.keys := List.mem_of_getElem? ((h.position?_eq_some _ i).mp hp)
    exact ⟨v, i, rfl, h, (if_pos hmem).symm⟩
  | none =>
    have hnew : Keyed.key a ∉ v.keys := find?_eq_none_iff.mp (h.position?_eq_none.mp hp)
    refine ⟨_, v.items.length, ?_, h.append hnew, (if_neg hnew).symm⟩
    simp only [KeyedVec.push, hp, if_true]

/-- The keys behind an item that was made for a key. -/
theorem keys_of_insertWith {v w : KeyedVec κ α} {key : κ} {a : α} (hkey : Keyed.key a = key)
    (h : w.items = if key ∈ v.keys then v.items else v.items ++ [a]) :
    w.keys = if key ∈ v.keys then v.keys else v.keys ++ [key] := by
  unfold keys at h ⊢
  rw [h]
  split
  · rfl
  · rw [List.map_append, List.map_singleton, hkey]

/-- Vectors with the same positions and keys are the same if every search finds the same. -/
theorem Indexed.ext {v w : KeyedVec κ α} (h : v.Indexed) (hp : w.positions = v.positions)
    (hk : w.keys = v.keys) (hf : ∀ key, w.find? key = v.find? key) : w = v := by
  have hw : w.Indexed := h.of_keys hp hk
  have hitems : w.items = v.items := by
    refine List.ext_getElem? ?_
    intro i
    -- a place either is beyond the end in both, or has the item that a search for its key finds
    cases hi : v.keys[i]? with
    | none =>
      have hi' := hk ▸ hi
      rw [keys, List.getElem?_map, Option.map_eq_none_iff] at hi hi'
      rw [hi, hi']
    | some key =>
      rw [hw.getElem?_position ((hw.position?_eq_some key i).mpr (hk ▸ hi)), hf,
        h.getElem?_position ((h.position?_eq_some key i).mpr hi)]
  obtain ⟨items, positions⟩ := v
  obtain ⟨items', positions'⟩ := w
  exact (KeyedVec.mk.injEq ..).mpr ⟨hitems, hp⟩

/-! ## Numbering -/

/-- After numbering distinct keys each of them has its number, and the others have what they had. -/
theorem lookup_renumber {as : List α} (hd : (as.map Keyed.key).Nodup) {positions : List (κ × Nat)}
    {start : Nat} {key : κ} {i : Nat} :
    Assoc.lookup key (renumber positions start as) = some i
      ↔ (∃ j, i = start + j ∧ (as.map Keyed.key)[j]? = some key)
        ∨ key ∉ as.map Keyed.key ∧ Assoc.lookup key positions = some i := by
  induction as generalizing positions start with
  | nil => simp [renumber]
  | cons a as ih =>
    rw [List.map_cons, List.nodup_cons] at hd
    rw [renumber, ih hd.2, Assoc.lookup_insert, List.map_cons]
    by_cases hk : key = Keyed.key a
    · subst hk
      have hnone : ∀ j, (as.map Keyed.key)[j]? ≠ some (Keyed.key a) :=
        fun j hj => hd.1 (List.mem_of_getElem? hj)
      rw [if_pos rfl]
      constructor
      · rintro (⟨j, _, hj⟩ | ⟨_, hstart⟩)
        · exact absurd hj (hnone j)
        · exact Or.inl ⟨0, (Option.some.inj hstart).symm, rfl⟩
      · rintro (⟨_ | j, rfl, hj⟩ | ⟨hout, _⟩)
        · exact Or.inr ⟨hd.1, rfl⟩
        · exact absurd hj (hnone j)
        · exact absurd List.mem_cons_self hout
    · rw [if_neg hk, List.mem_cons, or_iff_right hk]
      refine or_congr_left ⟨?_, ?_⟩
      · rintro ⟨j, rfl, hj⟩
        exact ⟨j + 1, by omega, hj⟩
      · rintro ⟨_ | j, rfl, hj⟩
        · exact absurd (Option.some.inj hj).symm hk
        · exact ⟨j, by omega, hj⟩

/-- Numbering keys that have positions adds none. -/
theorem length_renumber_old {as : List α} {positions : List (κ × Nat)} {start : Nat}
    (h : ∀ a ∈ as, (Assoc.lookup (Keyed.key a) positions).isSome) :
    (renumber positions start as).length = positions.length := by
  induction as generalizing positions start with
  | nil => rfl
  | cons a as ih =>
    rw [renumber, ih, Assoc.length_insert_of_lookup_isSome (h a List.mem_cons_self)]
    intro b hb
    rw [Assoc.lookup_insert]
    split
    · rfl
    · exact h b (List.mem_cons_of_mem a hb)

/-- Numbering distinct keys that have no positions adds one for each. -/
theorem length_renumber_new {as : List α} (hd : (as.map Keyed.key).Nodup)
    {positions : List (κ × Nat)} {start : Nat}
    (h : ∀ a ∈ as, Assoc.lookup (Keyed.key a) positions = none) :
    (renumber positions start as).length = positions.length + as.length := by
  induction as generalizing positions start with
  | nil => rfl
  | cons a as ih =>
    rw [List.map_cons, List.nodup_cons] at hd
    rw [renumber, ih hd.2, Assoc.length_insert_of_lookup_eq_none (h a List.mem_cons_self),
      List.length_cons]
    · omega
    · intro b hb
      rw [Assoc.lookup_insert, if_neg, h b (List.mem_cons_of_mem a hb)]
      intro heq
      exact hd.1 (heq ▸ List.mem_map_of_mem hb)

/-- Items can be numbered if their keys are distinct and have no positions yet. -/
theorem number?_eq_some {as : List α} {positions positions' : List (κ × Nat)} {start : Nat} :
    number? positions start as = some positions'
      ↔ ((as.map Keyed.key).Nodup ∧ ∀ a ∈ as, Assoc.lookup (Keyed.key a) positions = none)
        ∧ positions' = renumber positions start as := by
  induction as generalizing positions start with
  | nil => simp [number?, renumber, eq_comm]
  | cons a as ih =>
    rw [number?, renumber, List.map_cons, List.nodup_cons, List.forall_mem_cons]
    cases ha : Assoc.lookup (Keyed.key a) positions with
    | some i => simp
    | none =>
      rw [if_neg (by simp), ih]
      -- a key is new behind the first one if it was new before and is another one
      simp only [Assoc.lookup_insert_eq_none, imp_and, forall_and, List.mem_map, not_exists, not_and,
        true_and, and_assoc, and_left_comm]

/-- The vector of items, which exists if and only if their keys are distinct. -/
theorem ofItems?_eq_some {as : List α} {v : KeyedVec κ α} :
    ofItems? as = some v ↔ (as.map Keyed.key).Nodup ∧ v = ⟨as, renumber [] 0 as⟩ := by
  rw [ofItems?, Option.map_eq_some_iff]
  simp only [number?_eq_some, Assoc.lookup_nil, implies_true, and_true]
  constructor
  · rintro ⟨_, ⟨hd, rfl⟩, rfl⟩
    exact ⟨hd, rfl⟩
  · rintro ⟨hd, rfl⟩
    exact ⟨_, ⟨hd, rfl⟩, rfl⟩

/-- A vector of items is in agreement from the start. -/
theorem Indexed.of_ofItems? {as : List α} {v : KeyedVec κ α} (h : ofItems? as = some v) :
    v.Indexed ∧ v.items = as := by
  obtain ⟨hd, rfl⟩ := ofItems?_eq_some.mp h
  refine ⟨⟨?_, ?_⟩, rfl⟩
  · show as.length = (renumber [] 0 as).length
    rw [length_renumber_new hd fun _ _ => rfl, List.length_nil, Nat.zero_add]
  · intro key i
    rw [position?, lookup_renumber hd]
    simp [keys]

theorem reader_of_error {item : Reader α} {p : Place} {t : Term} {f : PlacedFault}
    (h : Reader.list item p t = .error f) :
    (reader item p t : Except PlacedFault (KeyedVec κ α)) = .error f := by
  unfold reader
  rw [h]
  rfl

/-- A vector that is read holds the items that stand in the document, and is refused if a key comes twice. -/
theorem reader_of_ok {item : Reader α} {p : Place} {t : Term} {as : List α}
    (h : Reader.list item p t = .ok as) :
    reader item p t = if (as.map Keyed.key).Nodup then .ok ⟨as, renumber [] 0 as⟩
      else .error (Fault.repeatedKey.at .stop) := by
  unfold reader
  simp only [h, bind, Except.bind]
  by_cases hd : (as.map Keyed.key).Nodup
  · rw [if_pos hd, ofItems?_eq_some.mpr ⟨hd, rfl⟩]
    rfl
  · have hnone : ofItems? as = none := by
      rw [Option.eq_none_iff_forall_ne_some]
      exact fun v hv => hd (ofItems?_eq_some.mp hv).1
    rw [if_neg hd, hnone]

theorem Indexed.of_reader {item : Reader α} {p : Place} {t : Term} {v : KeyedVec κ α}
    (h : reader item p t = .ok v) : v.Indexed := by
  cases hr : Reader.list item p t with
  | error f =>
    rw [reader_of_error hr] at h
    exact absurd h (by simp)
  | ok as =>
    rw [reader_of_ok hr] at h
    split at h
    · rename_i hd
      exact (of_ofItems? (ofItems?_eq_some.mpr ⟨hd, (Except.ok.inj h).symm⟩)).1
    · exact absurd h (by simp)

/-! ## Removing -/

/-- Where the keys are after one of them has been removed: those behind it have moved up, and the others are
where they were. -/
theorem Indexed.getElem?_eraseIdx {v : KeyedVec κ α} (h : v.Indexed) {key : κ} {i : Nat}
    (hi : v.keys[i]? = some key) (k : κ) (j : Nat) :
    (v.keys.eraseIdx i)[j]? = some k
      ↔ (∃ n, j = i + n ∧ (v.keys.drop (i + 1))[n]? = some k)
        ∨ k ∉ v.keys.drop (i + 1) ∧ (if k = key then none else v.position? k) = some j := by
  rw [List.getElem?_eraseIdx]
  split
  · rename_i hlt
    constructor
    · intro hk
      have hne : k ≠ key := fun he => Nat.ne_of_lt hlt (h.place_unique (he ▸ hk) hi)
      rw [if_neg hne, h.position?_eq_some]
      refine Or.inr ⟨fun hm => ?_, hk⟩
      obtain ⟨n, hn⟩ := List.getElem?_of_mem hm
      rw [List.getElem?_drop] at hn
      have := h.place_unique hk hn
      omega
    · rintro (⟨n, hn, _⟩ | ⟨_, hk⟩)
      · omega
      · split at hk
        · exact absurd hk (by simp)
        · exact (h.position?_eq_some k j).mp hk
  · rename_i hle
    constructor
    · intro hk
      refine Or.inl ⟨j - i, by omega, ?_⟩
      rw [List.getElem?_drop, show i + 1 + (j - i) = j + 1 by omega, hk]
    · rintro (⟨n, rfl, hn⟩ | ⟨hout, hk⟩)
      · rw [List.getElem?_drop] at hn
        rw [← hn]
        congr 1
        omega
      · split at hk
        · exact absurd hk (by simp)
        · -- the key would stand at the place of the removed one, or behind it
          rename_i hne
          have hj := (h.position?_eq_some k j).mp hk
          have hij : i ≠ j := by
            rintro rfl
            exact hne (Option.some.inj (hj.symm.trans hi))
          refine absurd (List.mem_of_getElem? (i := j - (i + 1)) ?_) hout
          rw [List.getElem?_drop, show i + 1 + (j - (i + 1)) = j by omega, hj]

/-- What stands behind a removed item has positions still, though not yet the right ones. -/
theorem Indexed.lookup_behind {v : KeyedVec κ α} (h : v.Indexed) {key : κ} {i : Nat}
    (hi : v.keys[i]? = some key) {b : α} (hb : b ∈ v.items.drop (i + 1)) :
    (Assoc.lookup (Keyed.key b) (Assoc.erase key v.positions)).isSome := by
  obtain ⟨j, hj⟩ := List.getElem?_of_mem hb
  rw [List.getElem?_drop] at hj
  have hkey : v.keys[i + 1 + j]? = some (Keyed.key b) := by
    rw [keys, List.getElem?_map, hj, Option.map_some]
  have hne : Keyed.key b ≠ key := by
    intro he
    have := h.place_unique hi (he ▸ hkey)
    omega
  rw [Assoc.lookup_erase h.nodup_positions, if_neg hne, ← position?, (h.position?_eq_some _ _).mpr hkey]
  rfl

/-- The items without one of them agree with the positions without its own, if those behind it are numbered
anew. -/
theorem Indexed.eraseIdx {v : KeyedVec κ α} (h : v.Indexed) {key : κ} {i : Nat}
    (hp : v.position? key = some i) :
    (⟨v.items.eraseIdx i, renumber (Assoc.erase key v.positions) i (v.items.drop (i + 1))⟩ :
      KeyedVec κ α).Indexed := by
  have hi : v.keys[i]? = some key := (h.position?_eq_some key i).mp hp
  obtain ⟨a, ha, _⟩ := h.exists_of_position? hp
  have hlt : i < v.items.length := (List.getElem?_eq_some_iff.mp ha).1
  have htail : ((v.items.drop (i + 1)).map Keyed.key).Nodup := by
    rw [List.map_drop]
    exact h.nodup_keys.sublist (List.drop_sublist _ _)
  refine ⟨?_, fun k j => ?_⟩
  · have hgone : (Assoc.erase key v.positions).length + 1 = v.positions.length :=
      Assoc.length_erase_of_lookup_isSome (by rw [← position?, hp]; rfl)
    show (v.items.eraseIdx i).length = (renumber _ i (v.items.drop (i + 1))).length
    rw [length_renumber_old fun b hb => h.lookup_behind hi hb, List.length_eraseIdx_of_lt hlt, h.sizes]
    omega
  · have hkeys : (v.items.eraseIdx i).map Keyed.key = v.keys.eraseIdx i := by
      refine List.ext_getElem? fun n => ?_
      rw [List.getElem?_map, List.getElem?_eraseIdx, List.getElem?_eraseIdx]
      split <;> rw [keys, List.getElem?_map]
    rw [position?, lookup_renumber htail, Assoc.lookup_erase h.nodup_positions, List.map_drop, keys, hkeys,
      h.getElem?_eraseIdx hi]
    rfl

/-- **An item is removed and those behind it move up,** positions and all. -/
theorem Indexed.erase {v : KeyedVec κ α} (h : v.Indexed) (key : κ) :
    ∃ w, v.erase key = (w, .ok (v.find? key)) ∧ w.Indexed
      ∧ w.items = v.items.eraseP fun a => Keyed.key a = key := by
  unfold KeyedVec.erase
  cases hp : v.position? key with
  | none =>
    have hout := h.position?_eq_none.mp hp
    refine ⟨v, by rw [hout], h, (List.eraseP_of_forall_not fun a ha hkey => ?_).symm⟩
    exact find?_eq_none_iff.mp hout (List.mem_map.mpr ⟨a, ha, by simpa using hkey⟩)
  | some i =>
    have hitem := h.getElem?_position hp
    obtain ⟨a, ha, _⟩ := h.exists_of_position? hp
    have htail : (v.items.eraseIdx i).drop i = v.items.drop (i + 1) := by
      refine List.ext_getElem? fun j => ?_
      rw [List.getElem?_drop, List.getElem?_drop, List.getElem?_eraseIdx, if_neg (by omega)]
      congr 1
      omega
    simp only [ha, htail]
    refine ⟨_, by rw [← hitem, ha], h.eraseIdx hp, ?_⟩
    have hfind : (v.items.findIdx? fun a => Keyed.key a = key) = some i := by
      rw [← h.position?_eq, hp]
    rw [List.eraseP_eq_eraseIdx, hfind]

end KeyedVec

end StageFlow
