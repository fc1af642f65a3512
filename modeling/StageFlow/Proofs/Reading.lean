import StageFlow.Proofs.Json
import StageFlow.Storage

/-!
# Reading back what was written

What reading a record, a list or a whole document comes to when nothing is wrong with it. A value that was
written stands in the document as the term that says it (`Term.ofValue`), and the readers walk over that.

## Contents
- **Successes.** What the wrappings of outcomes do to one.
- **Room.** `Room.Holds`, and `Term.value_ofValue`.
- **Fields.** One step of a reader of records, also over a field that may be left out.
- **Lists.** `Reader.items_ofValue`, a list whose items are read back.
- **Texts.** When data is read off a text in either format; `load_indentedText`, for a JSON text that was
  printed.
-/

namespace StageFlow

/-! ## Successes -/

section

variable {ε α β : Type}

@[simp] theorem ok_bind (a : α) (f : α → Except ε β) : (Except.ok a >>= f) = f a := rfl

@[simp] theorem unplaced_ok (a : α) : unplaced (.ok a) = .ok a := rfl

@[simp] theorem withinItem_ok (index : Nat) (a : α) : withinItem index (.ok a) = .ok a := rfl

@[simp] theorem withinEntry_ok (index : Nat) (a : α) : withinEntry index (.ok a) = .ok a := rfl

end

/-! ## Room -/

/-- Lists and maps can be opened inside each other this deep. -/
def Room.Holds (room : Room) (depth : Nat) : Prop := ∀ n ∈ room, depth < n

namespace Room.Holds

variable {room : Room} {d e : Nat}

theorem mono (h : room.Holds e) (hle : d ≤ e) : room.Holds d :=
  fun n hn => Nat.lt_of_le_of_lt hle (h n hn)

/-- Room for one list or map and what is inside of it. -/
theorem enter (h : room.Holds (d + 1)) : ∃ inner, enter room = .ok inner ∧ Holds inner d := by
  match room, h with
  | none, _ => exact ⟨none, rfl, nofun⟩
  | some 0, h | some 1, h => exact absurd (h _ rfl) (by omega)
  | some (n + 2), h =>
    refine ⟨some (n + 1), rfl, ?_⟩
    rintro _ ⟨⟩
    have := h _ rfl
    omega

/-- The place inside a list or map for which there is room. -/
theorem inside {p : Place} (h : p.room.Holds (d + 1)) :
    ∃ inner, p.inside = .ok ⟨p.source, inner⟩ ∧ inner.Holds d := by
  obtain ⟨inner, hinner, hroom⟩ := h.enter
  exact ⟨inner, by rw [Place.inside, hinner]; rfl, hroom⟩

end Room.Holds

/-- Where nothing limits the depth, going inside changes nothing. -/
theorem Place.inside_of_unlimited {p : Place} (h : p.room = none) : p.inside = .ok p := by
  obtain ⟨source, _⟩ := p
  subst h
  rfl

theorem Value.depth_le_depthList {v : Value} {vs : List Value} (h : v ∈ vs) : v.depth ≤ depth.depthList vs := by
  induction vs with
  | nil => exact absurd h List.not_mem_nil
  | cons w ws ih =>
    rcases List.mem_cons.mp h with rfl | hw
    · exact Nat.le_max_left ..
    · exact Nat.le_trans (ih hw) (Nat.le_max_right ..)

theorem Value.depthEntries_append (es fs : List (String × Value)) :
    depth.depthEntries (es ++ fs) = max (depth.depthEntries es) (depth.depthEntries fs) := by
  induction es with
  | nil => exact (Nat.zero_max _).symm
  | cons e es ih => rw [List.cons_append, depth.depthEntries, depth.depthEntries, ih, Nat.max_assoc]

mutual

theorem Term.depth_ofValue : (v : Value) → (Term.ofValue v).depth = v.depth
  | .null | .bool _ | .number _ | .text _ => rfl
  | .list items => congrArg (· + 1) (depthOfList_ofValueList items)
  | .map entries => congrArg (· + 1) (depthOfEntries_ofValueEntries entries)

theorem depthOfList_ofValueList : (vs : List Value) → depthOfList (ofValueList vs) = Value.depth.depthList vs
  | [] => rfl
  | v :: vs => by
    rw [ofValueList, depthOfList, Term.depth_ofValue v, depthOfList_ofValueList vs]
    rfl

theorem depthOfEntries_ofValueEntries :
    (es : List (String × Value)) → depthOfEntries (ofValueEntries es) = Value.depth.depthEntries es
  | [] => rfl
  | (_, v) :: es => by
    rw [ofValueEntries, depthOfEntries, Term.depth_ofValue v, depthOfEntries_ofValueEntries es]
    rfl

end

mutual

/-- The term that says a value has that value, wherever there is room for it. -/
theorem Term.value_ofValue {room : Room} :
    (v : Value) → room.Holds v.depth → (Term.ofValue v).value room = .ok v
  | .null, _ | .bool _, _ | .number _, _ | .text _, _ => rfl
  | .list items, h => by
    obtain ⟨inner, hinner, hroom⟩ := h.enter
    have hitems := valueList_ofValueList items hroom
    rw [Term.ofValue, Term.value, hinner, ok_bind, hitems]
    rfl
  | .map entries, h => by
    obtain ⟨inner, hinner, hroom⟩ := h.enter
    have hentries := valueEntries_ofValueEntries entries hroom
    rw [Term.ofValue, Term.value, hinner, ok_bind, hentries]
    rfl

theorem valueList_ofValueList {room : Room} :
    (vs : List Value) → room.Holds (Value.depth.depthList vs) → valueList room (ofValueList vs) = .ok vs
  | [], _ => rfl
  | v :: vs, h => by
    rw [ofValueList, valueList, Term.value_ofValue v (h.mono (Nat.le_max_left ..)),
      valueList_ofValueList vs (h.mono (Nat.le_max_right ..))]
    rfl

theorem valueEntries_ofValueEntries {room : Room} :
    (es : List (String × Value)) → room.Holds (Value.depth.depthEntries es) →
      valueEntries room (ofValueEntries es) = .ok es
  | [], _ => rfl
  | (k, v) :: es, h => by
    rw [ofValueEntries, valueEntries, Term.value_ofValue v (h.mono (Nat.le_max_left ..)),
      valueEntries_ofValueEntries es (h.mono (Nat.le_max_right ..))]
    rfl

end

/-! ## Fields -/

namespace Record

variable {α : Type} {fields : List (Field α)} {p : Place} {index : Nat} {seen : List String}

@[simp] theorem fieldName_text (p : Place) (name : String) : fieldName p ⟨.ok name, none⟩ = .ok name := by
  unfold fieldName
  split <;> simp_all

theorem find?_head (f : Field α) (fs : List (Field α)) : (f :: fs).find? (·.name = f.name) = some f := by
  simp

theorem find?_tail {f : Field α} {fs : List (Field α)} {name : String} (h : f.name ≠ name) :
    (f :: fs).find? (·.name = name) = fs.find? (·.name = name) := by
  simp [h]

/-- An entry that holds a field which has not occurred yet. -/
theorem readEntries_cons {name : String} {f : Field α} {t : Term} {set : α → α} (es : List (Key × Term))
    (a : α) (hf : fields.find? (·.name = name) = some f) (hnew : name ∉ seen)
    (hread : f.read p t = .ok set) :
    readEntries fields p index ((⟨.ok name, none⟩, t) :: es) seen a
      = readEntries fields p (index + 1) es (name :: seen) (set a) := by
  rw [readEntries, fieldName_text, ok_bind, hf]
  simp only [if_neg hnew, hread, withinEntry_ok, ok_bind]

end Record

/-- A field is read as its reader reads it. -/
theorem Field.read_of {α β : Type} {name : String} {required : Bool} {r : Reader β} {set : β → α → α}
    {p : Place} {t : Term} {x : β} (h : r p t = .ok x) :
    (Field.of name required r set).read p t = .ok (set x) := by
  simp [Field.of, h, Except.map]

/-- A record is what its entries make of the blank one, if no field is missing. -/
theorem record_map {α : Type} {label : String} {fields : List (Field α)} {blank a : α} {p inner : Place}
    {entries : List (Key × Term)} (hp : p.inside = .ok inner)
    (h : ∃ seen, Record.readEntries fields inner 0 entries [] blank = .ok (seen, a) ∧
      Record.missing? fields seen = none) : record label fields blank p (.map entries .closed) = .ok a := by
  obtain ⟨seen, he, hm⟩ := h
  simp only [record, hp, ok_bind, he, hm]
  rfl

theorem ofValueEntries_append (es fs : List (String × Value)) :
    ofValueEntries (es ++ fs) = ofValueEntries es ++ ofValueEntries fs := by
  induction es with
  | nil => rfl
  | cons e es ih => rw [List.cons_append, ofValueEntries, ofValueEntries, ih, List.cons_append]

/-- A field that may be left out: either nothing of it is written, and then it would have changed nothing, or it
is written like any other. -/
theorem Record.readEntries_optional {α : Type} {fields : List (Field α)} {p : Place} {seen : List String}
    {name : String} {f : Field α} {own : List (String × Value)} {set : α → α} {a : α}
    (es : List (Key × Term)) (index : Nat) (hf : fields.find? (·.name = name) = some f) (hnew : name ∉ seen)
    (hown : own = [] ∧ set a = a ∨ ∃ v, own = [(name, v)] ∧ f.read p (.ofValue v) = .ok set) :
    ∃ seen' index', seen ⊆ seen' ∧ seen' ⊆ name :: seen ∧
      readEntries fields p index (ofValueEntries own ++ es) seen a
        = readEntries fields p index' es seen' (set a) := by
  rcases hown with ⟨rfl, hset⟩ | ⟨v, rfl, hread⟩
  · exact ⟨seen, index, List.Subset.refl _, List.subset_cons_self .., by rw [hset]; rfl⟩
  · exact ⟨name :: seen, index + 1, List.subset_cons_self .., List.Subset.refl _,
      readEntries_cons es a hf hnew hread⟩

/-- A field for a list that is left out when the list is empty. -/
theorem Record.readEntries_list {α : Type} {fields : List (Field α)} {p : Place} {seen : List String}
    {name : String} {f : Field α} {items : List Value} {set : α → α} {a : α} (es : List (Key × Term))
    (index : Nat) (hf : fields.find? (·.name = name) = some f) (hnew : name ∉ seen)
    (hread : items ≠ [] → f.read p (.ofValue (.list items)) = .ok set) (hblank : items = [] → set a = a) :
    ∃ seen' index', seen ⊆ seen' ∧ seen' ⊆ name :: seen ∧
      readEntries fields p index
          (ofValueEntries (if items.isEmpty then [] else [(name, .list items)]) ++ es) seen a
        = readEntries fields p index' es seen' (set a) := by
  refine readEntries_optional es index hf hnew ?_
  split
  · rename_i h
    exact Or.inl ⟨rfl, hblank (List.isEmpty_iff.mp h)⟩
  · rename_i h
    exact Or.inr ⟨_, rfl, hread (mt List.isEmpty_iff.mpr h)⟩

/-! ## Lists -/

/-- A list is read item by item. -/
theorem Reader.list_items {α : Type} {r : Reader α} {p inner : Place} {ts : List Term} {as : List α}
    (hp : p.inside = .ok inner) (h : Reader.items r inner 0 ts = .ok as) :
    Reader.list r p (.list ts .closed) = .ok as := by
  simp only [Reader.list, hp, ok_bind, h]
  rfl

/-- A list is read back item by item. -/
theorem Reader.items_ofValue {α : Type} {r : Reader α} {write : α → Value} {p : Place} {as : List α}
    (h : ∀ a ∈ as, r p (.ofValue (write a)) = .ok a) (index : Nat) :
    Reader.items r p index (ofValueList (as.map write)) = .ok as := by
  induction as generalizing index with
  | nil => rfl
  | cons a as ih =>
    rw [List.map_cons, ofValueList, Reader.items, h a List.mem_cons_self, withinItem_ok, ok_bind,
      ih fun b hb => h b (List.mem_cons_of_mem a hb)]
    rfl

/-- **A list is read back** where there is room for it and its items are. -/
theorem Reader.list_ofValue {α : Type} {r : Reader α} {write : α → Value} {p : Place} {as : List α}
    (h : p.room.Holds (Value.list (as.map write)).depth)
    (hr : ∀ a ∈ as, ∀ q : Place, q.room.Holds (write a).depth → r q (.ofValue (write a)) = .ok a) :
    Reader.list r p (.ofValue (.list (as.map write))) = .ok as := by
  obtain ⟨inner, hinner, hroom⟩ := h.inside
  refine list_items hinner (items_ofValue (fun a ha => hr a ha _ (hroom.mono ?_)) 0)
  exact Value.depth_le_depthList (List.mem_map_of_mem ha)

/-! ## Texts -/

section

variable {α : Type} {r : Reader α} {text : String} {a : α}

/-- Data is read off a JSON text if it is read off its term and nothing follows. -/
theorem load_json_eq_ok : load r .json text = .ok a ↔
    (Json.Document.ofText text.toList).trailing = false
      ∧ r .top (Json.Document.ofText text.toList).term = .ok a := by
  rw [load, Json.Document.read]
  cases r .top (Json.Document.ofText text.toList).term with
  | error f =>
    show Except.error _ = Except.ok a ↔ _
    simp
  | ok b =>
    cases (Json.Document.ofText text.toList).trailing with
    | false =>
      show Except.ok b = Except.ok a ↔ _
      simp
    | true =>
      show Except.error _ = Except.ok a ↔ _
      simp

/-- Data is read off a YAML text if it is read off its first document, as it stands or, where a tag was in the
way, as it is composed. -/
theorem readYaml?_eq_some : readYaml? r text = some a ↔ ∃ n, Yaml.document? text = some n ∧
    (r .yaml n.standing = .ok a ∨ ∃ spot t, r .yaml n.standing = .error ⟨.tagNotApplied, spot⟩
      ∧ n.composed? = some t ∧ r .yaml t = .ok a) := by
  rw [readYaml?]
  cases Yaml.document? text with
  | none => simp
  | some n =>
    simp only [Option.bind_eq_bind, Option.bind_some, Option.some.injEq, exists_eq_left']
    split
    · rename_i b hb
      simp [hb, pure]
    · rename_i spot hspot
      simp only [hspot, reduceCtorEq, false_or, Except.error.injEq, PlacedFault.mk.injEq, true_and]
      cases n.composed? with
      | none => simp
      | some t => cases ht : r .yaml t <;> simp [ht, Except.toOption]
    · rename_i f hne hf
      simp only [hf, reduceCtorEq, false_or, false_iff]
      rintro ⟨spot, t, heq, -⟩
      exact hne spot (Except.error.inj heq)

theorem load_yaml_eq_ok : load r .yaml text = .ok a ↔ readYaml? r text = some a := by
  rw [load]
  cases readYaml? r text <;> simp

/-- What is read off the printed text of a value is what is read off its term. -/
theorem load_indentedText (r : Reader α) {v : Value} (hv : v.IsExact) :
    load r .json (Json.indentedText v) = (r .top (.ofValue v)).mapError fun f =>
      .json f.fault (f.spot.position? (Json.indentedText v).toList) := by
  simp only [load, Json.Document.ofText_indentedText hv, Json.Document.read]
  cases r .top (.ofValue v) <;> rfl

end

end StageFlow
