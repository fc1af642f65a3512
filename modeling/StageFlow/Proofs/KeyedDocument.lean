import StageFlow.Proofs.KeyedVec
import StageFlow.Proofs.Reading

/-!
# Keyed vectors survive being written

A keyed vector is written as the list of its items, and its positions are noted anew when it is read. That is
not done by `push`, which would let the later of two items with one key take the place of the earlier: a list
in which a key comes twice is refused. So what reading gives is compared with what pushing would have given.

## Contents
- **Pushing.** `pushAll`; it agrees with `renumber` where keys are new, and keeps every item only there.
- **Outcomes.** `Decodes`, what may come of reading a list of items as a vector.
- **Reading.** A vector is read if its list of items is read and their keys are distinct, off terms and texts.
- **There and back.** `decodes_written`, for everything that a list of items or a vector may be written as.
-/

namespace StageFlow.KeyedVec

variable {κ α : Type} [DecidableEq κ] [Keyed κ α]

/-! ## Pushing -/

/-- Pushes items one after the other. -/
def pushAll (v : KeyedVec κ α) : List α → Except Breach (KeyedVec κ α)
  | [] => .ok v
  | a :: as => do
    let (w, _) ← v.push a
    w.pushAll as

/-- Items with new and distinct keys come behind the others, at the positions that follow. -/
theorem pushAll_of_nodup {v : KeyedVec κ α} (hv : v.Indexed) {as : List α}
    (hd : (v.keys ++ as.map Keyed.key).Nodup) :
    v.pushAll as = .ok ⟨v.items ++ as, renumber v.positions v.items.length as⟩ := by
  -- the induction is along the items, and the vector grows by each
  induction as generalizing v with
  | nil => rw [pushAll, List.append_nil, renumber]
  | cons a as ih =>
    rw [List.map_cons] at hd
    have hnew : Keyed.key a ∉ v.keys := fun h =>
      (List.nodup_append.mp hd).2.2 _ h _ List.mem_cons_self rfl
    have hnone : v.position? (Keyed.key a) = none := hv.position?_eq_none.mpr (find?_eq_none_iff.mpr hnew)
    have hkeys : keys ⟨v.items ++ [a], Assoc.insert (Keyed.key a) v.items.length v.positions⟩
        = v.keys ++ [Keyed.key a] := List.map_append
    rw [pushAll, push, hnone]
    refine (ih (hv.append hnew) (by rwa [hkeys, List.append_assoc])).trans ?_
    rw [List.append_assoc, List.length_append]
    rfl

/-- Pushing never breaks off. -/
theorem Indexed.pushAll {v : KeyedVec κ α} (hv : v.Indexed) (as : List α) :
    ∃ w, v.pushAll as = .ok w ∧ w.Indexed := by
  induction as generalizing v with
  | nil => exact ⟨v, rfl, hv⟩
  | cons a as ih =>
    obtain ⟨w, hpush, hw, -⟩ := hv.push a
    obtain ⟨x, hall, hx⟩ := ih hw
    exact ⟨x, by rw [KeyedVec.pushAll, hpush]; exact hall, hx⟩

/-- **The vector of items with distinct keys is what pushing them makes.** -/
theorem pushAll_eq_of_ofItems? {as : List α} {v : KeyedVec κ α} (h : ofItems? as = some v) :
    pushAll .empty as = .ok v := by
  obtain ⟨hd, rfl⟩ := ofItems?_eq_some.mp h
  exact pushAll_of_nodup .empty hd

/-- **Pushing keeps every item just if no key comes twice.** -/
theorem pushAll_items_iff {as : List α} {w : KeyedVec κ α} (h : pushAll .empty as = .ok w) :
    w.items = as ↔ (as.map Keyed.key).Nodup := by
  constructor
  · intro hitems
    obtain ⟨x, hx, hindexed⟩ := Indexed.empty.pushAll as
    obtain rfl := Except.ok.inj (hx.symm.trans h)
    rw [← hitems]
    exact hindexed.nodup_keys
  · intro hd
    rw [pushAll_of_nodup .empty hd] at h
    rw [← Except.ok.inj h]
    rfl

/-! ## Outcomes -/

/-- What comes of reading a vector where its items are those of a list. -/
structure Decodes {ε : Type} (as : List α) (outcome : Except ε (KeyedVec κ α)) : Prop where
  /-- It is read just if no key comes twice. -/
  succeeds_iff : (∃ v, outcome = .ok v) ↔ (as.map Keyed.key).Nodup
  /-- It holds the items in order, and its positions are theirs. -/
  indexed : ∀ v, outcome = .ok v → v.Indexed ∧ v.items = as
  /-- It is what pushing the items in order makes. -/
  pushed : ∀ v, outcome = .ok v → pushAll .empty as = .ok v
  /-- It is refused just where pushing would have put an item in the place of another. -/
  refused_iff : ∀ w, pushAll .empty as = .ok w → ((∃ e, outcome = .error e) ↔ w.items ≠ as)

theorem Decodes.of_ofItems? {ε : Type} {as : List α} {outcome : Except ε (KeyedVec κ α)}
    (h : ∀ v, outcome = .ok v ↔ ofItems? as = some v) : Decodes as outcome := by
  have hsucceeds : (∃ v, outcome = .ok v) ↔ (as.map Keyed.key).Nodup := by
    constructor
    · rintro ⟨v, hv⟩
      exact (ofItems?_eq_some.mp ((h v).mp hv)).1
    · intro hd
      exact ⟨_, (h _).mpr (ofItems?_eq_some.mpr ⟨hd, rfl⟩)⟩
  refine ⟨hsucceeds, fun v hv => Indexed.of_ofItems? ((h v).mp hv),
    fun v hv => pushAll_eq_of_ofItems? ((h v).mp hv), ?_⟩
  intro w hw
  rw [Ne, pushAll_items_iff hw, ← hsucceeds]
  cases outcome with
  | error e => exact ⟨fun _ => by simp, fun _ => ⟨e, rfl⟩⟩
  | ok v => exact ⟨fun ⟨_, he⟩ => by simp at he, fun hne => absurd ⟨v, rfl⟩ hne⟩

/-- The items of a vector in agreement are read as a vector with the same items at the same positions. -/
theorem Decodes.same {ε : Type} {v : KeyedVec κ α} {outcome : Except ε (KeyedVec κ α)} (hv : v.Indexed)
    (h : Decodes v.items outcome) :
    ∃ w, outcome = .ok w ∧ w.items = v.items ∧ ∀ key, w.position? key = v.position? key := by
  obtain ⟨w, hw⟩ := h.succeeds_iff.mpr hv.nodup_keys
  obtain ⟨hindexed, hitems⟩ := h.indexed w hw
  exact ⟨w, hw, hitems, fun key => by rw [hindexed.position?_eq, hv.position?_eq, hitems]⟩

/-! ## Reading -/

section

variable {item : Reader α} {p : Place} {t : Term} {as : List α} {v : KeyedVec κ α}

theorem reader_eq_ok : reader item p t = .ok v ↔ ∃ as, Reader.list item p t = .ok as ∧ ofItems? as = some v := by
  cases hr : Reader.list item p t with
  | error f =>
    rw [reader_of_error hr]
    simp
  | ok as =>
    rw [reader_of_ok hr]
    simp only [Except.ok.injEq, exists_eq_left', ofItems?_eq_some]
    split <;> simp_all [eq_comm]

/-- A tag is in the way of a vector where it is in the way of its list of items. -/
theorem reader_eq_tagged {spot : Spot} : (reader item p t : Except PlacedFault (KeyedVec κ α))
    = .error ⟨.tagNotApplied, spot⟩ ↔ Reader.list item p t = .error ⟨.tagNotApplied, spot⟩ := by
  cases hr : Reader.list item p t with
  | error f => rw [reader_of_error hr, Except.error.injEq, Except.error.injEq]
  | ok as =>
    rw [reader_of_ok hr]
    split <;> simp [Fault.at]

/-- **A vector is read off a text** if the list of its items is, and their keys are distinct. -/
theorem load_eq_ok {format : FileFormat} {text : String} : load (reader item) format text = .ok v
    ↔ ∃ as, load (Reader.list item) format text = .ok as ∧ ofItems? as = some v := by
  cases format with
  | json =>
    simp only [load_json_eq_ok, reader_eq_ok]
    exact ⟨fun ⟨ht, as, hr, hv⟩ => ⟨as, ⟨ht, hr⟩, hv⟩, fun ⟨as, ⟨ht, hr⟩, hv⟩ => ⟨ht, as, hr, hv⟩⟩
  | yaml =>
    simp only [load_yaml_eq_ok, readYaml?_eq_some, reader_eq_ok, reader_eq_tagged]
    constructor
    · rintro ⟨n, hn, ⟨as, hr, hv⟩ | ⟨spot, t, htag, ht, as, hr, hv⟩⟩
      · exact ⟨as, ⟨n, hn, Or.inl hr⟩, hv⟩
      · exact ⟨as, ⟨n, hn, Or.inr ⟨spot, t, htag, ht, hr⟩⟩, hv⟩
    · rintro ⟨as, ⟨n, hn, hr | ⟨spot, t, htag, ht, hr⟩⟩, hv⟩
      · exact ⟨n, hn, Or.inl ⟨as, hr, hv⟩⟩
      · exact ⟨n, hn, Or.inr ⟨spot, t, htag, ht, as, hr, hv⟩⟩

theorem decodes_reader (h : Reader.list item p t = .ok as) :
    Decodes as (reader item p t : Except PlacedFault (KeyedVec κ α)) := by
  refine .of_ofItems? fun v => ?_
  rw [reader_eq_ok, h]
  simp

theorem decodes_load {format : FileFormat} {text : String} (h : load (Reader.list item) format text = .ok as) :
    Decodes as (load (reader item) format text : Except LoadError (KeyedVec κ α)) := by
  refine .of_ofItems? fun v => ?_
  rw [load_eq_ok, h]
  simp

end

/-! ## There and back -/

/-- A list whose items are read back is read back from its printed text. -/
theorem load_list_json {item : Reader α} {write : α → Value} {as : List α}
    (h : ∀ a ∈ as, (write a).IsExact ∧ item ⟨.text, some 127⟩ (.ofValue (write a)) = .ok a) :
    load (Reader.list item) .json (Json.indentedText (.list (as.map write))) = .ok as := by
  have hexact : (Value.list (as.map write)).IsExact := exactItems_map fun a ha => (h a ha).1
  have hlist : Reader.list item .top (.ofValue (.list (as.map write))) = .ok as :=
    Reader.list_items rfl (Reader.items_ofValue (fun a ha => (h a ha).2) 0)
  rw [load_indentedText _ hexact, hlist]
  rfl

/-- **Keyed vectors and what they are written as.**

A list whose items are read back is read as a vector just if no key comes twice; a repeated key is the fault
then. What is read is in agreement and what pushing the items in order makes. The same goes for any text, in
either format, off which the list is read, and the printed JSON of a list with exact numbers is such a text if
its items are read back. A vector in agreement, which is written as the list of its items, is read back with
the same items in order at the same positions. -/
theorem decodes_written (item : Reader α) (write : α → Value) :
    (∀ (as : List α) (p inner : Place), p.inside = .ok inner →
      (∀ a ∈ as, item inner (.ofValue (write a)) = .ok a) →
      Decodes as (reader item p (.ofValue (.list (as.map write))))
        ∧ (¬ (as.map Keyed.key).Nodup →
          (reader item p (.ofValue (.list (as.map write))) : Except PlacedFault (KeyedVec κ α))
            = .error (Fault.repeatedKey.at .stop)))
    ∧ (∀ (as : List α) format text, load (Reader.list item) format text = .ok as →
      Decodes as (load (reader item) format text))
    ∧ (∀ as : List α, (∀ a ∈ as, (write a).IsExact ∧ item ⟨.text, some 127⟩ (.ofValue (write a)) = .ok a) →
      ∃ text, save? .json (.list (as.map write)) = some text ∧ load (Reader.list item) .json text = .ok as)
    ∧ (∀ (v : KeyedVec κ α) (p inner : Place), v.Indexed → p.inside = .ok inner →
      (∀ a ∈ v.items, item inner (.ofValue (write a)) = .ok a) →
      ∃ w : KeyedVec κ α, reader item p (.ofValue (v.toValue write)) = .ok w ∧ w.items = v.items
        ∧ ∀ key, w.position? key = v.position? key)
    ∧ ∀ (v : KeyedVec κ α) format text, v.Indexed → save? format (v.toValue write) = some text →
      load (Reader.list item) format text = .ok v.items →
      ∃ w : KeyedVec κ α, load (reader item) format text = .ok w ∧ w.items = v.items
        ∧ ∀ key, w.position? key = v.position? key := by
  have hlist : ∀ (as : List α) (p inner : Place), p.inside = .ok inner →
      (∀ a ∈ as, item inner (.ofValue (write a)) = .ok a) →
      Reader.list item p (.ofValue (.list (as.map write))) = .ok as :=
    fun as p inner hp h => Reader.list_items hp (Reader.items_ofValue h 0)
  refine ⟨?_, ?_, ?_, ?_, ?_⟩
  · intro as p inner hp h
    exact ⟨decodes_reader (hlist as p inner hp h),
      fun hd => by rw [reader_of_ok (hlist as p inner hp h), if_neg hd]⟩
  · intro as format text h
    exact decodes_load h
  · intro as h
    exact ⟨_, rfl, load_list_json h⟩
  · intro v p inner hv hp h
    exact (decodes_reader (hlist v.items p inner hp h)).same hv
  · intro v format text hv _ h
    exact (decodes_load h).same hv

/-- An item for the sample: a name and how many there are of it. -/
structure Tally where
  name : String
  count : Int
  deriving DecidableEq

instance : Keyed String Tally := ⟨Tally.name⟩

/-- Reads a tally. -/
def Tally.reader : Reader Tally :=
  record "struct Tally"
    [.of "name" true Reader.text fun x a => { a with name := x },
      .of "count" true Reader.int64 fun x a => { a with count := x }]
    { name := "", count := 0 }

/-- A tally as it is written. -/
def Tally.toValue (a : Tally) : Value := .map [("name", .text a.name), ("count", .number (.int a.count))]

/-- Two names come back from JSON in their order; a name that comes twice is refused, where pushing would have
kept the later count. -/
theorem decodes_written_tallies :
    (∃ text v, save? .json (.list ([⟨"b", 3⟩, ⟨"a\n", -1⟩].map Tally.toValue)) = some text
      ∧ load (reader Tally.reader) .json text = .ok v ∧ v.position? "a\n" = some 1)
    ∧ reader Tally.reader .top (.ofValue (.list ([⟨"a", 1⟩, ⟨"a", 2⟩].map Tally.toValue)))
      = .error (Fault.repeatedKey.at .stop)
    ∧ ∃ w, pushAll .empty [Tally.mk "a" 1, ⟨"a", 2⟩] = .ok w ∧ w.items = [⟨"a", 2⟩] := by
  obtain ⟨hterm, htext, hjson, -, -⟩ := decodes_written Tally.reader Tally.toValue
  have hexact : ∀ a ∈ [Tally.mk "b" 3, ⟨"a\n", -1⟩], a.toValue.IsExact
      ∧ Tally.reader ⟨.text, some 127⟩ (.ofValue a.toValue) = .ok a := by
    rintro _ (_ | ⟨_, _ | ⟨_, ⟨⟩⟩⟩)
    · exact ⟨⟨trivial, ⟨by decide, by decide⟩, trivial⟩, rfl⟩
    · exact ⟨⟨trivial, ⟨by decide, by decide⟩, trivial⟩, rfl⟩
  obtain ⟨text, hsave, hlist⟩ := hjson _ hexact
  have hdecodes := htext _ _ _ hlist
  obtain ⟨v, hv⟩ := hdecodes.succeeds_iff.mpr (by decide)
  obtain ⟨hindexed, hitems⟩ := hdecodes.indexed v hv
  refine ⟨⟨text, v, hsave, hv, ?_⟩, ?_, _, rfl, rfl⟩
  · rw [hindexed.position?_eq, hitems]
    rfl
  · refine (hterm [⟨"a", 1⟩, ⟨"a", 2⟩] .top ⟨.text, some 127⟩ rfl ?_).2 (by decide)
    rintro _ (_ | ⟨_, _ | ⟨_, ⟨⟩⟩⟩)
    · rfl
    · rfl

end StageFlow.KeyedVec
