import StageFlow.Documents
import StageFlow.Proofs.Reading
import StageFlow.Proofs.SortedMap

/-!
# Graphs survive being written as JSON

A graph is read back from what the printer writes of it, with the free data of its nodes: a map that is absent
is left out, an empty one is not, and edges are left out only if there are none. Whether every node has an
identifier is looked at behind all this, so that the same text is refused for one empty identifier anywhere.

## Contents
- **Free data.** `Object.IsPlain`, and `Object.reader_toValue`.
- **Nodes and edges.** Each is a record; the maps of a node may be left out.
- **Graphs.** `Graph.reader_toValue`, and `Graph.accept_eq`, what makes a graph that was read acceptable.
- **JSON.** `Graph.load_written`.
-/

namespace StageFlow

/-! ## Free data -/

/-- A map is what adding its entries makes. -/
theorem SortedMap.ofEntries_entries {α : Type} (m : SortedMap α) : ofEntries m.entries = m := by
  apply ext_get?
  intro k
  rw [ofEntries, get?_insertAll m.nodup_keys, get?_empty, Option.or_none, get?]

/-- Free data in memory, without doubles: every number is an integer of 64 bits, signed or not, and the maps
inside are in key order, as a map is. -/
structure Object.IsPlain (o : Object) : Prop where
  exact : exactEntries o.entries
  ordered : ∀ e ∈ o.entries, e.2.normalize = e.2

theorem normalizeEntries_eq_self {es : List (String × Value)} (h : ∀ e ∈ es, e.2.normalize = e.2) :
    normalizeEntries es = es := by
  induction es with
  | nil => rfl
  | cons e es ih =>
    rw [normalizeEntries, h e List.mem_cons_self, ih fun d hd => h d (List.mem_cons_of_mem e hd)]

/-- **Free data is read back** where there is room for it. -/
theorem Object.reader_toValue {p : Place} {o : Object} (ho : o.IsPlain)
    (h : p.room.Holds (Object.toValue o).depth) : Reader.object p (.ofValue o.toValue) = .ok o := by
  have hvalue : Reader.anyValue p (.map (ofValueEntries o.entries) .closed) = .ok (.map o.entries) := by
    have hread : (Term.map (ofValueEntries o.entries) .closed).value p.room = .ok (.map o.entries) :=
      Term.value_ofValue (Object.toValue o) h
    rw [Reader.anyValue, hread, Except.map, unplaced_ok, Value.normalize, normalizeEntries_eq_self ho.ordered,
      SortedMap.ofEntries_entries]
  rw [Object.toValue, Term.ofValue, Reader.object, hvalue, ok_bind]
  exact congrArg Except.ok (SortedMap.ofEntries_entries o)

/-! ## Nodes and edges -/

/-- The free data of a node is plain. -/
structure NodeDescriptor.IsPlain (n : NodeDescriptor) : Prop where
  configuration : ∀ o ∈ n.configuration, Object.IsPlain o
  metadata : ∀ o ∈ n.metadata, Object.IsPlain o

/-- A field for free data that may be absent, and then is left out. -/
theorem Record.readEntries_object {α : Type} {fields : List (Field α)} {p : Place} {seen : List String}
    {name : String} {m : Option Object} {set : Option Object → α → α} (es : List (Key × Term)) (index : Nat)
    (a : α) (hf : fields.find? (·.name = name) = some (.of name false (Reader.optional Reader.object) set))
    (hnew : name ∉ seen) (hm : ∀ o ∈ m, Object.IsPlain o)
    (h : p.room.Holds (Value.depth.depthEntries (optionalEntry name m))) (hblank : set none a = a) :
    ∃ seen' index', seen ⊆ seen' ∧ seen' ⊆ name :: seen ∧
      readEntries fields p index (ofValueEntries (optionalEntry name m) ++ es) seen a
        = readEntries fields p index' es seen' (set m a) := by
  refine readEntries_optional es index hf hnew ?_
  cases m with
  | none => exact Or.inl ⟨rfl, hblank⟩
  | some o =>
    refine Or.inr ⟨_, rfl, Field.read_of ?_⟩
    have hread := Object.reader_toValue (hm o rfl) (h.mono (Nat.le_max_left ..))
    show (Reader.object p (.ofValue o.toValue)).map some = _
    rw [hread]
    rfl

/-- **A node is read back** where there is room for it. -/
theorem NodeDescriptor.reader_toValue {p : Place} {n : NodeDescriptor} (hn : n.IsPlain)
    (h : p.room.Holds n.toValue.depth) : NodeDescriptor.reader p (.ofValue n.toValue) = .ok n := by
  obtain ⟨id, kind, configuration, metadata⟩ := n
  obtain ⟨inner, hinner, hroom⟩ := h.inside
  rw [Value.depthEntries_append, Value.depthEntries_append] at hroom
  -- each of the two maps may be left out, so it is not known at which index the second one stands
  obtain ⟨seen, index, hseen, hold, hfirst⟩ := Record.readEntries_object (p := ⟨p.source, inner⟩)
    (ofValueEntries (optionalEntry "metadata" metadata)) 2 (NodeDescriptor.mk id kind none none)
    (show fields.find? (·.name = "configuration") = some _ from rfl)
    (show "configuration" ∉ ["type", "id"] by decide) hn.configuration
    (hroom.mono (Nat.le_trans (Nat.le_max_right ..) (Nat.le_max_left ..))) rfl
  obtain ⟨all, _, hall, _, hsecond⟩ := Record.readEntries_object (p := ⟨p.source, inner⟩)
    [] index (NodeDescriptor.mk id kind configuration none)
    (show fields.find? (·.name = "metadata") = some _ from rfl)
    (fun hmem => absurd (hold hmem) (by decide)) hn.metadata (hroom.mono (Nat.le_max_right ..)) rfl
  rw [List.append_nil] at hsecond
  rw [NodeDescriptor.toValue, Term.ofValue, ofValueEntries_append, ofValueEntries_append, List.append_assoc]
  refine record_map hinner ⟨all, ?_, ?_⟩
  · refine (Record.readEntries_cons _ _ (Record.find?_head ..) List.not_mem_nil (Field.read_of rfl)).trans ?_
    refine (Record.readEntries_cons _ _ ((Record.find?_tail (by decide)).trans (Record.find?_head ..))
      (by decide) (Field.read_of rfl)).trans ?_
    exact hfirst.trans hsecond
  · have hid : "id" ∈ all := hall (hseen (by decide))
    have htype : "type" ∈ all := hall (hseen (by decide))
    simp [Record.missing?, fields, Field.of, hid, htype]

/-- **An edge is read back.** -/
theorem GraphEdge.reader_toValue {p : Place} (e : GraphEdge) (h : p.room.Holds e.toValue.depth) :
    GraphEdge.reader p (.ofValue e.toValue) = .ok e := by
  obtain ⟨inner, hinner, -⟩ := h.inside
  refine record_map hinner ⟨["in", "out", "to", "from"], ?_, by decide⟩
  refine Eq.trans (Record.readEntries_cons _ _ rfl List.not_mem_nil (Field.read_of rfl)) ?_
  refine Eq.trans (Record.readEntries_cons _ _ rfl (by decide) (Field.read_of rfl)) ?_
  refine Eq.trans (Record.readEntries_cons _ _ rfl (by decide) (Field.read_of rfl)) ?_
  refine Eq.trans (Record.readEntries_cons _ _ rfl (by decide) (Field.read_of rfl)) ?_
  rfl

/-! ## Graphs -/

/-- The free data of every node is plain. -/
def Graph.IsPlain (g : Graph) : Prop := ∀ n ∈ g.nodes, n.IsPlain

/-- **A graph is read back** where there is room for it. -/
theorem Graph.reader_toValue {p : Place} {g : Graph} (hg : g.IsPlain) (h : p.room.Holds g.toValue.depth) :
    Graph.reader p (.ofValue g.toValue) = .ok g := by
  obtain ⟨nodes, edges⟩ := g
  obtain ⟨inner, hinner, hroom⟩ := h.inside
  have hnodes : Reader.list NodeDescriptor.reader ⟨p.source, inner⟩
      (.ofValue (.list (nodes.map NodeDescriptor.toValue))) = .ok nodes :=
    Reader.list_ofValue (hroom.mono (Nat.le_max_left ..)) fun n hn _ => NodeDescriptor.reader_toValue (hg n hn)
  have hedges : edges.map GraphEdge.toValue ≠ [] → Reader.list GraphEdge.reader ⟨p.source, inner⟩
      (.ofValue (.list (edges.map GraphEdge.toValue))) = .ok edges := by
    intro hsome
    have hentry := hroom.mono (Nat.le_max_right ..)
    rw [listEntry, if_neg (mt List.isEmpty_iff.mp hsome)] at hentry
    exact Reader.list_ofValue (hentry.mono (Nat.le_max_left ..)) fun e _ _ => e.reader_toValue
  obtain ⟨all, _, hall, _, hentries⟩ := Record.readEntries_list (p := ⟨p.source, inner⟩) (a := Graph.mk nodes [])
    [] 1 (show fields.find? (·.name = "edges") = some _ from rfl) (show "edges" ∉ ["nodes"] by decide)
    (fun hsome => Field.read_of (hedges hsome)) fun hnone => by rw [List.map_eq_nil_iff.mp hnone]
  rw [List.append_nil] at hentries
  refine record_map hinner ⟨all, ?_, ?_⟩
  · refine Eq.trans (Record.readEntries_cons _ _ rfl List.not_mem_nil (Field.read_of hnodes)) ?_
    exact hentries
  · have hname : "nodes" ∈ all := hall (by decide)
    simp [Record.missing?, fields, Field.of, hname]

theorem NodeDescriptor.isExact_toValue {n : NodeDescriptor} (hn : n.IsPlain) : n.toValue.IsExact := by
  have hentry : ∀ (name : String) (m : Option Object), (∀ o ∈ m, Object.IsPlain o) →
      exactEntries (optionalEntry name m) := by
    intro name m hm
    cases m with
    | none => trivial
    | some o => exact ⟨(hm o rfl).exact, trivial⟩
  exact exactEntries_append (exactEntries_append ⟨trivial, trivial, trivial⟩
    (hentry "configuration" _ hn.configuration)) (hentry "metadata" _ hn.metadata)

theorem Graph.isExact_toValue {g : Graph} (hg : g.IsPlain) : g.toValue.IsExact := by
  refine ⟨exactItems_map fun n hn => NodeDescriptor.isExact_toValue (hg n hn), ?_⟩
  unfold listEntry
  split
  · trivial
  · exact ⟨exactItems_map fun e _ => ⟨trivial, trivial, trivial, trivial, trivial⟩, trivial⟩

/-- A graph is accepted just if no node has an empty identifier. -/
theorem Graph.accept_eq (g : Graph) : g.accept
    = if ∀ n ∈ g.nodes, n.id.text ≠ "" then .ok g else .error (.invalid "Node has empty id") := by
  have hvalid : g.isValid = true ↔ ∀ n ∈ g.nodes, n.id.text ≠ "" := by
    simp [isValid, NodeId.isEmpty]
  rw [accept]
  by_cases h : ∀ n ∈ g.nodes, n.id.text ≠ ""
  · rw [if_pos (hvalid.mpr h), if_pos h]
  · rw [if_neg (mt hvalid.mp h), if_neg h]

/-! ## JSON -/

/-- **A graph comes back from JSON text**, if it holds no doubles and opens at most 127 lists and maps inside each
other: the same nodes with the same free data, absent, empty or not, and the same edges, in the same order. It is
refused instead if the identifier of some node is empty. -/
theorem Graph.load_written {g : Graph} (hg : g.IsPlain) (h : g.toValue.depth ≤ 127) :
    ∃ text, save? .json g.toValue = some text ∧ Graph.load .json text
      = if ∀ n ∈ g.nodes, n.id.text ≠ "" then .ok g else .error (.invalid "Node has empty id") := by
  have hroom : fullRoom.Holds g.toValue.depth := by
    rintro _ ⟨⟩
    omega
  refine ⟨_, rfl, ?_⟩
  rw [Graph.load, load_indentedText Graph.reader (Graph.isExact_toValue hg),
    Graph.reader_toValue (p := .top) hg hroom, ← Graph.accept_eq]
  rfl

/-- A graph with nested data under a key that needs escapes, a map without entries and a node without maps. -/
def Graph.dataSample (last : String) : Graph :=
  let inner : Value := .list [.map [("x", .null), ("y", .int (-1))], .text ""]
  ⟨[⟨⟨"a"⟩, "source", some ⟨[("deep \"key\"\n", inner), ("limit", .int 18446744073709551615)], by decide⟩, some ∅⟩,
    ⟨⟨last⟩, "", none, none⟩], [⟨⟨"a"⟩, ⟨"b"⟩, "out", ""⟩]⟩

theorem Graph.load_written_dataSample :
    (dataSample "b").IsPlain ∧ (dataSample "b").toValue.depth ≤ 127
      ∧ (∃ text, save? .json (dataSample "b").toValue = some text
        ∧ Graph.load .json text = .ok (dataSample "b"))
      ∧ ∃ text, save? .json (dataSample "").toValue = some text
        ∧ Graph.load .json text = .error (.invalid "Node has empty id") := by
  have hplain : ∀ last, (dataSample last).IsPlain := by
    rintro last _ (_ | ⟨_, _ | ⟨_, ⟨⟩⟩⟩)
    · refine ⟨?_, ?_⟩
      · rintro _ ⟨⟩
        refine ⟨⟨⟨⟨trivial, ⟨by decide, by decide⟩, trivial⟩, trivial, trivial⟩,
          ⟨by decide, by decide⟩, trivial⟩, ?_⟩
        rintro _ (_ | ⟨_, _ | ⟨_, ⟨⟩⟩⟩)
        · rfl
        · rfl
      · rintro _ ⟨⟩
        exact ⟨trivial, nofun⟩
    · exact ⟨nofun, nofun⟩
  obtain ⟨text, hsave, hload⟩ := load_written (hplain "b") (by decide)
  obtain ⟨text', hsave', hload'⟩ := load_written (hplain "") (by decide)
  refine ⟨hplain "b", by decide, ⟨text, hsave, ?_⟩, text', hsave', ?_⟩
  · rw [hload, if_pos (by decide)]
  · rw [hload', if_neg (by decide)]

end StageFlow
