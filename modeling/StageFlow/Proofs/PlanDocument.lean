import StageFlow.Documents
import StageFlow.Proofs.Reading

/-!
# Plans survive being written

What the printers write of a plan, the readers of records take for the same plan. The link lists that a record
leaves out and the stage that is read in full before its variant is looked into are where that could go wrong.

## Contents
- **Records.** `NodeRecord.reader_toValue`, for a record with all the records inside its links.
- **Stages and plans.** `Stage.reader_toValue` and `Plan.reader_toValue`.
- **Depth.** `Plan.reader_tooDeep`, where there is no room for a plan.
- **JSON.** `Plan.load_json`.
-/

namespace StageFlow

/-! ## Records -/

/-- A link is read back if its peer is. -/
theorem Link.reader_map {label side : String} {r : Reader NodeRecord} {p : Place} {t : Term}
    {peer : NodeRecord} (hside : side ≠ "out" ∧ side ≠ "in") (hp : p.room = none) (hr : r p t = .ok peer)
    (output input : String) :
    Link.reader label side r p (.map [(⟨.ok side, none⟩, t), (⟨.ok "out", none⟩, .text (.ok output)),
      (⟨.ok "in", none⟩, .text (.ok input))] .closed) = .ok ⟨peer, output, input⟩ := by
  refine record_map (Place.inside_of_unlimited hp) ⟨["in", "out", side], ?_, ?_⟩
  · refine (Record.readEntries_cons _ _ (Record.find?_head ..) List.not_mem_nil (Field.read_of hr)).trans ?_
    refine (Record.readEntries_cons _ _ ((Record.find?_tail hside.1).trans (Record.find?_head ..))
      (by simp [Field.of, hside.1.symm]) (Field.read_of rfl)).trans ?_
    exact Record.readEntries_cons _ _
      ((Record.find?_tail hside.2).trans ((Record.find?_tail (by decide)).trans (Record.find?_head ..)))
      (by simp [Field.of, hside.2.symm]) (Field.read_of rfl)
  · simp [Record.missing?, Field.of]

theorem NodeRecord.depth_toValue (id : NodeId) (up down : List (Link NodeRecord)) :
    Value.depth.depthList (linksToValues "from" up) < (NodeRecord.toValue ⟨id, up, down⟩).depth ∧
      Value.depth.depthList (linksToValues "to" down) < (NodeRecord.toValue ⟨id, up, down⟩).depth := by
  have hentry (name : String) (links : List Value) :
      Value.depth.depthList links ≤ Value.depth.depthEntries (linksEntry name links) := by
    unfold linksEntry
    split
    · rename_i h
      rw [List.isEmpty_iff.mp h]
      exact Nat.le_refl 0
    · exact Nat.le_trans (Nat.le_succ _) (Nat.le_max_left ..)
  have hup := hentry "upstream" (linksToValues "from" up)
  have hdown := hentry "downstream" (linksToValues "to" down)
  rw [NodeRecord.toValue, Value.depth, Value.depth.depthEntries, Value.depthEntries_append]
  omega

/-- A record is read back if its links are. -/
theorem NodeRecord.read_fields {p : Place} {peer : Reader NodeRecord} {us ds : List Value}
    {up down : List (Link NodeRecord)} (hp : p.room = none) (id : NodeId)
    (hup : Reader.items (Link.reader "struct UpstreamEdge" "from" peer) p 0 (ofValueList us) = .ok up)
    (hdown : Reader.items (Link.reader "struct DownstreamEdge" "to" peer) p 0 (ofValueList ds) = .ok down) :
    record "struct PlanNodeInfo" (fields peer) { id := ⟨""⟩ } p (.ofValue (.map (("id", id.toValue) ::
      (linksEntry "upstream" us ++ linksEntry "downstream" ds)))) = .ok ⟨id, up, down⟩ := by
  have hin := Place.inside_of_unlimited hp
  have hupField : (upstream peer).read p (.ofValue (.list us)) = .ok fun r => { r with incoming := up } :=
    Field.read_of (Reader.list_items hin hup)
  have hdownField : (downstream peer).read p (.ofValue (.list ds)) = .ok fun r => { r with outgoing := down } :=
    Field.read_of (Reader.list_items hin hdown)
  have hnoUp : us = [] → [] = up := by
    rintro rfl
    exact Except.ok.inj hup
  have hnoDown : ds = [] → [] = down := by
    rintro rfl
    exact Except.ok.inj hdown
  obtain ⟨seen, index, hseen, hold, hfirst⟩ := Record.readEntries_list
    (ofValueEntries (linksEntry "downstream" ds)) 1
    (show (fields peer).find? (·.name = "upstream") = some (upstream peer) from rfl)
    (show "upstream" ∉ ["id"] by decide) (fun _ => hupField) (a := ⟨id, [], []⟩) (fun h => by rw [← hnoUp h])
  obtain ⟨all, _, hall, _, hsecond⟩ := Record.readEntries_list [] index
    (show (fields peer).find? (·.name = "downstream") = some (downstream peer) from rfl)
    (fun h => absurd (hold h) (by decide)) (fun _ => hdownField) (a := ⟨id, up, []⟩) (fun h => by rw [← hnoDown h])
  rw [List.append_nil] at hsecond
  rw [Term.ofValue, ofValueEntries, ofValueEntries_append]
  refine record_map hin ⟨all, ?_, ?_⟩
  · exact (Record.readEntries_cons _ _ (Record.find?_head ..) List.not_mem_nil (Field.read_of rfl)).trans
      (hfirst.trans hsecond)
  · have hid : "id" ∈ all := hall (hseen (List.mem_singleton_self "id"))
    simp [Record.missing?, fields, Field.of, upstream, downstream, hid]

mutual

/-- **A record is read back**, with all the records inside of its links. -/
theorem NodeRecord.reader_toValue {p : Place} (hp : p.room = none) :
    (fuel : Nat) → (r : NodeRecord) → r.toValue.depth < fuel →
      NodeRecord.reader fuel p (.ofValue r.toValue) = .ok r
  | fuel + 1, ⟨id, up, down⟩, h => by
    obtain ⟨hup, hdown⟩ := NodeRecord.depth_toValue id up down
    rw [NodeRecord.toValue, NodeRecord.reader]
    exact NodeRecord.read_fields hp id
      (Link.items_toValues hp "struct UpstreamEdge" "from" (by decide) fuel up (by omega) 0)
      (Link.items_toValues hp "struct DownstreamEdge" "to" (by decide) fuel down (by omega) 0)

/-- Links are read back. -/
theorem Link.items_toValues {p : Place} (hp : p.room = none) (label side : String)
    (hside : side ≠ "out" ∧ side ≠ "in") :
    (fuel : Nat) → (ls : List (Link NodeRecord)) → Value.depth.depthList (linksToValues side ls) < fuel →
      (index : Nat) → Reader.items (Link.reader label side (NodeRecord.reader fuel)) p index
        (ofValueList (linksToValues side ls)) = .ok ls
  | _, [], _, _ => rfl
  | fuel, ⟨peer, output, input⟩ :: ls, h, index => by
    have hdepth : Value.depth.depthList (linksToValues side (⟨peer, output, input⟩ :: ls))
        = max (max peer.toValue.depth 0 + 1) (Value.depth.depthList (linksToValues side ls)) := by
      simp [linksToValues, Value.depth.depthList, Value.depth, Value.depth.depthEntries]
    have hpeer := NodeRecord.reader_toValue hp fuel peer (by omega)
    have hrest := Link.items_toValues hp label side hside fuel ls (by omega) (index + 1)
    rw [linksToValues, ofValueList, Reader.items]
    simp only [Term.ofValue, ofValueEntries]
    rw [Link.reader_map hside hp hpeer, withinItem_ok, ok_bind, hrest]
    rfl

end

/-! ## Stages and plans -/

theorem Reader.items_records {p : Place} (hp : p.room = none) {fuel : Nat} (rs : List NodeRecord)
    (h : Value.depth.depthList (rs.map NodeRecord.toValue) < fuel) (index : Nat) :
    Reader.items (NodeRecord.reader fuel) p index (ofValueList (rs.map NodeRecord.toValue)) = .ok rs := by
  refine items_ofValue (fun r hr => NodeRecord.reader_toValue hp fuel r ?_) index
  exact Nat.lt_of_le_of_lt (Value.depth_le_depthList (List.mem_map_of_mem hr)) h

/-- The content of a stage is a record of one field. -/
theorem Stage.content_record (label : String) {key : String} {β : Type} {r : Reader β}
    {set : β → Stage → Stage} {blank : Stage} {t : Term} {x : β} (h : r .buffered t = .ok x) :
    record label [.of key true r set] blank .buffered (.map [(⟨.ok key, none⟩, t)] .closed)
      = .ok (set x blank) := by
  refine record_map (Place.inside_of_unlimited rfl) ⟨[key], ?_, by simp [Record.missing?, Field.of]⟩
  exact Record.readEntries_cons _ _ (Record.find?_head ..) List.not_mem_nil (Field.read_of h)

/-- The content of a stage is read back. -/
theorem Stage.ofContent_static (nodes : List NodeRecord) :
    Stage.ofContent "static" (.ofValue (.map [("nodes", .list (nodes.map NodeRecord.toValue))]))
      = .ok (.static nodes) := by
  have hdepth : Value.depth.depthList (nodes.map NodeRecord.toValue)
      < (Value.map [("nodes", .list (nodes.map NodeRecord.toValue))]).depth + 1 := by
    simp only [Value.depth, Value.depth.depthEntries]
    omega
  have hnodes := Reader.items_records (p := .buffered) rfl nodes hdepth 0
  have hlist := Reader.list_items (Place.inside_of_unlimited rfl) hnodes
  rw [Stage.ofContent, Term.depth_ofValue]
  exact congrArg (Except.mapError _) (Stage.content_record "struct variant Stage::Static" hlist)

theorem Stage.ofContent_vm (node : NodeRecord) :
    Stage.ofContent "vm" (.ofValue (.map [("node", node.toValue)])) = .ok (.vm node) := by
  have hdepth : node.toValue.depth < (Value.map [("node", node.toValue)]).depth + 1 := by
    simp only [Value.depth, Value.depth.depthEntries]
    omega
  have hnode := NodeRecord.reader_toValue (p := .buffered) rfl _ node hdepth
  rw [Stage.ofContent, Term.depth_ofValue]
  exact congrArg (Except.mapError _) (Stage.content_record "struct variant Stage::Vm" hnode)

/-- What stands behind the tag of a stage is read in full. -/
theorem Stage.readEntries_tagged {room : Room} {name key : String} {v : Value} (hv : room.Holds v.depth)
    (hname : name = "static" ∨ name = "vm") (hkey : key ≠ "type") :
    Stage.readEntries room 0 (ofValueEntries [("type", .text name), (key, v)]) none
      = .ok (some name, ofValueEntries [(key, v)]) := by
  have htag : Stage.tagName (.text (.ok name)) = .ok name := by
    rcases hname with rfl | rfl <;> rfl
  rw [ofValueEntries, ofValueEntries, Stage.readEntries]
  simp only [unplaced_ok, ok_bind, if_pos, Term.ofValue, htag, withinEntry_ok]
  rw [Stage.readEntries, Term.value_ofValue v hv]
  simp only [unplaced_ok, ok_bind, if_neg hkey]
  rfl

/-- **A stage is read back** where there is room for it. -/
theorem Stage.reader_toValue {p : Place} (stage : Stage) (h : p.room.Holds stage.toValue.depth) :
    Stage.reader p (.ofValue stage.toValue) = .ok stage := by
  -- The tag has no depth, so that the room is for the content.
  obtain ⟨name, key, v, hstage, hname, hkey, hcontent⟩ : ∃ name key v,
      stage.toValue = .map [("type", .text name), (key, v)] ∧ (name = "static" ∨ name = "vm") ∧
        key ≠ "type" ∧ Stage.ofContent name (.ofValue (.map [(key, v)])) = .ok stage := by
    cases stage with
    | static nodes => exact ⟨"static", "nodes", _, rfl, .inl rfl, by decide, Stage.ofContent_static nodes⟩
    | vm node => exact ⟨"vm", "node", _, rfl, .inr rfl, by decide, Stage.ofContent_vm node⟩
  rw [hstage] at h ⊢
  obtain ⟨inner, hinner, hroom⟩ := h.inside
  have hv : inner.Holds v.depth := hroom.mono (Nat.le_trans (Nat.le_max_left ..) (Nat.le_max_right ..))
  rw [Term.ofValue, Stage.reader, hinner, ok_bind, Stage.readEntries_tagged hv hname hkey]
  exact hcontent

/-- **A plan is read back** where there is room for it. -/
theorem Plan.reader_toValue {p : Place} (plan : Plan) (h : p.room.Holds plan.toValue.depth) :
    Plan.reader p (.ofValue plan.toValue) = .ok plan := by
  obtain ⟨outer, houter, hroom⟩ := h.inside
  have hread : Reader.list Stage.reader ⟨p.source, outer⟩ (.ofValue (.list (plan.stages.map Stage.toValue)))
      = .ok plan.stages :=
    Reader.list_ofValue (hroom.mono (Nat.le_max_left ..)) fun stage _ _ hstage => stage.reader_toValue hstage
  refine record_map houter ⟨["stages"], ?_, by simp [Record.missing?, Field.of]⟩
  exact Record.readEntries_cons _ _ (Record.find?_head ..) List.not_mem_nil (Field.read_of hread)

/-! ## Depth -/

/-- The outcome is that lists and maps are nested too deep. -/
def IsTooDeep {α : Type} (r : Except PlacedFault α) : Prop := ∃ spot, r = .error ⟨.nestedTooDeep, spot⟩

namespace IsTooDeep

variable {α β : Type} {r : Except PlacedFault α}

theorem bind (h : IsTooDeep r) (f : α → Except PlacedFault β) : IsTooDeep (r >>= f) := by
  obtain ⟨spot, rfl⟩ := h
  exact ⟨spot, rfl⟩

theorem map (h : IsTooDeep r) (f : α → β) : IsTooDeep (r.map f) := by
  obtain ⟨spot, rfl⟩ := h
  exact ⟨spot, rfl⟩

theorem withinItem (h : IsTooDeep r) (index : Nat) : IsTooDeep (withinItem index r) := by
  obtain ⟨spot, rfl⟩ := h
  exact ⟨_, rfl⟩

theorem withinEntry (h : IsTooDeep r) (index : Nat) : IsTooDeep (withinEntry index r) := by
  obtain ⟨spot, rfl⟩ := h
  exact ⟨_, rfl⟩

end IsTooDeep

/-- Inside of a list or map there is one less to open. -/
theorem enter_some (n : Nat) : enter (some (n + 1)) = if n = 0 then .error .nestedTooDeep else .ok (some n) := by
  cases n <;> rfl

mutual

/-- A value for which there is no room is refused where the room ends. -/
theorem Term.value_tooDeep : (v : Value) → (n : Nat) → n < v.depth →
    (Term.ofValue v).value (some (n + 1)) = .error .nestedTooDeep
  | .list items, n, h => by
    rw [Term.ofValue, Term.value, enter_some]
    split
    · rfl
    · obtain ⟨m, rfl⟩ := Nat.exists_eq_succ_of_ne_zero ‹_›
      rw [ok_bind, valueList_tooDeep items m (Nat.lt_of_succ_lt_succ h)]
      rfl
  | .map entries, n, h => by
    rw [Term.ofValue, Term.value, enter_some]
    split
    · rfl
    · obtain ⟨m, rfl⟩ := Nat.exists_eq_succ_of_ne_zero ‹_›
      rw [ok_bind, valueEntries_tooDeep entries m (Nat.lt_of_succ_lt_succ h)]
      rfl

theorem valueList_tooDeep : (vs : List Value) → (n : Nat) → n < Value.depth.depthList vs →
    valueList (some (n + 1)) (ofValueList vs) = .error .nestedTooDeep
  | v :: vs, n, h => by
    rw [Value.depth.depthList] at h
    rw [ofValueList, valueList]
    by_cases hv : n < v.depth
    · rw [Term.value_tooDeep v n hv]
      rfl
    · rw [Term.value_ofValue v (by rintro _ ⟨⟩; omega), ok_bind, valueList_tooDeep vs n (by omega)]
      rfl

theorem valueEntries_tooDeep : (es : List (String × Value)) → (n : Nat) → n < Value.depth.depthEntries es →
    valueEntries (some (n + 1)) (ofValueEntries es) = .error .nestedTooDeep
  | (k, v) :: es, n, h => by
    replace h : n < max v.depth (Value.depth.depthEntries es) := h
    rw [ofValueEntries, valueEntries]
    by_cases hv : n < v.depth
    · rw [Term.value_tooDeep v n hv]
      rfl
    · rw [Term.value_ofValue v (by rintro _ ⟨⟩; omega), valueEntries_tooDeep es n (by omega)]
      rfl

end

section

variable {p : Place} {n : Nat}

/-- Going inside where nothing more can be opened. -/
theorem Place.inside_some (hp : p.room = some (n + 1)) :
    IsTooDeep p.inside ∨ ∃ m, n = m + 1 ∧ p.inside = .ok ⟨p.source, some (m + 1)⟩ := by
  rw [Place.inside, hp, enter_some]
  cases n with
  | zero => exact .inl ⟨_, rfl⟩
  | succ m => exact .inr ⟨m, rfl, rfl⟩

theorem Stage.reader_tooDeep (stage : Stage) (hp : p.room = some (n + 1)) (h : n < stage.toValue.depth) :
    IsTooDeep (Stage.reader p (.ofValue stage.toValue)) := by
  obtain ⟨name, key, v, hstage, hname, hkey⟩ : ∃ name key v,
      stage.toValue = .map [("type", .text name), (key, v)] ∧ (name = "static" ∨ name = "vm") ∧ key ≠ "type" := by
    cases stage with
    | static nodes => exact ⟨"static", "nodes", _, rfl, .inl rfl, by decide⟩
    | vm node => exact ⟨"vm", "node", _, rfl, .inr rfl, by decide⟩
  rw [hstage] at h ⊢
  rw [Term.ofValue, Stage.reader]
  rcases Place.inside_some hp with hdeep | ⟨m, rfl, hinside⟩
  · exact hdeep.bind _
  · have hdepth : m < v.depth := by
      simp only [Value.depth, Value.depth.depthEntries] at h
      omega
    have htag : Stage.tagName (.text (.ok name)) = .ok name := by
      rcases hname with rfl | rfl <;> rfl
    refine ⟨.unknown, ?_⟩
    rw [hinside, ok_bind, ofValueEntries, ofValueEntries, Stage.readEntries]
    simp only [unplaced_ok, ok_bind, if_pos, Term.ofValue, htag, withinEntry_ok]
    rw [Stage.readEntries, Term.value_tooDeep v m hdepth]
    simp only [unplaced_ok, ok_bind, if_neg hkey]
    rfl

theorem Reader.items_tooDeep (stages : List Stage) (hp : p.room = some (n + 1))
    (h : n < Value.depth.depthList (stages.map Stage.toValue)) (index : Nat) :
    IsTooDeep (Reader.items Stage.reader p index (ofValueList (stages.map Stage.toValue))) := by
  induction stages generalizing index with
  | nil => exact absurd h (Nat.not_lt_zero n)
  | cons stage stages ih =>
    rw [List.map_cons, Value.depth.depthList] at h
    rw [List.map_cons, ofValueList, Reader.items]
    by_cases hstage : n < stage.toValue.depth
    · exact ((Stage.reader_tooDeep stage hp hstage).withinItem index).bind _
    · have hroom : p.room.Holds stage.toValue.depth := by
        rw [hp]
        rintro _ ⟨⟩
        omega
      rw [Stage.reader_toValue stage hroom, withinItem_ok, ok_bind]
      exact (ih (by omega) (index + 1)).bind _

theorem Record.readEntries_tooDeep {α : Type} {fields : List (Field α)} {index : Nat} {seen : List String}
    {name : String} {f : Field α} {t : Term} (es : List (Key × Term)) (a : α)
    (hf : fields.find? (·.name = name) = some f) (hnew : name ∉ seen) (hread : IsTooDeep (f.read p t)) :
    IsTooDeep (readEntries fields p index ((⟨.ok name, none⟩, t) :: es) seen a) := by
  rw [readEntries, fieldName_text, ok_bind, hf]
  simp only [if_neg hnew]
  exact (hread.withinEntry index).bind _

/-- **A plan is refused where there is no room for it.** -/
theorem Plan.reader_tooDeep (plan : Plan) (hp : p.room = some (n + 1)) (h : n < plan.toValue.depth) :
    IsTooDeep (Plan.reader p (.ofValue plan.toValue)) := by
  replace h : n < max (Value.depth.depthList (plan.stages.map Stage.toValue) + 1) 0 + 1 := h
  rcases Place.inside_some hp with hdeep | ⟨m, rfl, hinside⟩
  · exact hdeep.bind _
  have hlist : IsTooDeep (Reader.list Stage.reader ⟨p.source, some (m + 1)⟩
      (.ofValue (.list (plan.stages.map Stage.toValue)))) := by
    rw [Term.ofValue, Reader.list]
    rcases Place.inside_some (p := ⟨p.source, some (m + 1)⟩) rfl with hdeep | ⟨l, rfl, hinside⟩
    · exact hdeep.bind _
    · rw [hinside, ok_bind]
      exact (Reader.items_tooDeep plan.stages rfl (by omega) 0).bind _
  rw [Plan.toValue, Term.ofValue, Plan.reader, record, hinside, ok_bind]
  exact (Record.readEntries_tooDeep _ _ (Record.find?_head ..) List.not_mem_nil (hlist.map _)).bind _

end

/-! ## JSON -/

theorem exactEntries_linksEntry (name : String) {links : List Value} (h : exactItems links) :
    exactEntries (linksEntry name links) := by
  unfold linksEntry
  split
  · trivial
  · exact ⟨h, trivial⟩

mutual

theorem NodeRecord.isExact_toValue : (r : NodeRecord) → r.toValue.IsExact
  | ⟨_, up, down⟩ =>
    ⟨trivial, exactEntries_append
      (exactEntries_linksEntry "upstream" (exactItems_linksToValues "from" up))
      (exactEntries_linksEntry "downstream" (exactItems_linksToValues "to" down))⟩

theorem exactItems_linksToValues (side : String) :
    (ls : List (Link NodeRecord)) → exactItems (linksToValues side ls)
  | [] => trivial
  | ⟨peer, _, _⟩ :: ls =>
    ⟨⟨NodeRecord.isExact_toValue peer, trivial, trivial, trivial⟩, exactItems_linksToValues side ls⟩

end

theorem Stage.isExact_toValue (stage : Stage) : stage.toValue.IsExact := by
  cases stage with
  | static nodes => exact ⟨trivial, exactItems_map fun r _ => r.isExact_toValue, trivial⟩
  | vm node => exact ⟨trivial, node.isExact_toValue, trivial⟩

theorem Plan.isExact_toValue (plan : Plan) : plan.toValue.IsExact :=
  ⟨exactItems_map fun stage _ => stage.isExact_toValue, trivial⟩

/-- **A plan that opens at most 127 lists and maps inside each other comes back from JSON text.** -/
theorem Plan.load_json (plan : Plan) (h : plan.toValue.depth ≤ 127) :
    ∃ text, save? .json plan.toValue = some text ∧ Plan.load .json text = .ok plan := by
  have hroom : fullRoom.Holds plan.toValue.depth := by
    rintro _ ⟨⟩
    omega
  refine ⟨_, rfl, ?_⟩
  rw [Plan.load, load_indentedText Plan.reader plan.isExact_toValue, Plan.reader_toValue (p := .top) plan hroom]
  rfl

/-- A plan whose texts need escapes, or are empty. -/
def Plan.escapedSample : Plan :=
  let deep : NodeRecord := ⟨⟨""⟩, [⟨{ id := ⟨"deep"⟩ }, "", "\t"⟩], []⟩
  ⟨[.static [⟨⟨"say \"hi\"\\\n\x01é"⟩, [⟨deep, "out", "in"⟩], []⟩, { id := ⟨"😀"⟩ }], .vm { id := ⟨"inner"⟩ }]⟩

theorem Plan.load_json_escapedSample :
    escapedSample.toValue.depth ≤ 127 ∧ ∃ text, save? .json escapedSample.toValue = some text ∧
      Plan.load .json text = .ok escapedSample :=
  ⟨by decide, load_json escapedSample (by decide)⟩

end StageFlow
