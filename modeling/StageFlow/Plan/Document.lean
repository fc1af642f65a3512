import StageFlow.Plan

/-!
# Plans as documents

How plans are read and written. A record leaves out link lists that are empty; a stage is marked by its
`type`, or is a list that starts with it.

## Contents
- **Writing.** `NodeRecord.toValue`, `Stage.toValue`, `Plan.toValue`.
- **Reading.** `NodeRecord.reader`, `Stage.reader`, `Plan.reader`.
-/

namespace StageFlow

/-! ## Writing -/

/-- A field that is left out when its list is empty. -/
def linksEntry (name : String) (links : List Value) : List (String × Value) :=
  if links.isEmpty then [] else [(name, .list links)]

mutual

/-- A record as it is written. -/
def NodeRecord.toValue : NodeRecord → Value
  | ⟨id, up, down⟩ =>
    .map (("id", id.toValue) ::
      (linksEntry "upstream" (linksToValues "from" up) ++ linksEntry "downstream" (linksToValues "to" down)))

/-- Links as they are written; `side` is the field of the peer. -/
def linksToValues (side : String) : List (Link NodeRecord) → List Value
  | [] => []
  | ⟨peer, output, input⟩ :: ls =>
    .map [(side, peer.toValue), ("out", .text output), ("in", .text input)] :: linksToValues side ls

end

/-- A stage as it is written. -/
def Stage.toValue : Stage → Value
  | static nodes => .map [("type", .text "static"), ("nodes", .list (nodes.map NodeRecord.toValue))]
  | vm node => .map [("type", .text "vm"), ("node", node.toValue)]

/-- A plan as it is written. -/
def Plan.toValue (p : Plan) : Value := .map [("stages", .list (p.stages.map Stage.toValue))]

/-! ## Reading -/

/-- Reads a link whose peer stands in the field `side`. -/
def Link.reader (label side : String) (peer : Reader NodeRecord) : Reader (Link NodeRecord) :=
  record label
    [.of side true peer fun x l => { l with peer := x },
      .of "out" false Reader.text fun x l => { l with output := x },
      .of "in" false Reader.text fun x l => { l with input := x }]
    { peer := { id := ⟨""⟩ } }

/-- The field for what enters a node; `peer` reads the records inside its links. -/
def NodeRecord.upstream (peer : Reader NodeRecord) : Field NodeRecord :=
  .of "upstream" false (Reader.list (Link.reader "struct UpstreamEdge" "from" peer))
    fun x r => { r with incoming := x }

/-- The field for what leaves a node. -/
def NodeRecord.downstream (peer : Reader NodeRecord) : Field NodeRecord :=
  .of "downstream" false (Reader.list (Link.reader "struct DownstreamEdge" "to" peer))
    fun x r => { r with outgoing := x }

/-- The fields of a record. -/
def NodeRecord.fields (peer : Reader NodeRecord) : List (Field NodeRecord) :=
  [.of "id" true NodeId.reader fun x r => { r with id := x }, upstream peer, downstream peer]

/-- Reads a record. `fuel` has to exceed the depth of the data. -/
def NodeRecord.reader : (fuel : Nat) → Reader NodeRecord
  | 0 => fun _ _ => .error (Fault.nestedTooDeep.at .unknown)
  | fuel + 1 => record "struct PlanNodeInfo" (fields (NodeRecord.reader fuel)) { id := ⟨""⟩ }

/-- Reads a record from a value that was handed over. -/
def NodeRecord.ofValue (v : Value) : Except PlacedFault NodeRecord :=
  NodeRecord.reader (v.depth + 1) .handed (.ofValue v)

/-- The content of a stage: a record of one field, in data that was read in full before. -/
def Stage.contentReader (fuel : Nat) : List (Variant Stage) :=
  [.record "static"
      (record "struct variant Stage::Static"
        [.of "nodes" true (Reader.list (NodeRecord.reader fuel)) fun x _ => Stage.static x] (.static [])),
    .record "vm"
      (record "struct variant Stage::Vm"
        [.of "node" true (NodeRecord.reader fuel) fun x _ => Stage.vm x] (.static []))]

/-- Reads the content of a stage whose variant is known by name. A fault in it shows only behind the stage. -/
def Stage.ofContent (name : String) (content : Term) : Except PlacedFault Stage := do
  let v ← unplaced (findVariant (Stage.contentReader (content.depth + 1)) name)
  (v.content .buffered content).mapError (·.fault.at .behind)

/-- Reads the name of a stage's variant. -/
def Stage.tagName (t : Term) : Except PlacedFault String :=
  (variantName (Stage.contentReader 0) t).map Variant.name

/-- Reads the entries of a stage, the first of which has this index: the tag as soon as it comes, all others
in full, to be looked into later. -/
def Stage.readEntries (room : Room) :
    (index : Nat) → List (Key × Term) → Option String →
      Except PlacedFault (Option String × List (Key × Term))
  | _, [], tag => .ok (tag, [])
  | index, (k, t) :: es, tag => do
    let key ← unplaced k.text
    if key = "type" then
      match tag with
      | some _ => .error ((Fault.repeatedField "type").at (.key index))
      | none =>
        let name ← withinEntry index (Stage.tagName t)
        Stage.readEntries room (index + 1) es (some name)
    else
      let _ ← unplaced (t.value room)
      let (tag, content) ← Stage.readEntries room (index + 1) es tag
      return (tag, (k, t) :: content)

/-- Reads a stage. Its data is read in full before its variant is looked into, wherever the tag stands. -/
def Stage.reader : Reader Stage
  | p, .map entries stop => do
    let p ← p.inside
    let (tag, content) ← Stage.readEntries p.room 0 entries none
    unplaced (check ((stop.repeated? (if tag.isSome then ["type"] else [])).or (stop.fault? false)))
    match tag with
    | none => .error ((Fault.missingField "type").at .stop)
    | some name => Stage.ofContent name (.map content .closed)
  | p, .list items stop => do
    let p ← p.inside
    match items with
    | [] =>
      unplaced (check (stop.fault? false))
      .error ((Fault.missingField "type").at .stop)
    | t :: ts =>
      let name ← withinItem 0 (Stage.tagName t)
      let _ ← unplaced (valueList p.room ts)
      unplaced (check (stop.fault? false))
      Stage.ofContent name (.list ts .closed)
  | _, t => .error (t.mismatch "internally tagged enum Stage")

/-- Reads a plan. -/
def Plan.reader : Reader Plan :=
  record "struct ExecutionPlan"
    [.of "stages" true (Reader.list Stage.reader) fun x p => { p with stages := x }]
    { stages := [] }

end StageFlow
