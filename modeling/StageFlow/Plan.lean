import StageFlow.NodeId

/-!
# Execution plans

A plan lists, stage by stage, the nodes to run. Each node comes as a record of its connections; the same
node may come again as a stub inside the connections of a neighbour.

## Contents
- **Types.** `Link`, `NodeRecord`, `Stage` and `Plan`.
- **Equality.** Decided by comparing records link by link.
- **Construction.** `NodeRecord.stub`, `addIncoming` and `addOutgoing`.
- **Stages.** `Stage.records`, `Plan.stageIds`.
-/

namespace StageFlow

/-! ## Types -/

/-- A connection of a node to a peer: the name of an output of whichever of the two produces, and
that of an input of the other. Either may be left empty. -/
structure Link (α : Type) where
  peer : α
  output : String := ""
  input : String := ""
  deriving DecidableEq, Repr

/-- What a plan says of a node: where its inputs come from and where its outputs go. -/
structure NodeRecord where
  id : NodeId
  incoming : List (Link NodeRecord) := []
  outgoing : List (Link NodeRecord) := []
  deriving Repr

/-- A step of a plan: nodes that do not depend on each other, or one node that runs a plan of its own. -/
inductive Stage
  | static (nodes : List NodeRecord)
  | vm (node : NodeRecord)
  deriving Repr

/-- A sequence of stages. -/
structure Plan where
  stages : List Stage
  deriving Repr

/-! ## Equality -/

mutual

/-- Decides whether two records are equal. -/
def NodeRecord.decEq : (a b : NodeRecord) → Decidable (a = b)
  | ⟨i, u, d⟩, ⟨j, v, e⟩ =>
    if hi : i = j then
      match decEqLinks u v with
      | isTrue hu =>
        match decEqLinks d e with
        | isTrue hd => isTrue (by rw [hi, hu, hd])
        | isFalse hd => isFalse fun h => hd (NodeRecord.mk.inj h).2.2
      | isFalse hu => isFalse fun h => hu (NodeRecord.mk.inj h).2.1
    else isFalse fun h => hi (NodeRecord.mk.inj h).1

/-- Decides whether two lists of links are equal. -/
def decEqLinks : (a b : List (Link NodeRecord)) → Decidable (a = b)
  | [], [] => isTrue rfl
  | [], _ :: _ => isFalse nofun
  | _ :: _, [] => isFalse nofun
  | ⟨p, o, i⟩ :: as, ⟨q, r, j⟩ :: bs =>
    match p.decEq q with
    | isTrue hp =>
      if h : o = r ∧ i = j then
        match decEqLinks as bs with
        | isTrue hs => isTrue (by rw [hp, h.1, h.2, hs])
        | isFalse hs => isFalse fun he => hs (List.cons.inj he).2
      else isFalse fun he => h (Link.mk.inj (List.cons.inj he).1).2
    | isFalse hp => isFalse fun he => hp (Link.mk.inj (List.cons.inj he).1).1

end

instance : DecidableEq NodeRecord := NodeRecord.decEq

deriving instance DecidableEq for Stage

deriving instance DecidableEq for Plan

/-! ## Construction -/

namespace NodeRecord

/-- The record with the same identifier and no connections. -/
def stub (r : NodeRecord) : NodeRecord := { id := r.id }

/-- Adds a connection from a node at the end. -/
def addIncoming (r : NodeRecord) (source : NodeId) (output input : String) : NodeRecord :=
  { r with incoming := r.incoming ++ [⟨{ id := source }, output, input⟩] }

/-- Adds a connection to a node at the end. -/
def addOutgoing (r : NodeRecord) (target : NodeId) (output input : String) : NodeRecord :=
  { r with outgoing := r.outgoing ++ [⟨{ id := target }, output, input⟩] }

end NodeRecord

/-! ## Stages -/

/-- The records listed in a stage. -/
def Stage.records : Stage → List NodeRecord
  | static nodes => nodes
  | vm node => [node]

/-- Does the stage hold one node with a plan of its own? -/
def Stage.isVm : Stage → Bool
  | static _ => false
  | vm _ => true

/-- The records listed in stages, in order. -/
def Plan.listed (p : Plan) : List NodeRecord := p.stages.flatMap Stage.records

/-- The identifiers listed in the stage at an index; beyond the last stage there are none. -/
def Plan.stageIds (p : Plan) (index : Nat) : List NodeId :=
  match p.stages[index]? with
  | some stage => stage.records.map (·.id)
  | none => []

end StageFlow
