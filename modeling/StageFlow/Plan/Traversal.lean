import StageFlow.Plan

/-!
# Traversal of plans

All records that a plan refers to, in the order of reference: each listed record, then those behind its
incoming links and then those behind its outgoing links, each with all that it leads to.

## Contents
- **By a stack.** `Plan.records`, which walks over a stack of records still to visit.
- **By recursion.** `NodeRecord.listing`, the same order said directly.
- **Identifiers.** `Plan.ids`, each at its first occurrence.
-/

namespace StageFlow

/-! ## By a stack -/

mutual

/-- How many records a record leads to, itself included. -/
def NodeRecord.size : NodeRecord → Nat
  | ⟨_, up, down⟩ => sizeOfLinks up + sizeOfLinks down + 1

/-- How many records links lead to. -/
def sizeOfLinks : List (Link NodeRecord) → Nat
  | [] => 0
  | ⟨peer, _, _⟩ :: ls => peer.size + sizeOfLinks ls

end

/-- Puts the peers of links on a stack, the last one first, so that the first one is on top. -/
def pushPeers (links : List (Link NodeRecord)) (stack : List NodeRecord) : List NodeRecord :=
  links.foldr (fun l stack => l.peer :: stack) stack

/-- How many records a stack leads to. -/
def stackSize : List NodeRecord → Nat
  | [] => 0
  | r :: rs => r.size + stackSize rs

theorem stackSize_pushPeers (links : List (Link NodeRecord)) (stack : List NodeRecord) :
    stackSize (pushPeers links stack) = sizeOfLinks links + stackSize stack := by
  induction links with
  | nil => simp [pushPeers, sizeOfLinks]
  | cons l ls ih =>
    simp only [pushPeers, stackSize, List.foldr_cons, sizeOfLinks] at ih ⊢
    omega

theorem NodeRecord.size_eq (r : NodeRecord) :
    r.size = sizeOfLinks r.incoming + sizeOfLinks r.outgoing + 1 := by
  cases r
  rfl

/-- Visits the records of a stack: the top one comes first, and then what it links to. -/
def walk : List NodeRecord → List NodeRecord
  | [] => []
  | r :: stack => r :: walk (pushPeers r.incoming (pushPeers r.outgoing stack))
  termination_by stack => stackSize stack
  decreasing_by
    simp only [stackSize_pushPeers]
    simp only [stackSize, NodeRecord.size_eq]
    omega

/-- Every record that the plan refers to, each listed record followed by those it leads to. -/
def Plan.records (p : Plan) : List NodeRecord := p.listed.flatMap fun r => walk [r]

/-! ## By recursion -/

mutual

/-- A record and all that it leads to, in pre-order. -/
def NodeRecord.listing : NodeRecord → List NodeRecord
  | ⟨id, up, down⟩ => ⟨id, up, down⟩ :: (listingOfLinks up ++ listingOfLinks down)

/-- All that links lead to, in pre-order. -/
def listingOfLinks : List (Link NodeRecord) → List NodeRecord
  | [] => []
  | ⟨peer, _, _⟩ :: ls => peer.listing ++ listingOfLinks ls

end

/-! ## Identifiers -/

/-- Leaves out what was seen before. -/
def distinctFrom (seen : List NodeId) : List NodeId → List NodeId
  | [] => []
  | id :: ids => if id ∈ seen then distinctFrom seen ids else id :: distinctFrom (id :: seen) ids

/-- The identifiers in the plan, in the order of first reference. -/
def Plan.ids (p : Plan) : List NodeId := distinctFrom [] (p.records.map (·.id))

end StageFlow
