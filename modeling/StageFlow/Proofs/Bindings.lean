import Mathlib.Data.List.Basic
import StageFlow.Controller

/-!
# Names of bindings

The bindings of a node are made from the node's own side of its links, and a name that is left out there
is taken from the producer's side of the same link. Which link that is, is a matter of counting: the n-th
binding from a source goes with the n-th link of its producer to the node.

## Contents
- **Counting.** Where an item stands among those of its kind.
- **One binding.** `InputBinding.resolve`, what becomes of the n-th binding from a source.
- **All bindings.** `getElem?_completeBindings`, which says so of every place.
- **Two sides.** `completeBindings_map`: links whose two sides go together give their full names.
- **Completion.** `Controller.complete_pairs_links`, all that completion does to the bindings of a node.
-/

namespace StageFlow

/-! ## Counting -/

/-- An item stands among those of its kind where as many of them come before it. -/
theorem getElem?_filter_countP {α : Type} {p : α → Bool} {l : List α} {i : Nat} {a : α}
    (h : l[i]? = some a) (hp : p a = true) : (l.filter p)[(l.take i).countP p]? = some a := by
  obtain ⟨hi, rfl⟩ := List.getElem?_eq_some_iff.mp h
  have hsplit : l.filter p = (l.take i).filter p ++ (l.drop i).filter p := by
    rw [← List.filter_append, List.take_append_drop]
  rw [hsplit, List.countP_eq_length_filter, List.getElem?_append_right (Nat.le_refl _), Nat.sub_self,
    List.drop_eq_getElem_cons hi, List.filter_cons_of_pos hp]
  rfl

/-! ## One binding -/

variable {producer : NodeId → Option NodeRecord} {id : NodeId}

/-- What becomes of a binding with so many bindings from its source before it. -/
def InputBinding.resolve (producer : NodeId → Option NodeRecord) (id : NodeId) (nth : Nat)
    (b : InputBinding) : InputBinding :=
  match (producer b.source).bind (fun r => (r.linksTo id)[nth]?) with
  | some l => b.fill l
  | none => b

theorem InputBinding.fill_of_named {b : InputBinding} (ho : b.output.isEmpty = false)
    (hi : b.input.isEmpty = false) (l : Link NodeRecord) : b.fill l = b := by
  simp [fill, ho, hi]

/-- A binding that has both names keeps them. -/
theorem InputBinding.resolve_of_named {b : InputBinding} (ho : b.output.isEmpty = false)
    (hi : b.input.isEmpty = false) (nth : Nat) : b.resolve producer id nth = b := by
  unfold resolve
  split
  · exact fill_of_named ho hi _
  · rfl

theorem InputBinding.resolve_of_link {b : InputBinding} {r : NodeRecord} {l : Link NodeRecord}
    {nth : Nat} (hr : producer b.source = some r) (hl : (r.linksTo id)[nth]? = some l) :
    b.resolve producer id nth = b.fill l := by
  simp [resolve, hr, hl]

theorem InputBinding.resolve_of_none {b : InputBinding} (h : producer b.source = none) (nth : Nat) :
    b.resolve producer id nth = b := by
  simp [resolve, h]

/-- Names are filled in, and sources stay. -/
@[simp] theorem InputBinding.source_resolve (b : InputBinding) (nth : Nat) :
    (b.resolve producer id nth).source = b.source := by
  unfold resolve
  split <;> rfl

/-! ## All bindings -/

theorem completeBindings_cons (counts : List (NodeId × Nat)) (b : InputBinding)
    (bs : List InputBinding) :
    completeBindings producer id counts (b :: bs)
      = b.resolve producer id ((Assoc.lookup b.source counts).getD 0)
        :: completeBindings producer id
            (Assoc.insert b.source ((Assoc.lookup b.source counts).getD 0 + 1) counts) bs := by
  rw [completeBindings]
  split
  · rename_i hnamed
    rw [Bool.and_eq_true, Bool.not_eq_true', Bool.not_eq_true'] at hnamed
    rw [InputBinding.resolve_of_named hnamed.1 hnamed.2]
  · unfold InputBinding.resolve
    cases (producer b.source).bind fun r =>
      (r.linksTo id)[(Assoc.lookup b.source counts).getD 0]? <;> rfl

/-- **The n-th binding from a source goes with the n-th link** of its producer to the node. Bindings that
need no name are counted all the same. -/
theorem getElem?_completeBindings (counts : List (NodeId × Nat)) (bs : List InputBinding) (i : Nat) :
    (completeBindings producer id counts bs)[i]?
      = bs[i]?.map fun b =>
          b.resolve producer id
            ((Assoc.lookup b.source counts).getD 0 + (bs.take i).countP (·.source = b.source)) := by
  induction bs generalizing counts i with
  | nil => rfl
  | cons b bs ih =>
    rw [completeBindings_cons]
    cases i with
    | zero => rfl
    | succ i =>
      rw [List.getElem?_cons_succ, List.getElem?_cons_succ, ih]
      -- the count noted for the source of `b` is what `b` adds to the items before
      apply Option.map_congr
      intro c _
      rw [Assoc.lookup_insert, List.take_succ_cons, List.countP_cons]
      by_cases hsource : c.source = b.source
      · simp [hsource]
        congr 1
        omega
      · have hsource' : ¬ b.source = c.source := fun h => hsource h.symm
        simp [hsource, hsource']

/-- The bindings of links are counted by the peers of the links. -/
theorem getElem?_completeBindings_links {ls : List (Link NodeRecord)} {bs : List InputBinding}
    (h : bs.map (·.source) = ls.map (·.peer.id)) (i : Nat) :
    (completeBindings producer id [] bs)[i]?
      = bs[i]?.map fun b =>
          b.resolve producer id ((ls.take i).countP (·.peer.id = b.source)) := by
  rw [getElem?_completeBindings]
  apply Option.map_congr
  intro b _
  have hcount : (bs.take i).countP (·.source = b.source)
      = (ls.take i).countP (·.peer.id = b.source) := by
    have hbs := List.countP_map (p := (· = b.source)) (f := InputBinding.source) (l := bs.take i)
    have hls := List.countP_map (p := (· = b.source)) (f := fun l : Link NodeRecord => l.peer.id)
      (l := ls.take i)
    rw [List.map_take, h, ← List.map_take] at hbs
    exact hbs.symm.trans hls
  rw [Assoc.lookup_nil, Option.getD_none, Nat.zero_add, hcount]

theorem map_source_completeBindings (counts : List (NodeId × Nat)) (bs : List InputBinding) :
    (completeBindings producer id counts bs).map (·.source) = bs.map (·.source) := by
  induction bs generalizing counts with
  | nil => rfl
  | cons b bs ih => rw [completeBindings_cons, List.map_cons, List.map_cons, InputBinding.source_resolve, ih]

/-- Where no source has a producer, the bindings stay as they are. -/
theorem completeBindings_of_none {bs : List InputBinding} (h : ∀ b ∈ bs, producer b.source = none)
    (counts : List (NodeId × Nat)) : completeBindings producer id counts bs = bs := by
  induction bs generalizing counts with
  | nil => rfl
  | cons b bs ih =>
    rw [completeBindings_cons, InputBinding.resolve_of_none (h b List.mem_cons_self),
      ih fun c hc => h c (List.mem_cons_of_mem b hc)]

/-! ## Two sides -/

/-- **Links whose two sides go together give their full names,** however much of them the node's own side
leaves out. `own` is what it says of a link. -/
theorem completeBindings_map {ls : List (Link NodeRecord)} {own : Link NodeRecord → InputBinding}
    (hsource : ∀ l ∈ ls, (own l).source = l.peer.id)
    (h : ∀ l ∈ ls, ∀ n : Nat, (ls.filter (·.peer.id = l.peer.id))[n]? = some l →
      ∃ (r : NodeRecord) (m : Link NodeRecord), producer l.peer.id = some r
        ∧ (r.linksTo id)[n]? = some m ∧ (own l).fill m = InputBinding.ofLink l) :
    completeBindings producer id [] (ls.map own) = ls.map InputBinding.ofLink := by
  have hlinks : (ls.map own).map (·.source) = ls.map (·.peer.id) := by
    rw [List.map_map]
    exact List.map_congr_left hsource
  apply List.ext_getElem?
  intro i
  rw [getElem?_completeBindings_links hlinks, List.getElem?_map, List.getElem?_map]
  cases hl : ls[i]? with
  | none => rfl
  | some l =>
    have hmem : l ∈ ls := List.mem_of_getElem? hl
    obtain ⟨r, m, hr, hm, hfill⟩ := h l hmem _ (getElem?_filter_countP hl (by simp))
    rw [← hsource l hmem] at hr hm
    rw [Option.map_some, Option.map_some, Option.map_some, InputBinding.resolve_of_link hr hm, hfill]

/-! ## Completion -/

namespace InputBinding

theorem output_fill (b : InputBinding) (l : Link NodeRecord) :
    (b.fill l).output = if b.output = "" then l.output else b.output := by
  simp [fill, String.isEmpty_iff]

theorem input_fill (b : InputBinding) (l : Link NodeRecord) :
    (b.fill l).input = if b.input = "" then l.input else b.input := by
  simp [fill, String.isEmpty_iff]

/-- A name that a link has given, or has not, stays when the link is asked again. -/
theorem fill_fill (b : InputBinding) (l : Link NodeRecord) : (b.fill l).fill l = b.fill l := by
  have hname : ∀ own far : String, (if (if own.isEmpty then far else own).isEmpty then far
      else if own.isEmpty then far else own) = if own.isEmpty then far else own := by
    intro own far
    by_cases hown : own.isEmpty <;> simp [hown]
  unfold fill
  rw [hname, hname]

/-- A binding that has been completed finds the same link again. -/
theorem resolve_resolve (b : InputBinding) (nth : Nat) :
    (b.resolve producer id nth).resolve producer id nth = b.resolve producer id nth := by
  cases hl : (producer b.source).bind fun r => (r.linksTo id)[nth]? with
  | none =>
    have hb : b.resolve producer id nth = b := by rw [resolve, hl]
    rw [hb, hb]
  | some l =>
    have hb : b.resolve producer id nth = b.fill l := by rw [resolve, hl]
    have hagain : (b.fill l).resolve producer id nth = (b.fill l).fill l := by
      have hsource : (b.fill l).source = b.source := rfl
      rw [resolve, hsource, hl]
    rw [hb, hagain, fill_fill]

/-- What completion makes of a binding of the node `id` that has so many bindings from its source before
it. -/
structure Completed (producer : NodeId → Option NodeRecord) (id : NodeId) (nth : Nat)
    (b b' : InputBinding) : Prop where
  source : b'.source = b.source
  /-- The link with as many before it, among those of the producer to the node, gives the names that are
  empty. -/
  filled : ∀ r l, producer b.source = some r → (r.outgoing.filter (·.peer.id = id))[nth]? = some l →
    b'.output = (if b.output = "" then l.output else b.output)
      ∧ b'.input = (if b.input = "" then l.input else b.input)
  /-- Where there is no such link, the binding stays as it is. -/
  left : (∀ r l, producer b.source = some r → (r.outgoing.filter (·.peer.id = id))[nth]? ≠ some l) →
    b' = b
  output : b.output ≠ "" → b'.output = b.output
  input : b.input ≠ "" → b'.input = b.input

theorem completed_resolve (b : InputBinding) (nth : Nat) :
    Completed producer id nth b (b.resolve producer id nth) where
  source := b.source_resolve nth
  filled r l hr hl := by
    rw [resolve_of_link hr hl]
    exact ⟨b.output_fill l, b.input_fill l⟩
  left h := by
    unfold resolve
    cases hl : (producer b.source).bind fun r => (r.linksTo id)[nth]? with
    | none => rfl
    | some l =>
      obtain ⟨r, hr, hlink⟩ := Option.bind_eq_some_iff.mp hl
      exact absurd hlink (h r l hr)
  output h := by
    unfold resolve
    split
    · rw [output_fill, if_neg h]
    · rfl
  input h := by
    unfold resolve
    split
    · rw [input_fill, if_neg h]
    · rfl

end InputBinding

/-- Completed bindings are completed for good, since they are counted as before. -/
theorem completeBindings_idem (counts : List (NodeId × Nat)) (bs : List InputBinding) :
    completeBindings producer id counts (completeBindings producer id counts bs)
      = completeBindings producer id counts bs := by
  induction bs generalizing counts with
  | nil => rfl
  | cons b bs ih =>
    rw [completeBindings_cons, completeBindings_cons, InputBinding.source_resolve,
      InputBinding.resolve_resolve, ih]

namespace Sample

/-- A producer with two links to a node and one to another node between them. -/
def supplier : NodeRecord where
  id := ⟨"a"⟩
  outgoing :=
    [⟨{ id := ⟨"n"⟩ }, "first", "far"⟩, ⟨{ id := ⟨"m"⟩ }, "other", "far"⟩, ⟨{ id := ⟨"n"⟩ }, "second", "far"⟩]

/-- The only source with a record. -/
def supplier? (id : NodeId) : Option NodeRecord := if id = ⟨"a"⟩ then some supplier else none

/-- A node with two bindings from the producer and one from another node between them. -/
def consumer : Controller where
  id := ⟨"n"⟩
  bindings := [⟨⟨"a"⟩, "given", "given"⟩, ⟨⟨"b"⟩, "", ""⟩, ⟨⟨"a"⟩, "", "own"⟩]

end Sample

/-- **Completion pairs bindings with links.** A node keeps its state and its bindings, in their order and each
with its source. The binding at each place is paired with a link of its producer to the node, which comes
behind as many others as the binding has bindings from its source before it, with or without names of their
own. What the pair comes to is said by `InputBinding.Completed`. Completing once more changes nothing. -/
theorem Controller.complete_pairs_links (c : Controller) (producer : NodeId → Option NodeRecord) :
    (c.complete producer).id = c.id
      ∧ (c.complete producer).state = c.state
      ∧ (c.complete producer).bindings.length = c.bindings.length
      ∧ (c.complete producer).bindings.map (·.source) = c.bindings.map (·.source)
      ∧ (∀ place b, c.bindings[place]? = some b → ∃ b',
        (c.complete producer).bindings[place]? = some b'
          ∧ InputBinding.Completed producer c.id
              ((c.bindings.take place).countP fun earlier => earlier.source = b.source) b b')
      ∧ (c.complete producer).complete producer = c.complete producer := by
  have hsources : (c.complete producer).bindings.map (·.source) = c.bindings.map (·.source) :=
    map_source_completeBindings [] c.bindings
  refine ⟨rfl, rfl, ?_, hsources, ?_, ?_⟩
  · have hlength := congrArg List.length hsources
    rwa [List.length_map, List.length_map] at hlength
  · intro place b hb
    refine ⟨_, ?_, b.completed_resolve _⟩
    show (completeBindings producer c.id [] c.bindings)[place]? = _
    rw [getElem?_completeBindings, hb, Option.map_some, Assoc.lookup_nil, Option.getD_none, Nat.zero_add]
  · unfold complete
    rw [completeBindings_idem]

/-- The second binding from a producer is paired with its second link to the node, which comes third among its
links. The first binding counts although it has both names, and the one from another producer does not. -/
theorem Controller.complete_pairs_links_sample :
    Sample.consumer.bindings[2]? = some ⟨⟨"a"⟩, "", "own"⟩
      ∧ (Sample.consumer.complete Sample.supplier?).bindings[2]? = some ⟨⟨"a"⟩, "second", "own"⟩ := by
  obtain ⟨-, -, -, -, hpairs, -⟩ := Sample.consumer.complete_pairs_links Sample.supplier?
  obtain ⟨b', hb', hcompleted⟩ := hpairs 2 ⟨⟨"a"⟩, "", "own"⟩ rfl
  have hsource : b'.source = ⟨"a"⟩ := hcompleted.source
  have houtput : b'.output = "second" :=
    (hcompleted.filled Sample.supplier ⟨{ id := ⟨"n"⟩ }, "second", "far"⟩ rfl rfl).1
  have hinput : b'.input = "own" := hcompleted.input (by decide)
  refine ⟨rfl, ?_⟩
  rw [hb', ← hsource, ← houtput, ← hinput]

end StageFlow
