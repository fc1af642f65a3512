import StageFlow.Proofs.PlanDocument
import StageFlow.Proofs.Yaml.Document

/-!
# Plans survive being written as YAML

A plan is an outline, so that its YAML text is read as the plan again wherever the text of each identifier and port
comes back. Not every text does.

## Contents
- **Texts.** `Plan.texts`, the identifiers and ports of a plan.
- **Outlines.** `Plan.isOutline_toValue`.
- **YAML.** `Plan.load_yaml`, and a plan that does not come back.
-/

namespace StageFlow

open Yaml

/-! ## Texts -/

mutual

/-- The identifiers and ports of a record and of all the records inside of its links. -/
def NodeRecord.texts : NodeRecord → List String
  | ⟨id, up, down⟩ => id.text :: (linkTexts up ++ linkTexts down)

/-- The identifiers and ports of links. -/
def linkTexts : List (Link NodeRecord) → List String
  | [] => []
  | ⟨peer, output, input⟩ :: ls => peer.texts ++ output :: input :: linkTexts ls

end

/-- The identifiers and ports of a stage. -/
def Stage.texts : Stage → List String
  | static nodes => nodes.flatMap NodeRecord.texts
  | vm node => node.texts

/-- The identifiers and ports of a plan. -/
def Plan.texts (p : Plan) : List String := p.stages.flatMap Stage.texts

/-! ## Outlines -/

/-- The words that plans are written with: their keys, and the variants of stages. -/
def Plan.words : List String :=
  ["stages", "type", "nodes", "node", "id", "upstream", "downstream", "from", "to", "out", "in", "static", "vm"]

theorem keyWord_of_mem {k : String} (h : k ∈ Plan.words) : KeyWord k := by
  have hwords : ∀ k ∈ Plan.words, k.toList.all Char.isLower = true ∧ needsQuotes k = false ∧ k ≠ "-" ∧
      k.toList.head? ≠ some '\t' ∧ k.toList.getLast? ≠ some '\t' ∧
      String.ofList ((splitSign k.toList).2.map Char.toLower) ∉ ["inf", "infinity", "nan"] := by
    decide +kernel
  obtain ⟨hletters, hplain, hdash, hfirst, hlast, hword⟩ := hwords k h
  exact ⟨List.all_eq_true.mp hletters, hplain, hdash, hfirst, hlast, hword⟩

section

variable {P : String → Prop}

theorem outlineEntries_append {es fs : List (String × Value)} (he : outlineEntries P es)
    (hf : outlineEntries P fs) : outlineEntries P (es ++ fs) := by
  induction es with
  | nil => exact hf
  | cons e es ih => exact ⟨he.1, ih he.2⟩

theorem outlineEntries_linksEntry {name : String} {links : List Value} (hname : name ∈ Plan.words)
    (h : outlineItems P links) : outlineEntries P (linksEntry name links) := by
  unfold linksEntry
  split
  · trivial
  · exact ⟨⟨keyWord_of_mem hname, h⟩, trivial⟩

theorem outlineItems_map {α : Type} {f : α → Value} {xs : List α}
    (h : ∀ x ∈ xs, (∃ es, f x = .map es) ∧ IsOutline P (f x)) : outlineItems P (xs.map f) := by
  induction xs with
  | nil => trivial
  | cons x xs ih => exact ⟨h x List.mem_cons_self, ih fun y hy => h y (List.mem_cons_of_mem x hy)⟩

theorem NodeRecord.exists_toValue (r : NodeRecord) : ∃ es, r.toValue = .map es := by
  obtain ⟨id, up, down⟩ := r
  exact ⟨_, by rw [NodeRecord.toValue]⟩

mutual

theorem NodeRecord.isOutline_toValue : (r : NodeRecord) → (∀ s ∈ r.texts, P s) → IsOutline P r.toValue
  | ⟨id, up, down⟩, h => by
    simp only [NodeRecord.texts, List.mem_cons, List.mem_append] at h
    have hup := outlineItems_linksToValues "from" (by decide) up fun s hs => h s (.inr (.inl hs))
    have hdown := outlineItems_linksToValues "to" (by decide) down fun s hs => h s (.inr (.inr hs))
    rw [NodeRecord.toValue]
    exact ⟨List.cons_ne_nil _ _, ⟨keyWord_of_mem (by decide), h id.text (.inl rfl)⟩,
      outlineEntries_append (outlineEntries_linksEntry (by decide) hup)
        (outlineEntries_linksEntry (by decide) hdown)⟩

theorem outlineItems_linksToValues (side : String) (hside : side ∈ Plan.words) :
    (ls : List (Link NodeRecord)) → (∀ s ∈ linkTexts ls, P s) → outlineItems P (linksToValues side ls)
  | [], _ => trivial
  | ⟨peer, output, input⟩ :: ls, h => by
    simp only [linkTexts, List.mem_append, List.mem_cons] at h
    have hpeer := NodeRecord.isOutline_toValue peer fun s hs => h s (.inl hs)
    have hrest := outlineItems_linksToValues side hside ls fun s hs => h s (.inr (.inr (.inr hs)))
    rw [linksToValues]
    exact ⟨⟨⟨_, rfl⟩, List.cons_ne_nil _ _, ⟨keyWord_of_mem hside, hpeer⟩,
      ⟨keyWord_of_mem (by decide), h output (.inr (.inl rfl))⟩,
      ⟨keyWord_of_mem (by decide), h input (.inr (.inr (.inl rfl)))⟩, trivial⟩, hrest⟩

end

theorem Stage.isOutline_toValue (stage : Stage) (hwords : ∀ s ∈ Plan.words, P s) (h : ∀ s ∈ stage.texts, P s) :
    IsOutline P stage.toValue := by
  cases stage with
  | static nodes =>
    have hnodes : outlineItems P (nodes.map NodeRecord.toValue) := outlineItems_map fun r hr =>
      ⟨r.exists_toValue, r.isOutline_toValue fun s hs => h s (List.mem_flatMap.mpr ⟨r, hr, hs⟩)⟩
    exact ⟨List.cons_ne_nil _ _, ⟨keyWord_of_mem (by decide), hwords _ (by decide)⟩,
      ⟨keyWord_of_mem (by decide), hnodes⟩, trivial⟩
  | vm node =>
    exact ⟨List.cons_ne_nil _ _, ⟨keyWord_of_mem (by decide), hwords _ (by decide)⟩,
      ⟨keyWord_of_mem (by decide), node.isOutline_toValue h⟩, trivial⟩

/-- **A plan is an outline.** -/
theorem Plan.isOutline_toValue (plan : Plan) (hwords : ∀ s ∈ Plan.words, P s) (h : ∀ s ∈ plan.texts, P s) :
    IsOutline P plan.toValue := by
  have hstages : outlineItems P (plan.stages.map Stage.toValue) := outlineItems_map fun stage hstage => by
    refine ⟨?_, stage.isOutline_toValue hwords fun s hs => h s (List.mem_flatMap.mpr ⟨stage, hstage, hs⟩)⟩
    cases stage <;> exact ⟨_, rfl⟩
  exact ⟨List.cons_ne_nil _ _, ⟨keyWord_of_mem (by decide), hstages⟩, trivial⟩

end

/-! ## YAML -/

/-- Data is read off the term of a document. -/
theorem readYaml?_ok {α : Type} {r : Reader α} {text : String} {n : Node} {a : α} (hn : document? text = some n)
    (h : r .yaml n.standing = .ok a) : readYaml? r text = some a :=
  readYaml?_eq_some.mpr ⟨n, hn, Or.inl h⟩

theorem readYaml?_tooDeep {α : Type} {r : Reader α} {text : String} {n : Node} (hn : document? text = some n)
    (h : IsTooDeep (r .yaml n.standing)) : readYaml? r text = none := by
  obtain ⟨spot, hr⟩ := h
  rw [readYaml?, hn]
  simp only [Option.bind_eq_bind, Option.bind_some, hr]

/-- **Every plan is written as YAML, and one with texts that come back is read as the same plan**, if it opens at
most 128 lists and maps inside each other; otherwise it is refused. -/
theorem Plan.load_yaml (plan : Plan) : ∃ text, plan.toYaml? = some text ∧ ((∀ s ∈ plan.texts, Kept s) →
    Plan.load .yaml text = if plan.toValue.depth ≤ 128 then .ok plan else .error .yaml) := by
  have houtline : IsOutline (fun _ => True) plan.toValue :=
    plan.isOutline_toValue (fun _ _ => trivial) fun _ _ => trivial
  have hwritten : plan.toYaml? = some _ := if_pos (isWritable_outline _ houtline)
  refine ⟨_, hwritten, fun htexts => ?_⟩
  have hkept : IsOutline Kept plan.toValue :=
    plan.isOutline_toValue (fun s hs => (keyWord_of_mem hs).keptText) htexts
  obtain ⟨text, n, hrender, hdocument, hstanding⟩ := document_outline hkept
  rw [← Option.some.inj (hwritten.symm.trans hrender)] at hdocument
  rw [Plan.load, StageFlow.load]
  by_cases hdepth : plan.toValue.depth ≤ 128
  · have hroom : Place.yaml.room.Holds plan.toValue.depth := by
      rintro _ ⟨⟩
      omega
    have hread : Plan.reader .yaml n.standing = .ok plan := hstanding ▸ plan.reader_toValue hroom
    rw [readYaml?_ok hdocument hread, if_pos hdepth]
  · have hread : IsTooDeep (Plan.reader .yaml n.standing) := hstanding ▸ plan.reader_tooDeep rfl (by omega)
    rw [readYaml?_tooDeep hdocument hread, if_neg hdepth]

/-- A plan with texts in each form: plain, like a number, with escapes and over several lines. -/
def Plan.outlinedSample : Plan :=
  let deep : NodeRecord := ⟨⟨"- a: b"⟩, [⟨{ id := ⟨"two\n  lines\n"⟩ }, "", "\r"⟩], []⟩
  ⟨[.static [⟨⟨"007"⟩, [⟨deep, "out", "in"⟩], []⟩, { id := ⟨"x y"⟩ }], .static [], .vm { id := ⟨"😀"⟩ }]⟩

theorem Plan.load_yaml_outlinedSample : (∀ s ∈ outlinedSample.texts, Kept s) ∧ outlinedSample.toValue.depth ≤ 128 ∧
    ∃ text, outlinedSample.toYaml? = some text ∧ Plan.load .yaml text = .ok outlinedSample := by
  have htexts : ∀ s ∈ outlinedSample.texts, Kept s := by decide +kernel
  have hdepth : outlinedSample.toValue.depth ≤ 128 := by decide
  obtain ⟨text, hwritten, hread⟩ := Plan.load_yaml outlinedSample
  exact ⟨htexts, hdepth, text, hwritten, by rw [hread htexts, if_pos hdepth]⟩

/-- A carriage return at the end of the last line is lost: the plan that is read back names another node. -/
theorem Plan.load_yaml_drops_return : ∃ text, (Plan.mk [.vm { id := ⟨"a\nb\r"⟩ }]).toYaml? = some text ∧
    Plan.load .yaml text = .ok ⟨[.vm { id := ⟨"a\nb"⟩ }]⟩ ∧
    Plan.load .yaml text ≠ .ok ⟨[.vm { id := ⟨"a\nb\r"⟩ }]⟩ := by
  have hwritten : (Plan.mk [.vm { id := ⟨"a\nb\r"⟩ }]).toYaml?
      = some "stages:\n  - type: vm\n    node: \n      id: |-\n        a\n        b\r" := by
    decide +kernel
  have hread : (Plan.load .yaml "stages:\n  - type: vm\n    node: \n      id: |-\n        a\n        b\r").toOption
      = some ⟨[.vm { id := ⟨"a\nb"⟩ }]⟩ := by
    decide +kernel
  cases hload : Plan.load .yaml "stages:\n  - type: vm\n    node: \n      id: |-\n        a\n        b\r" with
  | error e =>
    rw [hload] at hread
    contradiction
  | ok plan =>
    rw [hload] at hread
    obtain rfl := Option.some.inj hread
    exact ⟨_, hwritten, hload, fun h => absurd (Except.ok.inj (hload.symm.trans h)) (by decide +kernel)⟩

end StageFlow
