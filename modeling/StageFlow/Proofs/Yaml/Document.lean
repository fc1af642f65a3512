import StageFlow.Proofs.Yaml.Layout
import StageFlow.Storage

/-!
# Outlines as YAML documents

An outline is written as text, the text is scanned as its tokens, the tokens are read as a node, and the node
stands for the outline. None of the nodes has a tag, so that the document need not be composed.

## Contents
- **Writing.** `render_outline`.
- **Nodes.** `outlineNode`, and `readNode_tokens`.
- **Terms.** `term_outlineNode`.
- **Documents.** `document_outline`.
-/

namespace StageFlow.Yaml

variable {P : String → Prop}

/-! ## Writing -/

mutual

theorem isWritable_outline : (v : Value) → IsOutline P v → isWritable v = true
  | .text _, _ => rfl
  | .list items, h => writableItems_outline items h
  | .map entries, h => writableEntries_outline entries h.2

theorem writableItems_outline : (vs : List Value) → outlineItems P vs → writableItems vs = true
  | [], _ => rfl
  | v :: vs, h => by
    rw [writableItems, isWritable_outline v h.1.2, writableItems_outline vs h.2]
    rfl

theorem writableEntries_outline : (es : List (String × Value)) → outlineEntries P es → writableEntries es = true
  | [], _ => rfl
  | (_, v) :: es, h => by
    rw [writableEntries, isWritable_outline v h.1.2, writableEntries_outline es h.2]
    rfl

end

/-- **An outline that is a map is written, and the text is scanned as its tokens.** -/
theorem render_outline {es : List (String × Value)} (h : IsOutline Kept (.map es)) :
    ∃ text, render? (.map es) = some text ∧ tokens text = outlineTokens (.map es) ++ [.textEnd] := by
  obtain ⟨hne, hes⟩ := id h
  obtain ⟨⟨k, v⟩, es, rfl⟩ := List.exists_cons_of_ne_nil hne
  generalize hcs : entryText false 0 (k, v) ++ moreEntries false 0 es = cs
  have hmore : moreEntries false 0 ((k, v) :: es) = newline 0 ++ cs := by
    rw [← hcs, moreEntries, moreEntries, List.flatMap_cons, List.append_assoc]
  have hlines : Scan.ReadsLines (cs.length + 2) 0 .mapStart (newline 0 ++ cs) (entryTokens ((k, v) :: es)) := by
    rw [← hmore]
    exact Scan.readsEntries false 0 _ hes
  have hreads := hlines.reads
  have hmark : ∀ x ∈ cs.head?, x ≠ '\ufeff' := by
    obtain ⟨x, xs, hk, hlower⟩ := hes.1.1.head
    rw [← hcs, entryText, hes.1.1.text_eq, hk]
    rintro _ ⟨⟩ rfl
    exact absurd hlower (by decide)
  have hrender : render? (.map ((k, v) :: es)) = some (String.ofList cs) := by
    have hblock : block 0 (.map ((k, v) :: es)) = '\n' :: cs := (blockEntries_eq 0 _).trans hmore
    have hlines : isBlock (.map ((k, v) :: es)) = true := rfl
    rw [render?, isWritable_outline _ h, hlines, hblock]
    rfl
  refine ⟨_, hrender, ?_⟩
  rw [tokens, String.toList_ofList, unifyBreaks_eq hreads.noReturn]
  exact (hreads.run_eq hmark).trans (by simp [outlineTokens])

/-! ## Nodes -/

mutual

/-- The node of an outline. -/
def outlineNode : Value → Node
  | .text s => .scalar s (isPlain s)
  | .list items => .list (itemNodes items)
  | .map entries => .map (entryNodes entries)
  | _ => .nothing

/-- The nodes of the items of a list. -/
def itemNodes : List Value → List Node
  | [] => []
  | v :: vs => outlineNode v :: itemNodes vs

/-- The nodes of the entries of a map. -/
def entryNodes : List (String × Value) → List (Node × Node)
  | [] => []
  | (k, v) :: es => (.scalar k true, outlineNode v) :: entryNodes es

end

/-- A token with which the node of an outline starts. -/
inductive StartsNode : Token → Prop
  | scalar (s : String) (isPlain : Bool) : StartsNode (.scalar s isPlain)
  | openBracket : StartsNode .openBracket
  | listStart : StartsNode .listStart
  | mapStart : StartsNode .mapStart

theorem outlineTokens_cons {v : Value} (h : IsOutline P v) : ∃ t ts, outlineTokens v = t :: ts ∧ StartsNode t := by
  cases v with
  | text s => exact ⟨_, _, rfl, .scalar ..⟩
  | list items =>
    cases items with
    | nil => exact ⟨_, _, rfl, .openBracket⟩
    | cons v vs => exact ⟨_, _, rfl, .listStart⟩
  | map entries => exact ⟨_, _, rfl, .mapStart⟩
  | null | bool _ | number _ => exact h.elim

section

variable {handles : Handles}

/-- A node without name and tag is its content. -/
theorem readNode_content {flat : Bool} {t : Token} {ts rest : List Token} {n : Node} {fuel : Nat}
    (ht : StartsNode t) (h : readContent handles true flat fuel (t :: ts) = some (some n, rest)) :
    readNode handles true flat (fuel + 1) (t :: ts) = some (n, rest) := by
  cases ht <;> simp [readNode, h]

mutual

theorem readNode_tokens (handles : Handles) (flat : Bool) (rest : List Token) :
    (v : Value) → IsOutline P v → (fuel : Nat) → 3 * (outlineTokens v).length ≤ fuel →
      readNode handles true flat fuel (outlineTokens v ++ rest) = some (outlineNode v, rest)
  | .text s, _, fuel, hf => by
    obtain ⟨fuel, rfl⟩ := Nat.exists_eq_add_of_le' hf
    exact readNode_content (.scalar ..) rfl
  | .list [], _, fuel, hf => by
    obtain ⟨fuel, rfl⟩ := Nat.exists_eq_add_of_le' hf
    exact readNode_content .openBracket rfl
  | .list (v :: vs), h, fuel, hf => by
    have hlen : (outlineTokens (.list (v :: vs))).length = (itemTokens (v :: vs)).length + 2 := by
      simp [outlineTokens]
    obtain ⟨fuel, rfl⟩ := Nat.exists_eq_add_of_le' (show 2 ≤ fuel by omega)
    have hitems := indentedItems_tokens handles rest (v :: vs) h fuel (by omega)
    rw [outlineTokens, List.cons_append, List.append_assoc]
    · refine readNode_content .listStart ?_
      rw [readContent, List.singleton_append, hitems]
      rfl
    · exact nofun
  | .map entries, h, fuel, hf => by
    have hlen : (outlineTokens (.map entries)).length = (entryTokens entries).length + 2 := by
      simp [outlineTokens]
    obtain ⟨fuel, rfl⟩ := Nat.exists_eq_add_of_le' (show 2 ≤ fuel by omega)
    have hentries := indentedEntries_tokens handles rest entries h.2 fuel (by omega)
    rw [outlineTokens, List.cons_append, List.append_assoc]
    refine readNode_content .mapStart ?_
    rw [readContent, List.singleton_append, hentries]
    rfl

theorem indentedItems_tokens (handles : Handles) (rest : List Token) :
    (vs : List Value) → outlineItems P vs → (fuel : Nat) → 3 * (itemTokens vs).length + 1 ≤ fuel →
      indentedItems handles fuel (itemTokens vs ++ .blockEnd :: rest) = some (itemNodes vs, rest)
  | [], _, fuel, hf => by
    obtain ⟨fuel, rfl⟩ := Nat.exists_eq_add_of_le' hf
    rfl
  | v :: vs, h, fuel, hf => by
    rw [itemTokens, List.length_cons, List.length_append] at hf
    obtain ⟨fuel, rfl⟩ := Nat.exists_eq_add_of_le' (show 1 ≤ fuel by omega)
    have hv := readNode_tokens handles false (itemTokens vs ++ .blockEnd :: rest) v h.1.2 fuel (by omega)
    have hvs := indentedItems_tokens handles rest vs h.2 fuel (by omega)
    have hends : endsItem (outlineTokens v ++ (itemTokens vs ++ .blockEnd :: rest)) = false := by
      obtain ⟨t, ts, hts, ht⟩ := outlineTokens_cons h.1.2
      rw [hts]
      cases ht <;> rfl
    rw [itemTokens, List.cons_append, List.append_assoc, indentedItems]
    simp [hends, hv, hvs, itemNodes]

theorem indentedEntries_tokens (handles : Handles) (rest : List Token) :
    (es : List (String × Value)) → outlineEntries P es → (fuel : Nat) → 3 * (entryTokens es).length + 1 ≤ fuel →
      indentedEntries handles fuel (entryTokens es ++ .blockEnd :: rest) = some (entryNodes es, rest)
  | [], _, fuel, hf => by
    obtain ⟨fuel, rfl⟩ := Nat.exists_eq_add_of_le' hf
    rfl
  | (k, v) :: es, h, fuel, hf => by
    simp only [entryTokens, List.length_cons, List.length_append] at hf
    obtain ⟨fuel, rfl⟩ := Nat.exists_eq_add_of_le' (show 3 ≤ fuel by omega)
    have hk : readNode handles true true (fuel + 2) (.scalar k true :: .valueMark ::
        (outlineTokens v ++ (entryTokens es ++ .blockEnd :: rest))) = some (.scalar k true, .valueMark ::
        (outlineTokens v ++ (entryTokens es ++ .blockEnd :: rest))) := readNode_content (.scalar ..) rfl
    have hv := readNode_tokens handles true (entryTokens es ++ .blockEnd :: rest) v h.1.2 (fuel + 1) (by omega)
    have hes := indentedEntries_tokens handles rest es h.2 (fuel + 2) (by omega)
    have hends : endsEntry (outlineTokens v ++ (entryTokens es ++ .blockEnd :: rest)) = false := by
      obtain ⟨t, ts, hts, ht⟩ := outlineTokens_cons h.1.2
      rw [hts]
      cases ht <;> rfl
    have hvalue : indentedValue handles (fuel + 2) (.valueMark :: (outlineTokens v ++
        (entryTokens es ++ .blockEnd :: rest))) = some (outlineNode v, entryTokens es ++ .blockEnd :: rest) := by
      rw [indentedValue]
      simp [hends, hv]
    simp only [entryTokens, List.cons_append, List.append_assoc]
    rw [indentedEntries]
    simp [endsEntry, hk, hvalue, hes, entryNodes]

end

end

/-! ## Terms -/

/-- A plain scalar that an outline holds stands for its text. -/
theorem resolve_isPlain {s : String} (h : Kept s) (hs : isPlain s = true) : resolve s = .text s := by
  simp only [isPlain, Bool.and_eq_true, Bool.not_eq_true'] at hs
  rw [Kept, if_neg (by simpa using hs.1)] at h
  exact resolve_eq_text hs.2 (h hs.2)

theorem KeyWord.key_eq {k : String} (h : KeyWord k) : (Node.scalar k true).key = ⟨.ok k, none⟩ := by
  have hmerge : k ≠ "<<" := by
    rintro rfl
    exact absurd (h.letters '<' (by decide)) (by decide)
  rw [Node.key, if_neg hmerge, meaning?, resolve_eq_text h.plain h.kept]

mutual

theorem term_outlineNode (inside : Bool) (names : Names) : (v : Value) → IsOutline Kept v →
    (outlineNode v).term inside names = (Term.ofValue v, names)
  | .text s, h => by
    rw [outlineNode]
    cases hs : isPlain s with
    | true => rw [Node.term, resolve_isPlain h hs]
    | false => rfl
  | .list items, h => by
    rw [outlineNode, Node.term, itemTerms_itemNodes inside names items h]
    rfl
  | .map entries, h => by
    rw [outlineNode, Node.term, entryTerms_entryNodes inside names entries h.2]
    rfl

theorem itemTerms_itemNodes (inside : Bool) (names : Names) : (vs : List Value) → outlineItems Kept vs →
    itemTerms inside names (itemNodes vs) = (ofValueList vs, names)
  | [], _ => rfl
  | v :: vs, h => by
    have hv := term_outlineNode inside names v h.1.2
    have hvs := itemTerms_itemNodes inside names vs h.2
    simp only [itemNodes, itemTerms, hv, hvs, ofValueList]

theorem entryTerms_entryNodes (inside : Bool) (names : Names) : (es : List (String × Value)) →
    outlineEntries Kept es → entryTerms inside names (entryNodes es) = (ofValueEntries es, names)
  | [], _ => rfl
  | (k, v) :: es, h => by
    have hv := term_outlineNode inside names v h.1.2
    have hes := entryTerms_entryNodes inside names es h.2
    simp only [entryNodes, entryTerms, h.1.1.key_eq, Node.term, hv, hes, ofValueEntries]

end

/-! ## Documents -/

theorem documentOf_outline {es : List (String × Value)} (h : IsOutline Kept (.map es)) :
    documentOf? (outlineTokens (.map es) ++ [.textEnd]) = some (outlineNode (.map es)) := by
  have hread := readNode_tokens baseHandles false [.textEnd] (.map es) h
    (3 * (outlineTokens (.map es) ++ [Token.textEnd]).length + 3) (by rw [List.length_append]; omega)
  obtain ⟨ts, hts⟩ : ∃ ts, outlineTokens (.map es) ++ [.textEnd] = .mapStart :: ts := ⟨_, rfl⟩
  rw [hts] at hread ⊢
  rw [List.length_cons] at hread
  simp [documentOf?, directives, endsDocument, hread]

/-- **An outline that is a map comes back from its text.** -/
theorem document_outline {es : List (String × Value)} (h : IsOutline Kept (.map es)) :
    ∃ text n, render? (.map es) = some text ∧ document? text = some n ∧ n.standing = .ofValue (.map es) := by
  obtain ⟨text, hrender, htokens⟩ := render_outline h
  refine ⟨text, outlineNode (.map es), hrender, ?_, ?_⟩
  · rw [document?, htokens]
    exact documentOf_outline h
  · rw [Node.standing, term_outlineNode false {} _ h]

end StageFlow.Yaml
