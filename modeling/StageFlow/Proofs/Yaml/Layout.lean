import StageFlow.Proofs.Yaml.Scan

/-!
# Scanning a layout

Judgments that join the fetches of the scanner, with one rule for each way to build a block-style text, and what
the printer writes of an outline: a value of texts, of maps with plain words for keys, and of lists of such maps.

## Contents
- **Judgments.** `Reads` and `ReadsValue`.
- **Rules.** Values on one line, collections, entries, items, and one behind another.
- **Outlines.** `KeyWord`, `IsOutline` and `outlineTokens`.
- **What the printer writes.** The printer's functions in terms of entries, and `readsValue`.
- **Documents.** `Scan.Reads.run_eq`, the run of the scanner over a whole text.
-/

namespace StageFlow.Yaml

namespace Scan

/-! ## Judgments -/

/-- The scanner passes over a text of so many characters to what stands behind it, and everything inside is
closed. -/
def Passes (fuel level length : Nat) (s : Scan) (ts : List Token) (is : List Nat) (tail : List Char) : Prop :=
  ∃ n s', Fetches fuel n s s' ∧ n ≤ length ∧ s'.Rests tail ∧ s'.Open (2 * level : Nat) ts (2 * level :: is)

/-- A text that starts at a level is scanned as these tokens. `t` opens what it stands in, if it is the first
there. -/
structure Reads (fuel level : Nat) (t : Token) (cs : List Char) (ts : List Token) : Prop where
  starts : ∃ x xs, cs = x :: xs ∧ StartsToken x
  noReturn : '\r' ∉ cs
  passes : ∀ {s : Scan} {done is tail}, s.Faces fuel (2 * level) (cs ++ tail) →
    s.Ready (2 * level) t done (2 * level :: is) → Below (2 * level) tail → (cs ++ tail).length + 2 ≤ fuel →
    Passes fuel level cs.length s (ts.reverse ++ done) is tail

/-- A text behind the colon of an entry is scanned as these tokens. -/
structure ReadsValue (fuel level : Nat) (cs : List Char) (ts : List Token) : Prop where
  starts : ∃ x xs, cs = x :: xs ∧ (isBlank x = true ∨ isBreak x = true)
  noReturn : '\r' ∉ cs
  passes : ∀ {s : Scan} {done is tail}, s.AtValue (2 * level) done is (cs ++ tail) → Below (2 * level) tail →
    (cs ++ tail).length + 2 ≤ fuel → Passes fuel level cs.length s (ts.reverse ++ done) is tail

variable {fuel level : Nat} {t : Token} {cs cs' tail : List Char} {ts ts' : List Token}

/-! ## Rules -/

/-- A text on the line of its key. -/
theorem ReadsValue.text {str : String} (h : Kept str) :
    ReadsValue fuel level (' ' :: Yaml.text level str) [.scalar str (isPlain str)] where
  starts := ⟨_, _, rfl, .inl rfl⟩
  noReturn hr := h.return_notMem level (List.mem_of_ne_of_mem (by decide) hr)
  passes hs htail hf := by
    obtain ⟨s', hnext, hrests, hopen⟩ := next_text h hs htail (Nat.le_of_succ_le hf)
    exact ⟨1, s', .step hnext (.refl _), Nat.succ_pos _, hrests, hopen⟩

/-- A list without items. -/
theorem ReadsValue.brackets : ReadsValue fuel level [' ', '[', ']'] [.openBracket, .closeBracket] where
  starts := ⟨_, _, rfl, .inl rfl⟩
  noReturn := by decide
  passes hs htail hf := by
    obtain ⟨s₁, hnext, s₂, hnext', hrests, hopen⟩ := next_brackets hs (Nat.lt_of_lt_of_le (by simp) hf)
    exact ⟨2, s₂, .step hnext (.step hnext' (.refl _)), Nat.le_succ 2, hrests, hopen⟩

/-- An entry: its key, and its value. -/
theorem Reads.entry {ks : List Char} (hks : PlainText ks) (hmark : ∀ x ∈ ks.head?, x ≠ '-' ∧ x ≠ '.')
    (h : ReadsValue fuel level cs ts) : Reads fuel level .mapStart (ks ++ ':' :: cs)
      (.keyMark :: .scalar (String.ofList ks) true :: .valueMark :: ts) where
  starts := by
    obtain ⟨x, xs, rfl, hblank, -⟩ := hks.first
    obtain ⟨-, hhash, hbreak⟩ := hks.chars x List.mem_cons_self
    exact ⟨x, _, rfl, hblank, hbreak, hhash⟩
  noReturn := by
    have hkey : '\r' ∉ ks := fun hr => absurd (hks.chars _ hr).2.2 (by decide)
    simp [hkey, h.noReturn]
  passes {s done is tail} hs hready htail hf := by
    obtain ⟨x, xs, hcs, hx⟩ := h.starts
    rw [List.append_assoc, List.cons_append] at hs hf
    rw [List.length_append, List.length_cons] at hf
    obtain ⟨s₁, s₂, hnext, hnext', hvalue⟩ := next_key hs hready hks hmark
      ⟨x, xs ++ tail, by rw [hcs]; rfl, hx⟩ (by omega)
    obtain ⟨n, s', hfetches, hn, hrests, hopen⟩ := h.passes hvalue htail (by omega)
    have hpos : 0 < ks.length := by
      obtain ⟨x, xs, rfl, -⟩ := hks.first
      exact Nat.succ_pos _
    refine ⟨n + 1 + 1, s', .step hnext (.step hnext' hfetches), ?_, hrests, ?_⟩
    · rw [List.length_append, List.length_cons]
      omega
    · simpa using hopen

/-- A list or map inside of another opens in front of its text and is closed behind it. -/
theorem Reads.inside {s : Scan} {done : List Token} {is : List Nat} (h : Reads fuel (level + 1) t cs ts)
    (hs : s.Faces fuel (2 * (level + 1)) (cs ++ tail))
    (hopen : s.Open (2 * (level + 1) : Nat) done (2 * level :: is))
    (htail : Below (2 * level) tail) (hf : (cs ++ tail).length + 2 ≤ fuel) :
    Passes fuel level cs.length s (.blockEnd :: (ts.reverse ++ t :: done)) is tail := by
  have hready : s.Ready (2 * (level + 1)) t (t :: done) (2 * (level + 1) :: 2 * level :: is) :=
    ⟨done, 2 * level :: is, hopen, .new (by rintro _ ⟨⟩; omega)⟩
  obtain ⟨n, s', hfetches, hn, hrests, hinner⟩ := h.passes hs hready (htail.mono (by omega)) hf
  exact ⟨n, s', hfetches, hn, hrests, hinner.close (by omega) (by omega) (by rintro _ ⟨⟩; exact Int.le_refl _)⟩

/-- A collection below the line of its key, behind which the printer may have left a space. -/
theorem Reads.value {gap : List Char} (hgap : gap = [] ∨ gap = [' ']) (h : Reads fuel (level + 1) t cs ts) :
    ReadsValue fuel level (gap ++ (newline (level + 1) ++ cs)) (t :: (ts ++ [.blockEnd])) where
  starts := by
    rcases hgap with rfl | rfl
    · exact ⟨_, _, rfl, .inr rfl⟩
    · exact ⟨_, _, rfl, .inl rfl⟩
  noReturn := by
    have hgap' : '\r' ∉ gap := by rcases hgap with rfl | rfl <;> decide
    simp [newline, hgap', h.noReturn]
  passes {s done is tail} hs htail hf := by
    obtain ⟨x, xs, hcs, hx⟩ := h.starts
    have hrest := hs.rest
    simp only [newline, List.cons_append, List.append_assoc, List.length_append, List.length_cons,
      List.length_replicate] at hrest hf
    have hfaces : s.Faces fuel (2 * (level + 1)) (cs ++ tail) := by
      rw [hcs] at hrest ⊢
      rcases hgap with rfl | rfl
      · exact .of_line hx hs.candidates hrest (by simp only [List.length_nil] at hf; omega)
      · obtain ⟨fuel, rfl⟩ := Nat.exists_eq_add_of_le' (Nat.le_trans (Nat.le_add_left 1 _) hf)
        have hnext := Cursor.next_behind hrest (by decide)
        have hbehind : (s.skip 1).Faces fuel (2 * (level + 1)) (x :: (xs ++ tail)) :=
          .of_line hx hs.candidates hnext.rest (by simp only [List.length_singleton] at hf; omega)
        obtain ⟨c, hskip, hc, hcolumn⟩ := hbehind
        refine ⟨c, ?_, hc, hcolumn⟩
        rw [skipToToken, hrest]
        exact hskip
    have hopen : s.Open (2 * (level + 1) : Nat) done (2 * level :: is) := by
      rw [← hs.tokens, ← hs.indents]
      refine .of_le hs.candidates ?_
      rw [hs.indents]
      rintro _ ⟨⟩
      omega
    obtain ⟨n, s', hfetches, hn, hrests, hclosed⟩ := h.inside hfaces hopen htail (by
      rw [List.length_append]
      omega)
    refine ⟨n, s', hfetches, ?_, hrests, by simpa using hclosed⟩
    simp only [List.length_append]
    omega

/-- A map as an item of a list, on the line of the dash. -/
theorem Reads.item (h : Reads fuel (level + 1) .mapStart cs ts) :
    Reads fuel level .listStart ('-' :: ' ' :: cs) (.dash :: .mapStart :: (ts ++ [.blockEnd])) where
  starts := ⟨_, _, rfl, rfl, rfl, by decide⟩
  noReturn := by simp [h.noReturn]
  passes {s done is tail} hs hready htail hf := by
    obtain ⟨x, xs, hcs, hx⟩ := h.starts
    simp only [List.cons_append, List.length_cons] at hs hf
    rw [hcs] at hs
    obtain ⟨s₁, hnext, hfaces, hopen⟩ := next_dash hs hready hx (by omega)
    have hinside : s₁.Faces fuel (2 * (level + 1)) (cs ++ tail) := by
      rw [hcs]
      exact hfaces
    obtain ⟨n, s', hfetches, hn, hrests, hclosed⟩ := h.inside hinside hopen htail (by omega)
    refine ⟨n + 1, s', .step hnext hfetches, ?_, hrests, by simpa using hclosed⟩
    simp only [List.length_cons]
    omega

/-- One behind another, on lines of their own. -/
theorem Reads.append (h : Reads fuel level t cs ts) (h' : Reads fuel level t cs' ts') :
    Reads fuel level t (cs ++ (newline level ++ cs')) (ts ++ ts') where
  starts := by
    obtain ⟨x, xs, rfl, hx⟩ := h.starts
    exact ⟨x, _, rfl, hx⟩
  noReturn := by simp [newline, h.noReturn, h'.noReturn]
  passes {s done is tail} hs hready htail hf := by
    obtain ⟨x, xs, hcs, hx⟩ := h'.starts
    have hline : newline level ++ cs' ++ tail = '\n' :: (List.replicate (2 * level) ' ' ++ x :: (xs ++ tail)) := by
      rw [newline, hcs]
      simp
    have hlen := congrArg List.length hline
    simp only [List.length_append, List.length_cons, List.length_replicate] at hlen hf
    rw [List.append_assoc, hline] at hs
    obtain ⟨m, s₁, hfetches, hm, hrests, hopen⟩ := h.passes hs hready (.line (Nat.le_refl _) hx) (by
      simp only [List.length_append, List.length_cons, List.length_replicate]
      omega)
    have hfaces : s₁.Faces fuel (2 * level) (cs' ++ tail) := by
      rw [hcs]
      exact hrests.faces hx hopen.candidates (by omega)
    obtain ⟨n, s₂, hfetches', hn, hrests', hopen'⟩ := h'.passes hfaces ⟨_, _, hopen, .old rfl⟩ htail (by
      rw [List.length_append]
      omega)
    refine ⟨m + n, s₂, hfetches.trans hfetches', ?_, hrests', ?_⟩
    · simp only [List.length_append]
      omega
    · simpa using hopen'

/-- No lines, or lines that start at a level. -/
inductive ReadsLines (fuel level : Nat) (t : Token) : List Char → List Token → Prop
  | nil : ReadsLines fuel level t [] []
  | cons {cs : List Char} {ts : List Token} (h : Reads fuel level t cs ts) :
    ReadsLines fuel level t (newline level ++ cs) ts

theorem Reads.lines (h : Reads fuel level t cs ts) (h' : ReadsLines fuel level t cs' ts') :
    Reads fuel level t (cs ++ cs') (ts ++ ts') := by
  cases h' with
  | nil => rwa [List.append_nil, List.append_nil]
  | cons h' => exact h.append h'

theorem ReadsLines.value {gap : List Char} (hgap : gap = [] ∨ gap = [' '])
    (h : ReadsLines fuel (level + 1) t cs ts) (hts : ts ≠ []) :
    ReadsValue fuel level (gap ++ cs) (t :: (ts ++ [.blockEnd])) := by
  cases h with
  | nil => contradiction
  | cons h => exact h.value hgap

theorem ReadsLines.reads (h : ReadsLines fuel level t (newline level ++ cs) ts) : Reads fuel level t cs ts := by
  generalize hcs : newline level ++ cs = cs' at h
  cases h with
  | nil => exact absurd hcs (List.cons_ne_nil _ _)
  | cons h => rwa [List.append_cancel_left hcs]

end Scan

/-! ## Outlines -/

/-- A key that is a word of small letters and stands for nothing but itself. -/
structure KeyWord (k : String) : Prop where
  letters : ∀ x ∈ k.toList, x.isLower = true
  plain : needsQuotes k = false
  kept : KeptPlain k

theorem KeyWord.head {k : String} (h : KeyWord k) : ∃ x xs, k.toList = x :: xs ∧ x.isLower = true := by
  have hne : k.toList ≠ [] := fun hnil => absurd h.plain (by rw [String.toList_eq_nil_iff.mp hnil]; decide)
  obtain ⟨x, xs, hk⟩ := List.exists_cons_of_ne_nil hne
  exact ⟨x, xs, hk, h.letters x (by rw [hk]; exact List.mem_cons_self)⟩

theorem KeyWord.noBreak {k : String} (h : KeyWord k) : '\n' ∉ k.toList :=
  fun hk => absurd (h.letters _ hk) (by decide)

theorem KeyWord.keptText {k : String} (h : KeyWord k) : Kept k := by
  rw [Kept, if_neg h.noBreak]
  exact fun _ => h.kept

theorem KeyWord.text_eq {k : String} (h : KeyWord k) (level : Nat) : text level k = k.toList := by
  rw [text, if_neg (by simpa using h.noBreak), if_neg (by simp [h.plain])]

mutual

/-- A value of such texts, of maps with words for keys, none empty, and of lists of such maps. -/
def IsOutline (P : String → Prop) : Value → Prop
  | .text s => P s
  | .list items => outlineItems P items
  | .map entries => entries ≠ [] ∧ outlineEntries P entries
  | _ => False

/-- Maps, all of them outlines. -/
def outlineItems (P : String → Prop) : List Value → Prop
  | [] => True
  | v :: vs => ((∃ es, v = .map es) ∧ IsOutline P v) ∧ outlineItems P vs

/-- Entries with a word for a key and an outline for a value. -/
def outlineEntries (P : String → Prop) : List (String × Value) → Prop
  | [] => True
  | (k, v) :: es => (KeyWord k ∧ IsOutline P v) ∧ outlineEntries P es

end

mutual

/-- The tokens of an outline. -/
def outlineTokens : Value → List Token
  | .text s => [.scalar s (isPlain s)]
  | .list [] => [.openBracket, .closeBracket]
  | .list items => .listStart :: (itemTokens items ++ [.blockEnd])
  | .map entries => .mapStart :: (entryTokens entries ++ [.blockEnd])
  | _ => []

/-- The tokens of the items of a list. -/
def itemTokens : List Value → List Token
  | [] => []
  | v :: vs => .dash :: (outlineTokens v ++ itemTokens vs)

/-- The tokens of the entries of a map. -/
def entryTokens : List (String × Value) → List Token
  | [] => []
  | (k, v) :: es => .keyMark :: .scalar k true :: .valueMark :: (outlineTokens v ++ entryTokens es)

end

/-! ## What the printer writes -/

/-- What stands behind the colon of an entry. In a map that is an item there is a space even in front of a value on
lines of its own. -/
def valueText (inItem : Bool) (level : Nat) (v : Value) : List Char :=
  if isBlock v then (if inItem then [' '] else []) ++ block (level + 1) v else ' ' :: block level v

/-- An entry of a map. -/
def entryText (inItem : Bool) (level : Nat) (e : String × Value) : List Char :=
  text level e.1 ++ ':' :: valueText inItem level e.2

/-- Entries behind another. -/
def moreEntries (inItem : Bool) (level : Nat) (es : List (String × Value)) : List Char :=
  es.flatMap fun e => newline level ++ entryText inItem level e

theorem gap_cases (inItem : Bool) :
    (if inItem then [' '] else []) = [] ∨ (if inItem then [' '] else []) = [' '] := by
  cases inItem
  · exact .inl rfl
  · exact .inr rfl

theorem blockEntries_eq (level : Nat) (es : List (String × Value)) :
    blockEntries level es = moreEntries false level es := by
  induction es with
  | nil => rfl
  | cons e es ih =>
    rw [blockEntries, ih, moreEntries, moreEntries, List.flatMap_cons]
    simp [entryText, valueText]

theorem itemEntries_eq (level : Nat) (es : List (String × Value)) :
    itemEntries level es = moreEntries true (level + 1) es := by
  induction es with
  | nil => rfl
  | cons e es ih =>
    rw [itemEntries, ih, moreEntries, moreEntries, List.flatMap_cons]
    simp only [entryText, valueText]
    split <;> simp

theorem blockItems_map (level : Nat) (e : String × Value) (es : List (String × Value)) (vs : List Value) :
    blockItems level (.map (e :: es) :: vs) = newline level ++
      ('-' :: ' ' :: (entryText true (level + 1) e ++ moreEntries true (level + 1) es) ++
        blockItems level vs) := by
  rw [blockItems, itemEntries_eq]
  simp only [entryText, valueText]
  split <;> simp

namespace Scan

variable {fuel : Nat}

/-- An entry whose value is scanned. -/
theorem Reads.keyed {inItem : Bool} {level : Nat} {k : String} {v : Value} {ts : List Token} (hk : KeyWord k)
    (hv : ReadsValue fuel level (valueText inItem level v) ts) :
    Reads fuel level .mapStart (entryText inItem level (k, v))
      (.keyMark :: .scalar k true :: .valueMark :: ts) := by
  have hplain := plainText_of_kept hk.noBreak hk.plain hk.kept
  have hmark : ∀ x ∈ k.toList.head?, x ≠ '-' ∧ x ≠ '.' := by
    obtain ⟨y, ys, hy, hlower⟩ := hk.head
    rw [hy]
    rintro _ ⟨⟩
    constructor <;> (rintro rfl; exact absurd hlower (by decide))
  have hentry := Reads.entry hplain hmark hv
  rwa [String.ofList_toList, ← hk.text_eq level] at hentry

mutual

/-- **What the printer writes of an outline is scanned as its tokens.** -/
theorem readsValue (inItem : Bool) (level : Nat) : (v : Value) → IsOutline Kept v →
    ReadsValue fuel level (valueText inItem level v) (outlineTokens v)
  | .text s, h => ReadsValue.text h
  | .list [], _ => ReadsValue.brackets
  | .list (v :: vs), h => by
    have hitems := readsItems (level + 1) (v :: vs) h
    exact hitems.value (gap_cases inItem) (List.cons_ne_nil _ _)
  | .map [], h => absurd rfl h.1
  | .map (e :: es), h => by
    have hentries := readsEntries false (level + 1) (e :: es) h.2
    rw [← blockEntries_eq] at hentries
    exact hentries.value (gap_cases inItem) (List.cons_ne_nil _ _)

theorem readsEntries (inItem : Bool) (level : Nat) : (es : List (String × Value)) →
    outlineEntries Kept es → ReadsLines fuel level .mapStart (moreEntries inItem level es) (entryTokens es)
  | [], _ => .nil
  | (k, v) :: es, h => by
    have hentry := Reads.keyed h.1.1 (readsValue inItem level v h.1.2)
    have hlines := hentry.lines (readsEntries inItem level es h.2)
    rw [moreEntries, List.flatMap_cons, List.append_assoc]
    exact .cons hlines

theorem readsItems (level : Nat) : (vs : List Value) → outlineItems Kept vs →
    ReadsLines fuel level .listStart (blockItems level vs) (itemTokens vs)
  | [], _ => .nil
  | .map [] :: _, h => absurd rfl h.1.2.1
  | .map (e :: es) :: vs, h => by
    have hentries := (readsEntries true (level + 1) (e :: es) h.1.2.2)
    rw [moreEntries, List.flatMap_cons, List.append_assoc] at hentries
    have hlines := hentries.reads.item.lines (readsItems level vs h.2)
    rw [blockItems_map]
    exact .cons hlines
  | .null :: _, h | .bool _ :: _, h | .number _ :: _, h | .text _ :: _, h | .list _ :: _, h => by
    obtain ⟨_, hmap⟩ := h.1.1
    cases hmap

end

end Scan

/-! ## Documents -/

/-- A text without carriage returns keeps its line breaks. -/
theorem unifyBreaks_eq {cs : List Char} (h : '\r' ∉ cs) : unifyBreaks cs = cs := by
  induction cs with
  | nil => rfl
  | cons x cs ih =>
    rw [List.mem_cons, not_or] at h
    unfold unifyBreaks
    split
    · rename_i heq
      exact absurd (List.cons.inj heq).1.symm h.1
    · rename_i heq
      obtain ⟨rfl, rfl⟩ := List.cons.inj heq
      rw [ih h.2]
    · contradiction

/-- A whole text. -/
theorem Scan.Reads.run_eq {cs : List Char} {ts : List Token} (h : Reads (cs.length + 2) 0 .mapStart cs ts)
    (hmark : ∀ x ∈ cs.head?, x ≠ '\ufeff') :
    Scan.run (cs.length + 2) (cs.length + 2) { cursor := Cursor.start cs }
      = .mapStart :: (ts ++ [.blockEnd, .textEnd]) := by
  obtain ⟨x, xs, hcs, hx⟩ := h.starts
  have hstart : Cursor.start cs = { rest := cs } := by
    unfold Cursor.start
    split
    · exact absurd rfl (hmark _ rfl)
    · rfl
  have hfaces : Faces (cs.length + 2) { cursor := { rest := cs } } (2 * 0) (cs ++ []) := by
    rw [List.append_nil]
    exact ⟨{ rest := cs }, skipToToken_here (s := { cursor := { rest := cs } }) hx hcs, rfl, rfl⟩
  have hopen : Open { cursor := { rest := cs } } (2 * 0 : Nat) [] [] :=
    .of_le (s := { cursor := { rest := cs } }) rfl nofun
  obtain ⟨n, s, hfetches, hn, hrests, hopen'⟩ := h.passes hfaces ⟨[], [], hopen, .new nofun⟩ .nil (by simp)
  obtain ⟨s', hfetch, htokens⟩ := fetch_end hrests.rest_nil hopen' (Nat.succ_pos (cs.length + 1))
  have hrun := hfetches.run_eq (cs.length + 1 - n + 1)
  rw [show n + (cs.length + 1 - n + 1) = cs.length + 2 by omega] at hrun
  rw [hstart, hrun, run, hfetch]
  simp [htokens]

end StageFlow.Yaml
