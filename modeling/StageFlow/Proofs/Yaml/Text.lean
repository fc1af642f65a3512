import StageFlow.Proofs.Yaml.Block
import StageFlow.Yaml.Term

/-!
# Texts that come back

The printer chooses one of three forms for a text. Quotes hold every text; a literal block and a plain scalar do
not, and `Kept` says which texts the form that is chosen holds.

## Contents
- **Plain texts.** `PlainText`, what the scanner takes for one plain scalar, and `KeptPlain`.
- **Resolution.** A plain scalar that does not look like a number stands for its text, `resolve_eq_text`.
- **Texts.** `Kept`, and `isPlain`.
-/

namespace StageFlow.Yaml

open Text

/-! ## Plain texts -/

/-- A text that can stand as one plain scalar on a line: it starts with nothing that has a meaning there. -/
structure PlainText (cs : List Char) : Prop extends PlainChars cs where
  first : ∃ x xs, cs = x :: xs ∧ isBlank x = false ∧ isIndicator x = false ∧ x ≠ '%' ∧ x ≠ '?' ∧
    (x = '-' → ∃ y ys, xs = y :: ys ∧ isBlank y = false ∧ isBreak y = false)

/-- The text is none of those that the printer leaves plain although the reader takes them for something else: a
dash, texts with a tab at either end, and words for numbers that are not finite. -/
structure KeptPlain (s : String) : Prop where
  noDash : s ≠ "-"
  noTabFirst : s.toList.head? ≠ some '\t'
  noTabLast : s.toList.getLast? ≠ some '\t'
  noWord : String.ofList ((splitSign s.toList).2.map Char.toLower) ∉ ["inf", "infinity", "nan"]

/-- What is known of a text that is written plain. -/
theorem needsQuotes_eq_false {s : String} (h : needsQuotes s = false) :
    s ≠ "" ∧ s ∉ reservedWords ∧ looksNumeric s = false ∧ (isSimple s = true ∨
      (∀ x ∈ s.toList.head?, x ∉ indicators) ∧ s.toList.getLast? ≠ some ' ' ∧
        ∀ x ∈ s.toList, x ≠ ':' ∧ x ≠ '#' ∧ (x.toNat < 0x20 → x = '\t')) := by
  simp only [needsQuotes, Bool.or_eq_false_iff, Bool.and_eq_false_iff, decide_eq_false_iff_not,
    Bool.not_eq_false'] at h
  obtain ⟨⟨⟨hempty, hreserved⟩, hnumeric⟩, hchars⟩ := h
  refine ⟨by simpa using hempty, hreserved, hnumeric, hchars.imp id fun ⟨⟨hhead, hlast⟩, hall⟩ => ⟨?_, hlast, ?_⟩⟩
  · intro x hx
    rw [hx] at hhead
    simpa using hhead
  · intro x hx
    have hx' := List.any_eq_false.mp hall x hx
    simp only [Bool.or_eq_true, Bool.and_eq_true, decide_eq_true_eq, not_or, not_and, Decidable.not_not] at hx'
    exact ⟨hx'.1.1, hx'.1.2, hx'.2⟩

/-- A letter, a digit or one of four marks. -/
theorem simple_char {s : String} (h : isSimple s = true) {x : Char} (hx : x ∈ s.toList) :
    x ≠ ':' ∧ x ≠ '#' ∧ x ≠ '%' ∧ x ≠ '?' ∧ isBlank x = false ∧ isBreak x = false ∧ isIndicator x = false := by
  have hne (c : Char) (hc : (c.isAlphanum || c = '_' || c = '-' || c = '.' || c = '/') = false) : x ≠ c := by
    rintro rfl
    exact absurd (List.all_eq_true.mp h x hx) (by rw [hc]; decide)
  refine ⟨hne _ rfl, hne _ rfl, hne _ rfl, hne _ rfl, ?_, ?_, ?_⟩
  · simp [isBlank, hne ' ' rfl, hne '\t' rfl]
  · simp [isBreak, hne '\n' rfl, hne '\r' rfl]
  · simp [isIndicator, isFlowMark, hne ',' rfl, hne '[' rfl, hne ']' rfl, hne '\x7b' rfl, hne '\x7d' rfl,
      hne '#' rfl, hne '&' rfl, hne '*' rfl, hne '!' rfl, hne '|' rfl, hne '>' rfl, hne '\'' rfl, hne '"' rfl]

/-- Simple characters alone are a plain scalar, a lone dash apart. -/
theorem plainText_of_simple {s : String} (h : isSimple s = true) (hempty : s ≠ "") (hdash : s ≠ "-") :
    PlainText s.toList := by
  obtain ⟨x, xs, hcs⟩ := List.exists_cons_of_ne_nil (fun hnil => hempty (String.toList_eq_nil_iff.mp hnil) :
    s.toList ≠ [])
  obtain ⟨-, -, hpercent, hquestion, hblank, -, hmark⟩ :=
    simple_char h (by rw [hcs]; exact List.mem_cons_self : x ∈ s.toList)
  refine ⟨⟨?_, ?_⟩, x, xs, hcs, hblank, hmark, hpercent, hquestion, ?_⟩
  · intro y hy
    obtain ⟨hcolon, hhash, -, -, -, hbreak, -⟩ := simple_char h hy
    exact ⟨hcolon, hhash, hbreak⟩
  · intro y hy
    obtain ⟨-, -, -, -, hblank, -⟩ := simple_char h (List.mem_of_getLast? hy)
    exact hblank
  · rintro rfl
    cases xs with
    | nil => exact absurd (String.toList_inj.mp hcs) hdash
    | cons y ys =>
      obtain ⟨-, -, -, -, hblank, hbreak, -⟩ := simple_char h (by rw [hcs]; simp : y ∈ s.toList)
      exact ⟨y, ys, rfl, hblank, hbreak⟩

/-- So is a text that starts with no indicator and has no mark inside. -/
theorem plainText_of_unmarked {cs : List Char} (hempty : cs ≠ []) (hhead : ∀ x ∈ cs.head?, x ∉ indicators)
    (hchars : ∀ x ∈ cs, x ≠ ':' ∧ x ≠ '#' ∧ isBreak x = false) (hfirst : ∀ x ∈ cs.head?, isBlank x = false)
    (hlast : ∀ x ∈ cs.getLast?, isBlank x = false) : PlainText cs := by
  obtain ⟨x, xs, rfl⟩ := List.exists_cons_of_ne_nil hempty
  obtain ⟨-, hhash, -⟩ := hchars x List.mem_cons_self
  have hne (c : Char) (hc : c ∈ indicators) : x ≠ c := by
    rintro rfl
    exact hhead x rfl hc
  refine ⟨⟨hchars, hlast⟩, x, xs, rfl, hfirst x rfl, ?_, hne '%' (by decide), hne '?' (by decide),
    fun hdash => absurd hdash (hne '-' (by decide))⟩
  simp [isIndicator, isFlowMark, hne ',' (by decide), hne '[' (by decide), hne ']' (by decide),
    hne '\x7b' (by decide), hne '\x7d' (by decide), hhash, hne '&' (by decide), hne '*' (by decide),
    hne '!' (by decide), hne '|' (by decide), hne '>' (by decide), hne '\'' (by decide), hne '"' (by decide)]

theorem plainText_of_kept {s : String} (hn : '\n' ∉ s.toList) (hq : needsQuotes s = false) (h : KeptPlain s) :
    PlainText s.toList := by
  obtain ⟨hempty, -, -, hsimple | ⟨hhead, hlast, hall⟩⟩ := needsQuotes_eq_false hq
  · exact plainText_of_simple hsimple hempty h.noDash
  have hbreak (y : Char) (hy : y ∈ s.toList) : isBreak y = false := by
    have hline : y ≠ '\n' := by
      rintro rfl
      exact hn hy
    have hreturn : y ≠ '\r' := by
      rintro rfl
      exact absurd ((hall _ hy).2.2 (by decide)) (by decide)
    simp [isBreak, hline, hreturn]
  have hblank {end? : Option Char} (hspace : end? ≠ some ' ') (htab : end? ≠ some '\t') :
      ∀ y ∈ end?, isBlank y = false := by
    rintro y rfl
    simpa [isBlank] using ⟨fun h => hspace (congrArg some h), fun h => htab (congrArg some h)⟩
  have hspace : s.toList.head? ≠ some ' ' := fun h => hhead ' ' h (by decide)
  exact plainText_of_unmarked (fun hnil => hempty (String.toList_eq_nil_iff.mp hnil)) hhead
    (fun y hy => ⟨(hall y hy).1, (hall y hy).2.1, hbreak y hy⟩) (hblank hspace h.noTabFirst)
    (hblank hlast h.noTabLast)

/-! ## Resolution -/

/-- A sign at the front is one of the signs that are passed over. -/
theorem dropSigns_eq {cs xs : List Char} {x : Char} (hx : (splitSign cs).2 = x :: xs) (hplus : x ≠ '+')
    (hminus : x ≠ '-') : cs.dropWhile (fun c => c = '+' || c = '-') = x :: xs := by
  have hstop : (x :: xs).dropWhile (fun c => c = '+' || c = '-') = x :: xs := by
    simp [hplus, hminus]
  unfold splitSign at hx
  split at hx <;> dsimp only at hx <;> subst hx
  · exact hstop
  · exact hstop
  · exact hstop

/-- Behind its sign such a text starts neither with a digit nor with a point and a digit. -/
theorem looksNumeric_eq_false {s : String} (h : looksNumeric s = false) {x : Char} {xs : List Char}
    (hx : (splitSign s.toList).2 = x :: xs) :
    isDecimalDigit x = false ∧ (x = '.' → ∀ y ∈ xs.head?, isDecimalDigit y = false) := by
  simp only [looksNumeric, Bool.or_eq_false_iff] at h
  obtain ⟨⟨hdigits, -⟩, -⟩ := h
  constructor
  · by_contra hdigit
    rw [Bool.not_eq_false] at hdigit
    have hne (c : Char) (hc : isDecimalDigit c = false) : x ≠ c := by
      rintro rfl
      rw [hc] at hdigit
      exact absurd hdigit (by decide)
    rw [dropSigns_eq hx (hne '+' rfl) (hne '-' rfl)] at hdigits
    split at hdigits
    · rename_i heq
      exact hne '.' rfl (List.cons.inj heq).1
    · rename_i heq
      rw [← (List.cons.inj heq).1, hdigit] at hdigits
      exact absurd hdigits (by decide)
    · rename_i heq
      exact List.cons_ne_nil _ _ heq
  · rintro rfl y hy
    rw [dropSigns_eq hx (by decide) (by decide)] at hdigits
    cases xs with
    | nil => cases hy
    | cons z zs =>
      obtain rfl := Option.some.inj hy
      exact hdigits

theorem digitValue?_eq_none {x : Char} (h : isDecimalDigit x = false) : digitValue? 10 x = none := by
  unfold digitValue? hexValue?
  rw [h]
  split
  · contradiction
  · split
    · simp [Option.filter]
    · split <;> simp [Option.filter]

/-- No digits stand behind the sign. -/
theorem signed?_eq_none {s : String} (h : looksNumeric s = false) : signed? 10 s.toList = none := by
  rw [signed?, Option.map_eq_none_iff, ofNumeral?]
  cases hds : (splitSign s.toList).2 with
  | nil => rfl
  | cons x xs => simp [digitValue?_eq_none (looksNumeric_eq_false h hds).1]

theorem integer?_eq_none {s : String} (h : looksNumeric s = false) : integer? s.toList = none := by
  have hzero {xs : List Char} (hs : s.toList = '0' :: xs) : False := by
    have hsign : (splitSign s.toList).2 = '0' :: xs := by rw [hs]; rfl
    exact absurd (looksNumeric_eq_false h hsign).1 (by decide)
  have hnone := signed?_eq_none h
  unfold integer?
  split
  all_goals first
    | exact (hzero ‹_›).elim
    | rw [hnone]; rfl

theorem float?_eq_none {s : String} (h : looksNumeric s = false)
    (hword : String.ofList ((splitSign s.toList).2.map Char.toLower) ∉ ["inf", "infinity", "nan"]) :
    float? s.toList = none := by
  simp only [List.mem_cons, List.not_mem_nil, or_false, not_or] at hword
  obtain ⟨hinf, hinfinity, hnan⟩ := hword
  have hwhole : (splitSign s.toList).2.takeWhile isDecimalDigit = [] := by
    cases hds : (splitSign s.toList).2 with
    | nil => rfl
    | cons x xs => exact List.takeWhile_cons_of_neg (by simp [(looksNumeric_eq_false h hds).1])
  have hrest : (splitSign s.toList).2.dropWhile isDecimalDigit = (splitSign s.toList).2 := by
    cases hds : (splitSign s.toList).2 with
    | nil => rfl
    | cons x xs => exact List.dropWhile_cons_of_neg (by simp [(looksNumeric_eq_false h hds).1])
  have hfraction {xs : List Char} (hds : (splitSign s.toList).2 = '.' :: xs) :
      xs.takeWhile isDecimalDigit = [] := by
    cases xs with
    | nil => rfl
    | cons y ys => exact List.takeWhile_cons_of_neg (by simp [(looksNumeric_eq_false h hds).2 rfl y rfl])
  unfold float?
  simp only [hinf, hinfinity, hnan, hwhole, hrest, decide_false, Bool.or_self, Bool.false_eq_true, if_false]
  split
  · rename_i hds
    rw [hfraction hds]
    rfl
  · rfl

/-- **A text that is written plain stands for itself**, unless it is a word for an infinity or for no number. -/
theorem resolve_eq_text {s : String} (hq : needsQuotes s = false) (h : KeptPlain s) : resolve s = .text s := by
  obtain ⟨hempty, hreserved, hnumeric, -⟩ := needsQuotes_eq_false hq
  have hnull : s ∉ nullWords := fun hs => hreserved ((by decide : nullWords ⊆ reservedWords) hs)
  have htrue : s ∉ trueWords := fun hs => hreserved ((by decide : trueWords ⊆ reservedWords) hs)
  have hfalse : s ∉ falseWords := fun hs => hreserved ((by decide : falseWords ⊆ reservedWords) hs)
  have hspecial : special? s = none := by
    simp only [looksNumeric, Bool.or_eq_false_iff, decide_eq_false_iff_not] at hnumeric
    simp [special?, hnumeric.1.2, hnumeric.2]
  have hempty' : s.isEmpty = false := by simpa using hempty
  unfold resolve
  rw [integer?_eq_none hnumeric, hspecial, float?_eq_none hnumeric h.noWord]
  simp [hempty', hnull, htrue, hfalse]

/-! ## Texts -/

/-- Does a text stand as a plain scalar? -/
def isPlain (str : String) : Bool := !str.toList.contains '\n' && !needsQuotes str

/-- The text comes back from YAML. -/
def Kept (s : String) : Prop :=
  if '\n' ∈ s.toList then KeptBlock s.toList else needsQuotes s = false → KeptPlain s

instance (s : String) : Decidable (KeptPlain s) :=
  decidable_of_iff (s ≠ "-" ∧ s.toList.head? ≠ some '\t' ∧ s.toList.getLast? ≠ some '\t' ∧
      String.ofList ((splitSign s.toList).2.map Char.toLower) ∉ ["inf", "infinity", "nan"])
    ⟨fun ⟨h1, h2, h3, h4⟩ => ⟨h1, h2, h3, h4⟩, fun h => ⟨h.noDash, h.noTabFirst, h.noTabLast, h.noWord⟩⟩

instance (cs : List Char) : Decidable (KeptBlock cs) :=
  decidable_of_iff ('\r' ∉ cs ∧ finalBreaks cs ≤ 1 ∧ (cs.dropWhile (· = '\n')).head?.any (· ≠ ' ') = true)
    ⟨fun ⟨h1, h2, h3⟩ => ⟨h1, h2, by simpa [Option.any_eq_true] using h3⟩,
      fun h => ⟨h.noReturn, h.final, by simpa [Option.any_eq_true] using h.first⟩⟩

instance (s : String) : Decidable (Kept s) :=
  inferInstanceAs (Decidable (if '\n' ∈ s.toList then _ else _))

/-- A text that comes back is written without carriage returns. -/
theorem Kept.return_notMem {s : String} (h : Kept s) (level : Nat) : '\r' ∉ text level s := by
  by_cases hline : '\n' ∈ s.toList
  · rw [Kept, if_pos hline] at h
    rw [text, if_pos (by simpa using hline)]
    exact h.return_notMem level
  · rw [Kept, if_neg hline] at h
    rw [text, if_neg (by simpa using hline)]
    intro hr
    cases hquotes : needsQuotes s with
    | true =>
      simp only [hquotes, if_pos, doubleQuoted, List.mem_cons, List.mem_append, List.mem_flatMap, List.not_mem_nil,
        or_false] at hr
      rcases hr with hr | ⟨x, -, hx⟩ | hr
      · exact absurd hr (by decide)
      · exact absurd (isBreak_of_mem_escape hx) (by decide)
      · exact absurd hr (by decide)
    | false =>
      rw [hquotes] at hr
      exact absurd ((plainText_of_kept hline hquotes (h hquotes)).chars _ hr).2.2 (by decide)

end StageFlow.Yaml
