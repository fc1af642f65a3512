import StageFlow.Json.Printer
import StageFlow.Json.Reader

/-!
# Reading back what was written as JSON

The reader undoes the printer: behind indented text of a value stands the term of the value, and what follows is
left over. The reader is given fuel by the length of the text, so that each statement bounds the fuel by it.

## Contents
- **Digits.** Decimal and hexadecimal numerals have the value that they were made from.
- **Literals.** One step of the reader for each escaped character, and `readLiteral_escaped`.
- **Numbers.** `Number.IsExact` and `readNumeral_number`.
- **Values.** `Value.IsExact` and `readTerm_indented`.
- **Documents.** `Document.ofText_indentedText`.
-/

namespace StageFlow

/-! ## Digits -/

namespace Text

theorem hexValue?_digitChar : ∀ d < 16, hexValue? (Nat.digitChar d) = some d := by decide

theorem digitValue?_digitChar {base d : Nat} (hd : d < base) (hb : base ≤ 16) :
    digitValue? base (Nat.digitChar d) = some d := by
  simp [digitValue?, hexValue?_digitChar d (by omega), hd]

theorem digitValue_digitChar {d : Nat} (hd : d < 10) : digitValue (Nat.digitChar d) = d := by
  simp [digitValue, digitValue?_digitChar hd (by omega)]

theorem isDecimalDigit_digitChar : ∀ d < 10, isDecimalDigit (Nat.digitChar d) = true := by decide

/-- The digits of a natural, most significant first. -/
def digitsOf (n : Nat) : List Nat := if n < 10 then [n] else digitsOf (n / 10) ++ [n % 10]

theorem decimal_eq_map (n : Nat) : decimal n = (digitsOf n).map Nat.digitChar := by
  induction n using decimal.induct with
  | case1 n h => rw [decimal, digitsOf, if_pos h, if_pos h]; rfl
  | case2 n h ih => rw [decimal, digitsOf, if_neg h, if_neg h, ih, List.map_append]; rfl

theorem digitsOf_lt {n d : Nat} (h : d ∈ digitsOf n) : d < 10 := by
  induction n using digitsOf.induct with
  | case1 n hn =>
    rw [digitsOf, if_pos hn, List.mem_singleton] at h
    omega
  | case2 n hn ih =>
    rw [digitsOf, if_neg hn, List.mem_append, List.mem_singleton] at h
    exact h.elim ih (by omega)

theorem ofDigits_digitsOf (n : Nat) : ofDigits 10 (digitsOf n) = n := by
  induction n using digitsOf.induct with
  | case1 n h => rw [digitsOf, if_pos h]; simp [ofDigits]
  | case2 n h ih =>
    rw [digitsOf, if_neg h]
    simp only [ofDigits, List.foldl_append, List.foldl_cons, List.foldl_nil] at ih ⊢
    omega

/-- A numeral starts with a zero only if it is that zero. -/
theorem digitsOf_cons (n : Nat) : ∃ d ds, digitsOf n = d :: ds ∧ (d = 0 → ds = []) := by
  induction n using digitsOf.induct with
  | case1 n h => exact ⟨n, [], by rw [digitsOf, if_pos h], fun _ => rfl⟩
  | case2 n h ih =>
    obtain ⟨d, ds, hds, hzero⟩ := ih
    refine ⟨d, ds ++ [n % 10], by rw [digitsOf, if_neg h, hds, List.cons_append], fun hd => ?_⟩
    -- Otherwise `n / 10` were zero, and `n` a single digit.
    have hn := ofDigits_digitsOf (n / 10)
    rw [hds, hzero hd, hd] at hn
    simp only [ofDigits, List.foldl_cons, List.foldl_nil] at hn
    omega

theorem decimal_cons (n : Nat) : ∃ c cs, decimal n = c :: cs ∧ isDecimalDigit c = true := by
  obtain ⟨d, ds, hds, -⟩ := digitsOf_cons n
  refine ⟨Nat.digitChar d, ds.map Nat.digitChar, by rw [decimal_eq_map, hds]; rfl, ?_⟩
  exact isDecimalDigit_digitChar d (digitsOf_lt (n := n) (by simp [hds]))

end Text

namespace Json

open Text

/-! ## Literals -/

theorem readHex4_hex {n : Nat} (hn : n < 65536) (cs : List Char) :
    readHex4 (hex 4 n ++ cs) = .ok (n, cs) := by
  have hvalue (m : Nat) : digitValue? 16 (Nat.digitChar (m % 16)) = some (m % 16) :=
    digitValue?_digitChar (Nat.mod_lt m (by omega)) (by omega)
  have hsum : (((n / 16 / 16 / 16) % 16 * 16 + n / 16 / 16 % 16) * 16 + n / 16 % 16) * 16 + n % 16 = n := by
    omega
  simp [hex, readHex4, ofNumeral?, hvalue, ofDigits, hsum]

/-- An escaped character is read as that character. -/
theorem readLiteralFrom_escape (c : Char) (s : List Char) (fuel : Nat) (cs : List Char) :
    readLiteralFrom (fuel + 1) (.ok s) (escape c ++ cs) = readLiteralFrom fuel (.ok (c :: s)) cs := by
  by_cases hsimple : c = '"' ∨ c = '\\' ∨ c = '\x08' ∨ c = '\x0c' ∨ c = '\n' ∨ c = '\r' ∨ c = '\t'
  · rcases hsimple with rfl | rfl | rfl | rfl | rfl | rfl | rfl <;> rfl
  · simp only [not_or] at hsimple
    obtain ⟨hquote, hslash, hb, hf, hn, hr, ht⟩ := hsimple
    unfold escape
    rw [if_neg hquote, if_neg hslash, if_neg hb, if_neg hf, if_neg hn, if_neg hr, if_neg ht]
    split
    · rename_i hlow
      have hcode : readCodePoint c.toNat cs = .ok (c, cs) := by
        simp [readCodePoint, show ¬ 0xdc00 ≤ c.toNat by omega, show c.toNat < 0xd800 by omega]
      rw [List.cons_append, List.cons_append, readLiteralFrom, readHex4_hex (by omega)]
      simp only [hcode]
      rfl
    · rename_i hlow
      rw [List.singleton_append, readLiteralFrom, if_neg hlow]
      · rfl
      all_goals simp_all

theorem length_escape_pos (c : Char) : 0 < (escape c).length := by
  unfold escape
  repeat' split
  all_goals simp

theorem length_le_escaped (cs : List Char) : cs.length ≤ (cs.flatMap escape).length := by
  induction cs with
  | nil => exact Nat.le_refl 0
  | cons c cs ih =>
    have := length_escape_pos c
    simp only [List.flatMap_cons, List.length_append, List.length_cons]
    omega

theorem readLiteralFrom_escaped {fuel : Nat} {cs : List Char} (hf : cs.length < fuel)
    (s rest : List Char) :
    readLiteralFrom fuel (.ok s) (cs.flatMap escape ++ '"' :: rest)
      = .closed (.ok (String.ofList (s.reverse ++ cs))) rest := by
  induction cs generalizing fuel s with
  | nil =>
    obtain ⟨fuel, rfl⟩ := Nat.exists_eq_add_one.mpr hf
    simp [readLiteralFrom, Except.map]
  | cons c cs ih =>
    obtain ⟨fuel, rfl⟩ := Nat.exists_eq_add_one.mpr (Nat.zero_lt_of_lt hf)
    rw [List.flatMap_cons, List.append_assoc, readLiteralFrom_escape,
      ih (by simpa using hf) (c :: s)]
    simp

/-- **A text between quotes is read back**, whatever characters it has. -/
theorem readLiteral_escaped {fuel : Nat} {s : String} {rest : List Char}
    (hf : (s.toList.flatMap escape ++ '"' :: rest).length ≤ fuel) :
    readLiteral fuel (s.toList.flatMap escape ++ '"' :: rest) = .closed (.ok s) rest := by
  have hlen := length_le_escaped s.toList
  rw [List.length_append, List.length_cons] at hf
  rw [readLiteral, readLiteralFrom_escaped (by omega)]
  simp

/-! ## Numbers -/

/-- What follows a number must not go on as one. -/
def EndsNumber (rest : List Char) : Prop :=
  ∀ c ∈ rest.head?, isDecimalDigit c = false ∧ c ≠ '.' ∧ c ≠ 'e' ∧ c ≠ 'E'

theorem takeDigits_decimal {rest : List Char} (h : EndsNumber rest) (n : Nat) :
    takeDigits (decimal n ++ rest) = (digitsOf n, rest) := by
  have hdigits : ∀ c ∈ decimal n, isDecimalDigit c = true := by
    intro c hc
    rw [decimal_eq_map, List.mem_map] at hc
    obtain ⟨d, hd, rfl⟩ := hc
    exact isDecimalDigit_digitChar d (digitsOf_lt hd)
  have hvalues : (decimal n).map digitValue = digitsOf n := by
    rw [decimal_eq_map, List.map_map]
    exact (List.map_congr_left fun d hd => digitValue_digitChar (digitsOf_lt hd)).trans (List.map_id _)
  have hstop : rest.takeWhile isDecimalDigit = [] ∧ rest.dropWhile isDecimalDigit = rest := by
    cases rest with
    | nil => exact ⟨rfl, rfl⟩
    | cons c cs => simp [(h c rfl).1]
  rw [takeDigits, List.takeWhile_append_of_pos hdigits, List.dropWhile_append_of_pos hdigits,
    hstop.1, hstop.2, List.append_nil, hvalues]

theorem readUnsigned_decimal {rest : List Char} (h : EndsNumber rest) (negative : Bool) (n : Nat) :
    readUnsigned negative (decimal n ++ rest) = .ok ({ negative, whole := digitsOf n }, rest) := by
  obtain ⟨d, ds, hds, hzero⟩ := digitsOf_cons n
  have hexp (m : Numeral) : readExponent m rest = .ok (m, rest) := by
    cases rest with
    | nil => rfl
    | cons c cs => simp [readExponent, (h c rfl).2.2.1, (h c rfl).2.2.2]
  unfold readUnsigned
  rw [takeDigits_decimal h]
  simp only [hds]
  split
  · simp_all
  · rename_i e x xs heq
    simp_all
  · split
    · rename_i cs
      exact absurd rfl (h '.' rfl).2.1
    · exact hexp _

/-- As long as the value fits, no digit is left. -/
theorem absorb_eq {ds : List Nat} {s : Nat}
    (h : ds.foldl (fun n d => n * 10 + d) s < word64Bound) :
    absorb s ds = (ds.foldl (fun n d => n * 10 + d) s, 0) := by
  have hgrows (es : List Nat) (m : Nat) : m ≤ es.foldl (fun n d => n * 10 + d) m := by
    induction es generalizing m with
    | nil => exact Nat.le_refl m
    | cons e es ih => exact Nat.le_trans (by omega) (ih (m * 10 + e))
  induction ds generalizing s with
  | nil => rfl
  | cons d ds ih =>
    rw [absorb, if_pos (Nat.lt_of_le_of_lt (hgrows ds (s * 10 + d)) h), ih h]
    rfl

theorem number?_digitsOf {n : Nat} (h : n < word64Bound) (negative : Bool) :
    Numeral.number? { negative, whole := digitsOf n } = some (integerNumber negative n) := by
  have hvalue : (digitsOf n).foldl (fun n d => n * 10 + d) 0 = n := ofDigits_digitsOf n
  unfold Numeral.number?
  rw [absorb_eq (by rwa [hvalue]), hvalue]
  rfl

end Json

open Json

/-- An integer of 64 bits, signed or unsigned. -/
def Number.IsExact : Number → Prop
  | .int n => -int64Bound ≤ n ∧ n < word64Bound
  | .float _ => False

namespace Json

open Text

theorem readNumeral_natural {rest : List Char} (h : EndsNumber rest) (n : Nat) :
    readNumeral (decimal n ++ rest) = .ok ({ negative := false, whole := digitsOf n }, rest) := by
  obtain ⟨c, cs, hcs, hdigit⟩ := decimal_cons n
  rw [← readUnsigned_decimal h, hcs, List.cons_append, readNumeral]
  intro _ hminus
  obtain ⟨rfl, -⟩ := List.cons.inj hminus
  exact absurd hdigit (by decide)

/-- **An integer is read back**, be it signed or not. -/
theorem readNumeral_number {x : Number} (hx : x.IsExact) {rest : List Char} (h : EndsNumber rest) :
    ∃ n, readNumeral (number x ++ rest) = .ok (n, rest) ∧ n.number? = some x := by
  rcases x with i | _
  · obtain ⟨hlow, hhigh⟩ := hx
    simp only [int64Bound, word64Bound] at hlow hhigh
    by_cases hi : i < 0
    · refine ⟨_, ?_, (number?_digitsOf (n := i.natAbs) (by simp only [word64Bound]; omega) true).trans ?_⟩
      · rw [number, signedDecimal, if_pos hi]
        exact readUnsigned_decimal h true i.natAbs
      · have habs : 1 ≤ i.natAbs ∧ i.natAbs ≤ int64Bound.toNat := by
          simp only [int64Bound]
          omega
        have hneg : -(i.natAbs : Int) = i := by omega
        simp only [integerNumber, habs, hneg]
        rfl
    · refine ⟨_, ?_, (number?_digitsOf (n := i.natAbs) (by simp only [word64Bound]; omega) false).trans ?_⟩
      · rw [number, signedDecimal, if_neg hi]
        exact readNumeral_natural h i.natAbs
      · have habs : (i.natAbs : Int) = i := by omega
        simp [integerNumber, habs]
  · exact hx.elim

end Json

/-! ## Values -/

mutual

/-- Every number in the value is an integer of 64 bits. -/
def Value.IsExact : Value → Prop
  | .number n => n.IsExact
  | .list items => exactItems items
  | .map entries => exactEntries entries
  | _ => True

/-- `Value.IsExact` of every item. -/
def exactItems : List Value → Prop
  | [] => True
  | v :: vs => v.IsExact ∧ exactItems vs

/-- `Value.IsExact` of the value of every entry. -/
def exactEntries : List (String × Value) → Prop
  | [] => True
  | (_, v) :: es => v.IsExact ∧ exactEntries es

end

theorem exactItems_map {α : Type} {f : α → Value} {xs : List α} (h : ∀ x ∈ xs, (f x).IsExact) :
    exactItems (xs.map f) := by
  induction xs with
  | nil => trivial
  | cons x xs ih => exact ⟨h x List.mem_cons_self, ih fun y hy => h y (List.mem_cons_of_mem x hy)⟩

theorem exactEntries_append {es fs : List (String × Value)} (he : exactEntries es) (hf : exactEntries fs) :
    exactEntries (es ++ fs) := by
  induction es with
  | nil => exact hf
  | cons e es ih => exact ⟨he.1, ih he.2⟩

@[simp] theorem Term.isWhole_ofValue (v : Value) : (Term.ofValue v).isWhole = true := by
  cases v <;> rfl

namespace Json

open Text

variable {v : Value} {level fuel : Nat} {rest : List Char}

theorem skipBlank_of_head {c : Char} {cs : List Char} (h : isBlank c = false) :
    skipBlank (c :: cs) = c :: cs := by
  simp [skipBlank, h]

/-- Indentation is passed over. -/
theorem skipBlank_newline (level : Nat) (cs : List Char) :
    skipBlank (newline level ++ cs) = skipBlank cs := by
  refine List.dropWhile_append_of_pos fun c hc => ?_
  rcases List.mem_cons.mp hc with rfl | hc
  · rfl
  · rw [List.eq_of_mem_replicate hc]
    rfl

theorem isBlank_of_isDecimalDigit {c : Char} (h : isDecimalDigit c = true) : isBlank c = false := by
  have hne : c ≠ ' ' ∧ c ≠ '\n' ∧ c ≠ '\t' ∧ c ≠ '\r' := by
    refine ⟨?_, ?_, ?_, ?_⟩ <;> (rintro rfl; exact absurd h (by decide))
  simp [isBlank, hne]

/-- How the text of a number starts. -/
theorem number_cons {x : Number} (hx : x.IsExact) :
    ∃ c cs, number x = c :: cs ∧ (c = '-' ∨ isDecimalDigit c = true) := by
  rcases x with i | _
  · obtain ⟨c, cs, hcs, hdigit⟩ := decimal_cons i.natAbs
    rw [number, signedDecimal]
    split
    · exact ⟨'-', _, rfl, Or.inl rfl⟩
    · exact ⟨c, cs, hcs, Or.inr hdigit⟩
  · exact hx.elim

/-- How the text of a value starts: neither with white space nor with what closes a list. -/
theorem indented_cons (hv : v.IsExact) (level : Nat) :
    ∃ c cs, indented level v = c :: cs ∧ isBlank c = false ∧ c ≠ ']' := by
  unfold indented
  split
  · exact ⟨_, _, rfl, rfl, by decide⟩
  · exact ⟨_, _, rfl, rfl, by decide⟩
  · exact ⟨_, _, rfl, rfl, by decide⟩
  · obtain ⟨c, cs, hcs, rfl | hdigit⟩ := number_cons (show Number.IsExact _ from hv)
    · exact ⟨_, _, hcs, rfl, by decide⟩
    · refine ⟨_, _, hcs, isBlank_of_isDecimalDigit hdigit, ?_⟩
      rintro rfl
      exact absurd hdigit (by decide)
  all_goals exact ⟨_, _, rfl, rfl, by decide⟩

theorem readTerm_number {x : Number} (hx : x.IsExact) (hrest : EndsNumber rest) :
    readTerm (fuel + 1) (number x ++ rest) = (.number (some x), rest) := by
  obtain ⟨n, hread, hn⟩ := readNumeral_number hx hrest
  obtain ⟨c, cs, hcs, hc⟩ := number_cons hx
  have hblank : isBlank c = false := by
    rcases hc with rfl | hc
    · rfl
    · exact isBlank_of_isDecimalDigit hc
  have hne : c ≠ 'n' ∧ c ≠ 't' ∧ c ≠ 'f' ∧ c ≠ '"' ∧ c ≠ '[' ∧ c ≠ '\x7b' := by
    refine ⟨?_, ?_, ?_, ?_, ?_, ?_⟩ <;>
      (rintro rfl; exact absurd hc (by decide))
  rw [hcs, List.cons_append] at hread ⊢
  rw [readTerm, skipBlank_of_head hblank]
  simp [hne, hc, hread, hn]

/-! ### Lists and maps -/

theorem readTerm_list {cs : List Char} {ts : List Term} (hc : ∃ c xs, skipBlank cs = c :: xs ∧ c ≠ ']')
    (hs : readItems fuel (skipBlank cs) = (ts, .closed, rest)) :
    readTerm (fuel + 1) ('[' :: cs) = (.list ts .closed, rest) := by
  obtain ⟨c, xs, hxs, hne⟩ := hc
  rw [hxs] at hs
  rw [readTerm, skipBlank_of_head rfl]
  simp [hxs, hne, hs]

theorem readTerm_map {cs inner : List Char} {ts : List (Key × Term)} (hc : skipBlank cs = '"' :: inner)
    (hs : readEntries fuel inner = (ts, .closed, rest)) :
    readTerm (fuel + 1) ('\x7b' :: cs) = (.map ts .closed, rest) := by
  rw [readTerm, skipBlank_of_head rfl]
  simp [hc, hs]

theorem readItems_last {cs behind : List Char} {t : Term} (ht : readTerm fuel cs = (t, behind))
    (hw : t.isWhole = true) (hb : skipBlank behind = ']' :: rest) :
    readItems (fuel + 1) cs = ([t], .closed, rest) := by
  rw [readItems, ht]
  simp [hw, hb]

theorem readItems_more {cs behind next : List Char} {c : Char} {t : Term} {ts : List Term}
    (ht : readTerm fuel cs = (t, behind)) (hw : t.isWhole = true)
    (hb : skipBlank behind = ',' :: next) (hn : ∃ xs, skipBlank next = c :: xs) (hc : c ≠ ']')
    (hs : readItems fuel (skipBlank next) = (ts, .closed, rest)) :
    readItems (fuel + 1) cs = (t :: ts, .closed, rest) := by
  obtain ⟨xs, hxs⟩ := hn
  rw [hxs] at hs
  rw [readItems, ht]
  simp [hw, hb, hxs, hc, hs]

theorem readEntries_last {cs behind after : List Char} {key : Quotation} {t : Term}
    (hk : readLiteral (fuel + 1) cs = .closed key (':' :: after))
    (ht : readTerm fuel after = (t, behind)) (hw : t.isWhole = true)
    (hb : skipBlank behind = '\x7d' :: rest) :
    readEntries (fuel + 1) cs = ([(⟨key, none⟩, t)], .closed, rest) := by
  rw [readEntries, hk]
  simp [skipBlank_of_head, isBlank, ht, hw, hb]

theorem readEntries_more {cs behind after next inner : List Char} {key : Quotation} {t : Term}
    {ts : List (Key × Term)} (hk : readLiteral (fuel + 1) cs = .closed key (':' :: after))
    (ht : readTerm fuel after = (t, behind)) (hw : t.isWhole = true)
    (hb : skipBlank behind = ',' :: next) (hn : skipBlank next = '"' :: inner)
    (hs : readEntries fuel inner = (ts, .closed, rest)) :
    readEntries (fuel + 1) cs = ((⟨key, none⟩, t) :: ts, .closed, rest) := by
  rw [readEntries, hk]
  simp [skipBlank_of_head, isBlank, ht, hw, hb, hn, hs]

theorem endsNumber_of_head {c : Char} (h : c = ',' ∨ c = '\n') (cs : List Char) :
    EndsNumber (c :: cs) := by
  rintro d ⟨⟩
  rcases h with rfl | rfl <;> decide

theorem indented_list (level : Nat) (v : Value) (vs : List Value) :
    indented level (.list (v :: vs)) = '[' :: indentedItems level (v :: vs) := rfl

theorem indented_map (level : Nat) (e : String × Value) (es : List (String × Value)) :
    indented level (.map (e :: es)) = '\x7b' :: indentedEntries level (e :: es) := rfl

theorem indentedItems_append (level : Nat) (v : Value) (vs : List Value) (rest : List Char) :
    indentedItems level (v :: vs) ++ rest = newline (level + 1) ++
      (indented (level + 1) v ++ (commaUnless vs.isEmpty ++ (indentedItems level vs ++ rest))) := by
  simp only [indentedItems, List.append_assoc]

theorem indentedEntries_append (level : Nat) (k : String) (v : Value) (es : List (String × Value))
    (rest : List Char) :
    indentedEntries level ((k, v) :: es) ++ rest = newline (level + 1) ++
      ('"' :: (k.toList.flatMap escape ++ '"' :: ':' :: ' ' :: (indented (level + 1) v ++
        (commaUnless es.isEmpty ++ (indentedEntries level es ++ rest))))) := by
  simp only [indentedEntries, literal, List.append_assoc, List.cons_append, List.nil_append]

theorem readTerm_space (fuel : Nat) (cs : List Char) : readTerm fuel (' ' :: cs) = readTerm fuel cs := by
  cases fuel with
  | zero => rfl
  | succ fuel => rw [readTerm, readTerm]; rfl

theorem length_newline (level : Nat) : (newline level).length = 2 * level + 1 := by simp [newline]

/-- How the items of a list start behind the bracket. -/
theorem skipBlank_indentedItems (hv : v.IsExact) (level : Nat) (vs : List Value) (rest : List Char) :
    ∃ c cs, skipBlank (indentedItems level (v :: vs) ++ rest) = c :: cs ∧ c ≠ ']' := by
  obtain ⟨c, cs, hcs, hblank, hc⟩ := indented_cons hv (level + 1)
  rw [indentedItems_append, skipBlank_newline, hcs]
  exact ⟨c, _, skipBlank_of_head hblank, hc⟩

mutual

/-- **A value is read back from indented text**, and what follows is left over. -/
theorem readTerm_indented {fuel level : Nat} {rest : List Char} :
    (v : Value) → v.IsExact → EndsNumber rest → 2 * (indented level v ++ rest).length < fuel →
      readTerm fuel (indented level v ++ rest) = (.ofValue v, rest)
  | .null, _, _, hf => by
    obtain ⟨fuel, rfl⟩ := Nat.exists_eq_add_one.mpr (Nat.zero_lt_of_lt hf)
    rfl
  | .bool b, _, _, hf => by
    obtain ⟨fuel, rfl⟩ := Nat.exists_eq_add_one.mpr (Nat.zero_lt_of_lt hf)
    cases b <;> rfl
  | .number x, hx, hrest, hf => by
    obtain ⟨fuel, rfl⟩ := Nat.exists_eq_add_one.mpr (Nat.zero_lt_of_lt hf)
    exact readTerm_number hx hrest
  | .text s, _, _, hf => by
    obtain ⟨fuel, rfl⟩ := Nat.exists_eq_add_one.mpr (Nat.zero_lt_of_lt hf)
    have htext : indented level (.text s) ++ rest = '"' :: (s.toList.flatMap escape ++ '"' :: rest) := by
      simp [indented, literal]
    rw [htext] at hf ⊢
    have hread : readLiteral (fuel + 1) (s.toList.flatMap escape ++ '"' :: rest) = .closed (.ok s) rest := by
      apply readLiteral_escaped
      rw [List.length_cons] at hf
      omega
    rw [readTerm, skipBlank_of_head rfl]
    simp only [hread]
    rfl
  | .list [], _, _, hf => by
    obtain ⟨fuel, rfl⟩ := Nat.exists_eq_add_one.mpr (Nat.zero_lt_of_lt hf)
    rfl
  | .list (v :: vs), ⟨hv, hvs⟩, _, hf => by
    obtain ⟨fuel, rfl⟩ := Nat.exists_eq_add_one.mpr (Nat.zero_lt_of_lt hf)
    rw [indented_list, List.cons_append] at hf ⊢
    have hroom : 2 * (indentedItems level (v :: vs) ++ rest).length < fuel := by
      rw [List.length_cons] at hf
      omega
    exact readTerm_list (skipBlank_indentedItems hv level vs rest) (readItems_indented v vs hv hvs hroom)
  | .map [], _, _, hf => by
    obtain ⟨fuel, rfl⟩ := Nat.exists_eq_add_one.mpr (Nat.zero_lt_of_lt hf)
    rfl
  | .map ((k, v) :: es), ⟨hv, hes⟩, _, hf => by
    obtain ⟨fuel, rfl⟩ := Nat.exists_eq_add_one.mpr (Nat.zero_lt_of_lt hf)
    rw [indented_map, List.cons_append] at hf ⊢
    have hroom : 2 * (indentedEntries level ((k, v) :: es) ++ rest).length < fuel := by
      rw [List.length_cons] at hf
      omega
    obtain ⟨inner, hinner, hread⟩ := readEntries_indented k v es hv hes hroom
    exact readTerm_map hinner hread

/-- Items are read back from behind the bracket and the white space. -/
theorem readItems_indented {fuel level : Nat} {rest : List Char} :
    (v : Value) → (vs : List Value) → v.IsExact → exactItems vs →
      2 * (indentedItems level (v :: vs) ++ rest).length < fuel →
      readItems fuel (skipBlank (indentedItems level (v :: vs) ++ rest))
        = (.ofValue v :: ofValueList vs, .closed, rest)
  | v, vs, hv, hvs, hf => by
    obtain ⟨fuel, rfl⟩ := Nat.exists_eq_add_one.mpr (Nat.zero_lt_of_lt hf)
    obtain ⟨c, cs, hcs, hblank, -⟩ := indented_cons hv (level + 1)
    have hskip (xs : List Char) : skipBlank (indented (level + 1) v ++ xs) = indented (level + 1) v ++ xs := by
      rw [hcs]
      exact skipBlank_of_head hblank
    rw [indentedItems_append] at hf ⊢
    rw [skipBlank_newline, hskip]
    rw [List.length_append, length_newline] at hf
    match vs, hvs with
    | [], _ =>
      refine readItems_last (readTerm_indented v hv (endsNumber_of_head (Or.inr rfl) _) (by omega))
        (Term.isWhole_ofValue v) ?_
      rw [indentedItems, List.append_assoc]
      exact skipBlank_newline level _
    | w :: ws, ⟨hw, hws⟩ =>
      obtain ⟨d, ds, hds, hd⟩ := skipBlank_indentedItems hw level ws rest
      refine readItems_more (readTerm_indented v hv (endsNumber_of_head (Or.inl rfl) _) (by omega))
        (Term.isWhole_ofValue v) rfl ⟨ds, hds⟩ hd (readItems_indented w ws hw hws ?_)
      simp only [List.length_append] at hf ⊢
      omega

/-- Entries are read back from behind the brace, the white space and a quote. -/
theorem readEntries_indented {fuel level : Nat} {rest : List Char} :
    (k : String) → (v : Value) → (es : List (String × Value)) → v.IsExact → exactEntries es →
      2 * (indentedEntries level ((k, v) :: es) ++ rest).length < fuel →
      ∃ inner, skipBlank (indentedEntries level ((k, v) :: es) ++ rest) = '"' :: inner ∧
        readEntries fuel inner = ((⟨.ok k, none⟩, .ofValue v) :: ofValueEntries es, .closed, rest)
  | k, v, es, hv, hes, hf => by
    obtain ⟨fuel, rfl⟩ := Nat.exists_eq_add_one.mpr (Nat.zero_lt_of_lt hf)
    rw [indentedEntries_append] at hf ⊢
    rw [skipBlank_newline, skipBlank_of_head rfl]
    refine ⟨_, rfl, ?_⟩
    have hvalue : 2 * (indented (level + 1) v ++
        (commaUnless es.isEmpty ++ (indentedEntries level es ++ rest))).length < fuel := by
      simp only [List.length_append, List.length_cons] at hf ⊢
      omega
    have hkey : readLiteral (fuel + 1) (k.toList.flatMap escape ++ '"' :: ':' :: ' ' ::
        (indented (level + 1) v ++ (commaUnless es.isEmpty ++ (indentedEntries level es ++ rest))))
          = .closed (.ok k) (':' :: ' ' :: (indented (level + 1) v ++
            (commaUnless es.isEmpty ++ (indentedEntries level es ++ rest)))) := by
      apply readLiteral_escaped
      simp only [List.length_append, List.length_cons] at hf ⊢
      omega
    match es, hes with
    | [], _ =>
      refine readEntries_last hkey ((readTerm_space _ _).trans
        (readTerm_indented v hv (endsNumber_of_head (Or.inr rfl) _) hvalue)) (Term.isWhole_ofValue v) ?_
      rw [indentedEntries, List.append_assoc]
      exact skipBlank_newline level _
    | (j, w) :: ws, ⟨hw, hws⟩ =>
      have hnext : 2 * (indentedEntries level ((j, w) :: ws) ++ rest).length < fuel := by
        simp only [List.length_append] at hvalue ⊢
        omega
      obtain ⟨inner, hinner, hread⟩ := readEntries_indented j w ws hw hws hnext
      exact readEntries_more hkey ((readTerm_space _ _).trans
        (readTerm_indented v hv (endsNumber_of_head (Or.inl rfl) _) hvalue)) (Term.isWhole_ofValue v)
        rfl hinner hread

end

/-! ## Documents -/

/-- **The document of the text of a value says that value**, and nothing follows. -/
theorem Document.ofText_indentedText (hv : v.IsExact) :
    Document.ofText (indentedText v).toList = ⟨.ofValue v, false⟩ := by
  have hread : readTerm (2 * (indented 0 v).length + 2) (indented 0 v ++ []) = (.ofValue v, []) :=
    readTerm_indented v hv (fun _ hc => absurd hc (by simp)) (by simp)
  rw [List.append_nil] at hread
  rw [indentedText, String.toList_ofList, Document.ofText, hread]
  rfl

end Json

end StageFlow
