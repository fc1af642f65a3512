import Mathlib.Data.List.TakeWhile
import StageFlow.Proofs.Json
import StageFlow.Proofs.Yaml.Cursor
import StageFlow.Yaml.Block
import StageFlow.Yaml.Printer
import StageFlow.Yaml.Quoted

/-!
# Reading back scalars on one line

Plain scalars are read up to where they end, and texts between double quotes are read back whatever they hold.

## Contents
- **Plain.** `PlainChars` and `readPlain_text`.
- **Quoted.** `readDouble_escaped`, for every text.
-/

namespace StageFlow.Yaml

variable {c : Cursor} {cs tail soFar : List Char} {fuel : Nat} {indent : Int}

/-! ## Plain -/

/-- A run of characters that a plain scalar can hold, without a blank at its end. -/
structure PlainChars (cs : List Char) : Prop where
  chars : ∀ x ∈ cs, x ≠ ':' ∧ x ≠ '#' ∧ isBreak x = false
  last : ∀ x ∈ cs.getLast?, isBlank x = false

theorem PlainChars.of_append {bs : List Char} (h : PlainChars (bs ++ cs)) : PlainChars cs where
  chars x hx := h.chars x (List.mem_append_right bs hx)
  last x hx := h.last x (by rw [List.getLast?_append, hx]; rfl)

/-- Blanks inside are followed by something else. -/
theorem PlainChars.exists_behind_blanks {x : Char} (h : PlainChars (x :: cs)) (hx : isBlank x = true) :
    ∃ bs y ys, cs = bs ++ y :: ys ∧ (∀ z ∈ bs, isBlank z = true) ∧ isBlank y = false := by
  have hsplit : cs.takeWhile isBlank ++ cs.dropWhile isBlank = cs := List.takeWhile_append_dropWhile
  have hblanks : ∀ z ∈ cs.takeWhile isBlank, isBlank z = true := fun z hz => List.mem_takeWhile_imp hz
  cases hrest : cs.dropWhile isBlank with
  | nil =>
    rw [hrest, List.append_nil] at hsplit
    have hlast := h.last _ (List.getLast?_eq_some_getLast (List.cons_ne_nil x cs))
    have hall : ∀ z ∈ x :: cs, isBlank z = true := List.forall_mem_cons.mpr ⟨hx, by rwa [hsplit] at hblanks⟩
    rw [hall _ (List.getLast_mem _)] at hlast
    exact absurd hlast (by decide)
  | cons y ys =>
    refine ⟨cs.takeWhile isBlank, y, ys, by rw [← hrest, hsplit], hblanks, ?_⟩
    have hhead := List.head?_dropWhile_not isBlank cs
    rw [hrest] at hhead
    simpa using hhead

/-- What ends a plain scalar: the end of its line, if the next is not indented more, or a colon and white space. -/
inductive EndsPlain (indent : Int) (tail : List Char) : Prop
  | below {column : Nat} (h : Below column tail) (hle : (column : Int) ≤ indent)
  | colon {x : Char} {cs : List Char} (h : tail = ':' :: x :: cs) (hx : isBlank x = true ∨ isBreak x = true)

theorem readPlain_stop (htail : EndsPlain indent tail) (hc : c.rest = tail) :
    readPlain false indent (fuel + 2) soFar c = (soFar.reverse, c) := by
  cases htail with
  | below h hle =>
    cases h with
    | nil => rw [readPlain, hc]
    | line hk hx =>
      obtain ⟨behind, hbreaks⟩ := skipBreaks_line fuel hc hx
      rw [readPlain, hc]
      simp only [hbreaks]
      rw [if_neg (by decide), if_pos (by decide), if_pos]
      simp only [Bool.or_eq_true, decide_eq_true_eq]
      exact Or.inl (Or.inl (by omega))
  | colon h hx =>
    have hends : endsPlain false false tail = true := by
      rw [h]
      simpa [endsPlain] using hx
    rw [readPlain, hc, hends, h]
    rfl

theorem readPlain_char {x : Char} (hx : isBlank x = false ∧ isBreak x = false ∧ x ≠ ':')
    (hc : c.rest = x :: tail) :
    readPlain false indent (fuel + 1) soFar c = readPlain false indent fuel (x :: soFar) c.next := by
  have hends : endsPlain false false (x :: tail) = false := by
    simp [endsPlain, hx.2.2]
  rw [readPlain, hc]
  simp [hx.1, hx.2.1, hends]

theorem readPlain_blanks {bs : List Char} {x y : Char} (hx : isBlank x = true)
    (hbs : ∀ z ∈ bs, isBlank z = true) (hy : isBlank y = false ∧ isBreak y = false ∧ y ≠ ':' ∧ y ≠ '#')
    (hc : c.rest = x :: (bs ++ y :: tail)) :
    readPlain false indent (fuel + 1) soFar c
      = readPlain false indent fuel ((x :: bs).reverse ++ soFar) c.skipBlanks := by
  have hrun : c.rest.takeWhile isBlank = x :: bs := by
    rw [hc, ← List.cons_append]
    exact Cursor.takeWhile_run (List.forall_mem_cons.mpr ⟨hx, hbs⟩) (by rintro _ ⟨⟩; exact hy.1)
  have hbehind : c.Behind (x :: bs) (y :: tail) c.skipBlanks :=
    Cursor.skipBlanks_behind hc (List.forall_mem_cons.mpr ⟨hx, hbs⟩) (by rintro _ ⟨⟩; exact hy.1)
  have hends : endsPlain false true (y :: tail) = false := by
    simp [endsPlain, hy.2.2]
  have hbreak : c.skipBlanks.atBreak = false := by
    rw [Cursor.atBreak, hbehind.rest]
    exact hy.2.1
  rw [readPlain, hrun, hc]
  simp [hx, hbreak, hbehind.rest, hends]

/-- **A plain scalar is read up to its end.** -/
theorem readPlain_text (htail : EndsPlain indent tail) :
    (fuel : Nat) → (cs soFar : List Char) → (c : Cursor) → PlainChars cs → c.rest = cs ++ tail →
      cs.length + 2 ≤ fuel →
      ∃ d, readPlain false indent fuel soFar c = (soFar.reverse ++ cs, d) ∧ c.Behind cs tail d
  | fuel, [], soFar, c, _, hc, hf => by
    obtain ⟨fuel, rfl⟩ := Nat.exists_eq_add_of_le' hf
    exact ⟨c, (readPlain_stop htail hc).trans (by rw [List.append_nil]), .refl hc⟩
  | fuel + 1, x :: cs, soFar, c, hcs, hc, hf => by
    obtain ⟨hcolon, hhash, hbreak⟩ := hcs.chars x List.mem_cons_self
    rw [List.length_cons] at hf
    cases hblank : isBlank x with
    | false =>
      have hnext : c.Behind [x] (cs ++ tail) c.next :=
        Cursor.next_behind hc (by rintro rfl; exact absurd hbreak (by decide))
      have hrest : PlainChars ([x] ++ cs) := hcs
      obtain ⟨d, hd, hbehind⟩ :=
        readPlain_text htail fuel cs (x :: soFar) c.next hrest.of_append hnext.rest (by omega)
      refine ⟨d, ?_, hnext.trans hbehind⟩
      rw [readPlain_char ⟨hblank, hbreak, hcolon⟩ hc, hd]
      simp
    | true =>
      -- The blanks in a row are taken at once; the last character is none of them.
      obtain ⟨bs, y, ys, rfl, hbs, hy⟩ := hcs.exists_behind_blanks hblank
      obtain ⟨hcolon', hhash', hbreak'⟩ := hcs.chars y (by simp)
      rw [List.cons_append, List.append_assoc, List.cons_append] at hc
      have hblanks : c.Behind (x :: bs) ((y :: ys) ++ tail) c.skipBlanks :=
        Cursor.skipBlanks_behind hc (List.forall_mem_cons.mpr ⟨hblank, hbs⟩) (by rintro _ ⟨⟩; exact hy)
      have hrest : PlainChars ((x :: bs) ++ (y :: ys)) := hcs
      rw [List.length_append, List.length_cons] at hf
      obtain ⟨d, hd, hbehind⟩ := readPlain_text htail fuel (y :: ys) ((x :: bs).reverse ++ soFar) c.skipBlanks
        hrest.of_append hblanks.rest (by rw [List.length_cons]; omega)
      refine ⟨d, ?_, hblanks.trans hbehind⟩
      rw [readPlain_blanks hblank hbs ⟨hy, hbreak', hcolon', hhash'⟩ hc, hd]
      simp

/-! ## Quoted -/

open Text

/-- A control character by its code. -/
theorem readCode_hex {x : Char} (hx : x.toNat < 32) (tail : List Char) :
    readCode 2 ((hex 2 x.toNat).map Char.toUpper ++ tail) = some (x, 2) := by
  have hlen : ((hex 2 x.toNat).map Char.toUpper).length = 2 := by simp [hex]
  have hnumeral : ∀ n < 32, ofNumeral? 16 ((hex 2 n).map Char.toUpper) = some n := by decide
  have hcode : codePoint? 2 ((hex 2 x.toNat).map Char.toUpper ++ tail) = some x.toNat := by
    rw [codePoint?, List.take_left' hlen, if_pos hlen, hnumeral _ hx]
  have hvalid : x.toNat.isValidChar := Or.inl (Nat.lt_trans hx (by decide))
  simp [readCode, hcode, hvalid]

/-- An escape is a letter for the character, or gives its code. -/
theorem escape_cases {x : Char} (hx : x = '"' ∨ x = '\\' ∨ x.toNat < 32) :
    (∃ e, escape x = ['\\', e] ∧ isBreak e = false ∧ codeWidth? e = none ∧ simpleEscape? e = some x)
      ∨ x.toNat < 32 ∧ escape x = '\\' :: 'x' :: (hex 2 x.toNat).map Char.toUpper := by
  by_cases hsimple : x = '"' ∨ x = '\\' ∨ x = '\n' ∨ x = '\r' ∨ x = '\t' ∨ x = '\x00'
  · refine Or.inl ?_
    rcases hsimple with rfl | rfl | rfl | rfl | rfl | rfl <;> exact ⟨_, rfl, rfl, rfl, rfl⟩
  · simp only [not_or] at hsimple
    obtain ⟨hquote, hslash, hn, hr, ht, hzero⟩ := hsimple
    have hlow : x.toNat < 32 := by simpa [hquote, hslash] using hx
    refine Or.inr ⟨hlow, ?_⟩
    simp [escape, hquote, hslash, hn, hr, ht, hzero, hlow]

/-- An escape is read as its character. -/
theorem readDouble_escape {x : Char} (hx : x = '"' ∨ x = '\\' ∨ x.toNat < 32)
    (hc : c.rest = escape x ++ tail) :
    readDouble indent (fuel + 1) soFar c
      = readDouble indent fuel (x :: soFar) (c.skip (escape x).length) := by
  rcases escape_cases hx with ⟨e, he, hbreak, hwidth, hsimple⟩ | ⟨hlow, he⟩
  · rw [he] at hc ⊢
    rw [readDouble, hc]
    simp [hbreak, hwidth, hsimple]
  · have hlen : ((hex 2 x.toNat).map Char.toUpper).length = 2 := by simp [hex]
    rw [he] at hc ⊢
    rw [readDouble, hc]
    simp [isBreak, codeWidth?, readCode_hex hlow, hlen]

theorem readDouble_char {x : Char} (hx : isBlank x = false ∧ isBreak x = false ∧ x ≠ '"' ∧ x ≠ '\\')
    (hc : c.rest = x :: tail) :
    readDouble indent (fuel + 1) soFar c = readDouble indent fuel (x :: soFar) c.next := by
  rw [readDouble, hc]
  simp [hx]

theorem readDouble_blanks {bs : List Char} {x : Char} (hx : isBlank x = true)
    (hbs : ∀ z ∈ bs, isBlank z = true) (htail : ∀ y ∈ tail.head?, isBlank y = false ∧ isBreak y = false)
    (hc : c.rest = x :: (bs ++ tail)) :
    readDouble indent (fuel + 1) soFar c
      = readDouble indent fuel ((x :: bs).reverse ++ soFar) c.skipBlanks := by
  have hall : ∀ z ∈ x :: bs, isBlank z = true := List.forall_mem_cons.mpr ⟨hx, hbs⟩
  have hrun : c.rest.takeWhile isBlank = x :: bs := by
    rw [hc, ← List.cons_append]
    exact Cursor.takeWhile_run hall fun y hy => (htail y hy).1
  obtain ⟨column, hbreaks⟩ := skipBreaks_blanks fuel hc hall htail
  have hne : x ≠ '"' ∧ x ≠ '\\' := by
    constructor <;> (rintro rfl; exact absurd hx (by decide))
  rw [readDouble, hrun, hbreaks, hc]
  simp [hx, hne]

theorem escape_plain {x : Char} (hx : x ≠ '"' ∧ x ≠ '\\' ∧ ¬ x.toNat < 32) : escape x = [x] := by
  obtain ⟨hquote, hslash, hlow⟩ := hx
  have hcontrol : x ≠ '\n' ∧ x ≠ '\r' ∧ x ≠ '\t' ∧ x ≠ '\x00' := by
    refine ⟨?_, ?_, ?_, ?_⟩ <;> (rintro rfl; exact absurd (by decide) hlow)
  simp [escape, hquote, hslash, hlow, hcontrol]

/-- An escape stands on one line. -/
theorem isBreak_of_mem_escape {x y : Char} (hy : y ∈ escape x) : isBreak y = false := by
  by_cases hx : x = '"' ∨ x = '\\' ∨ x.toNat < 32
  · have hhex : ∀ n < 32, ('\\' :: 'x' :: (hex 2 n).map Char.toUpper).all (fun y => !isBreak y) = true := by decide
    rcases escape_cases hx with ⟨e, he, hbreak, -, -⟩ | ⟨hlow, he⟩
    · rw [he, List.mem_cons, List.mem_singleton] at hy
      rcases hy with rfl | rfl
      · rfl
      · exact hbreak
    · rw [he] at hy
      simpa using List.all_eq_true.mp (hhex _ hlow) y hy
  · simp only [not_or] at hx
    rw [escape_plain hx, List.mem_singleton] at hy
    subst hy
    have hcontrol : y ≠ '\n' ∧ y ≠ '\r' := by
      constructor <;> (rintro rfl; exact hx.2.2 (by decide))
    simp [isBreak, hcontrol]

theorem escape_ne_nil (x : Char) : escape x ≠ [] := by
  unfold escape
  repeat' split
  all_goals exact List.cons_ne_nil _ _

theorem length_le_flatMap_escape (cs : List Char) : cs.length ≤ (cs.flatMap escape).length := by
  induction cs with
  | nil => exact Nat.le_refl 0
  | cons x cs ih =>
    have := List.length_pos_iff.mpr (escape_ne_nil x)
    rw [List.flatMap_cons, List.length_append, List.length_cons]
    omega

/-- Of what stands between quotes only spaces are white space. -/
theorem escape_head {x : Char} (hx : x ≠ ' ') :
    ∀ y ∈ (escape x).head?, isBlank y = false ∧ isBreak y = false := by
  by_cases hesc : x = '"' ∨ x = '\\' ∨ x.toNat < 32
  · rcases escape_cases hesc with ⟨e, he, -⟩ | ⟨-, he⟩ <;> (rw [he]; rintro _ ⟨⟩; decide)
  · simp only [not_or] at hesc
    rw [escape_plain hesc]
    rintro _ ⟨⟩
    have hcontrol : x ≠ '\t' ∧ x ≠ '\n' ∧ x ≠ '\r' := by
      refine ⟨?_, ?_, ?_⟩ <;> (rintro rfl; exact absurd (by decide) hesc.2.2)
    simp [isBlank, isBreak, hx, hcontrol]

/-- The spaces at the front of a text, and what the quoted text goes on with behind them. -/
theorem exists_behind_spaces (cs tail : List Char) : ∃ bs ys, cs = bs ++ ys ∧ (∀ z ∈ bs, z = ' ') ∧
    bs.flatMap escape = bs ∧
    ∀ y ∈ (ys.flatMap escape ++ '"' :: tail).head?, isBlank y = false ∧ isBreak y = false := by
  have hspaces : ∀ z ∈ cs.takeWhile (· = ' '), z = ' ' := fun z hz => by simpa using List.mem_takeWhile_imp hz
  refine ⟨_, _, List.takeWhile_append_dropWhile.symm, hspaces, ?_, ?_⟩
  · rw [List.eq_replicate_of_mem hspaces]
    induction (cs.takeWhile (· = ' ')).length with
    | zero => rfl
    | succ n ih => rw [List.replicate_succ, List.flatMap_cons, ih]; rfl
  · have hends := List.head?_dropWhile_not (· = ' ') cs
    cases hrest : cs.dropWhile (· = ' ') with
    | nil => rintro _ ⟨⟩; decide
    | cons y ys =>
      rw [hrest] at hends
      have hhead := escape_head (by simpa using hends : y ≠ ' ')
      rw [List.flatMap_cons, List.append_assoc]
      cases hesc : escape y with
      | nil => exact absurd hesc (escape_ne_nil y)
      | cons z zs =>
        rw [hesc] at hhead
        exact hhead

/-- **A text between double quotes is read back**, whatever characters it has. -/
theorem readDouble_escaped (indent : Int) :
    (fuel : Nat) → (cs soFar : List Char) → (c : Cursor) → c.rest = cs.flatMap escape ++ '"' :: tail →
      cs.length < fuel →
      ∃ d, readDouble indent fuel soFar c = some (soFar.reverse ++ cs, d) ∧ d.rest = tail
  | fuel + 1, [], soFar, c, hc, _ => by
    refine ⟨c.next, ?_, (Cursor.next_behind hc (by decide)).rest⟩
    rw [List.flatMap_nil, List.nil_append] at hc
    rw [readDouble, hc]
    simp
  | fuel + 1, x :: cs, soFar, c, hc, hf => by
    rw [List.length_cons] at hf
    rw [List.flatMap_cons, List.append_assoc] at hc
    by_cases hesc : x = '"' ∨ x = '\\' ∨ x.toNat < 32
    · have hbehind := Cursor.skip_behind hc fun hn => absurd (isBreak_of_mem_escape hn) (by decide)
      obtain ⟨d, hd, hrest⟩ := readDouble_escaped indent fuel cs (x :: soFar) _ hbehind.rest (by omega)
      refine ⟨d, ?_, hrest⟩
      rw [readDouble_escape hesc hc, hd]
      simp
    simp only [not_or] at hesc
    rw [escape_plain hesc, List.singleton_append] at hc
    by_cases hspace : x = ' '
    · -- The spaces in a row are taken at once.
      subst hspace
      obtain ⟨bs, ys, rfl, hspaces, hbs, hhead⟩ := exists_behind_spaces cs tail
      rw [List.flatMap_append, hbs, List.append_assoc] at hc
      have hblanks : ∀ z ∈ bs, isBlank z = true := fun z hz => by rw [hspaces z hz]; rfl
      have hbehind : c.Behind (' ' :: bs) (ys.flatMap escape ++ '"' :: tail) c.skipBlanks :=
        Cursor.skipBlanks_behind hc (List.forall_mem_cons.mpr ⟨rfl, hblanks⟩) fun y hy => (hhead y hy).1
      rw [List.length_append] at hf
      obtain ⟨d, hd, hrest⟩ :=
        readDouble_escaped indent fuel ys ((' ' :: bs).reverse ++ soFar) _ hbehind.rest (by omega)
      refine ⟨d, ?_, hrest⟩
      rw [readDouble_blanks rfl hblanks hhead hc, hd]
      simp
    · have hplain : isBlank x = false ∧ isBreak x = false := by
        have := escape_head hspace
        rw [escape_plain hesc] at this
        exact this x rfl
      have hnext := Cursor.next_behind hc (by rintro rfl; exact hesc.2.2 (by decide))
      obtain ⟨d, hd, hrest⟩ := readDouble_escaped indent fuel cs (x :: soFar) _ hnext.rest (by omega)
      refine ⟨d, ?_, hrest⟩
      rw [readDouble_char ⟨hplain.1, hplain.2, hesc.1, hesc.2.1⟩ hc, hd]
      simp

end StageFlow.Yaml
