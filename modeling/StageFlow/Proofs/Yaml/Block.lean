import StageFlow.Proofs.Yaml.Scalar

/-!
# Literal blocks

A text with line breaks is written as a literal block, its pieces on lines of their own. The reader keeps the lines
that hold something and counts the blank ones between them.

## Contents
- **Pieces.** `joined`, the text of some pieces, and `joined_pieces`.
- **Texts.** `KeptBlock`, the texts that a literal block can hold, and their lines, `KeptBlock.lines_eq`.
- **Blank lines.** `skipBlankLines`, over pieces that are empty.
- **Lines.** `readLines_pieces`.
- **Blocks.** `readBlock_literal`.
-/

namespace StageFlow.Yaml

/-! ## Pieces -/

/-- The text of some pieces, with line feeds between them. -/
def joined : List (List Char) → List Char
  | [] => []
  | l :: ls => l ++ ls.flatMap ('\n' :: ·)

theorem joined_blanks (n : Nat) (l : List Char) (ls : List (List Char)) :
    joined (List.replicate n [] ++ l :: ls) = List.replicate n '\n' ++ joined (l :: ls) := by
  cases n with
  | zero => rfl
  | succ n =>
    rw [List.replicate_succ, List.cons_append, joined, List.nil_append, List.flatMap_append]
    have hblanks : (List.replicate n ([] : List Char)).flatMap ('\n' :: ·) = List.replicate n '\n' := by
      induction n with
      | zero => rfl
      | succ n ih => rw [List.replicate_succ, List.flatMap_cons, ih]; rfl
    rw [hblanks, List.flatMap_cons, List.replicate_succ', List.append_assoc]
    rfl

theorem exists_pieces (cs : List Char) : ∃ l ls, pieces cs = l :: ls := by
  cases cs with
  | nil => exact ⟨[], [], rfl⟩
  | cons x cs =>
    rw [pieces]
    split
    · exact ⟨_, _, rfl⟩
    · split <;> exact ⟨_, _, rfl⟩

/-- A text is its pieces with line feeds between them. -/
theorem joined_pieces (cs : List Char) : joined (pieces cs) = cs := by
  induction cs with
  | nil => rfl
  | cons x cs ih =>
    obtain ⟨l, ls, hpieces⟩ := exists_pieces cs
    rw [hpieces] at ih
    rw [pieces, hpieces]
    split
    · rename_i hx
      rw [joined, List.nil_append, List.flatMap_cons, List.cons_append, hx]
      exact congrArg _ ih
    · exact congrArg _ ih

theorem mem_pieces {cs l : List Char} (hl : l ∈ pieces cs) {x : Char} (hx : x ∈ l) : x ∈ cs ∧ x ≠ '\n' := by
  induction cs generalizing l with
  | nil =>
    rw [List.mem_singleton.mp hl] at hx
    exact absurd hx List.not_mem_nil
  | cons y cs ih =>
    obtain ⟨m, ms, hpieces⟩ := exists_pieces cs
    rw [pieces, hpieces] at hl
    rw [hpieces] at ih
    split at hl
    · rcases List.mem_cons.mp hl with rfl | hl
      · exact absurd hx List.not_mem_nil
      · exact ⟨List.mem_cons_of_mem y (ih hl hx).1, (ih hl hx).2⟩
    · rename_i hy
      rcases List.mem_cons.mp hl with rfl | hl
      · rcases List.mem_cons.mp hx with rfl | hx
        · exact ⟨List.mem_cons_self, hy⟩
        · exact ⟨List.mem_cons_of_mem y (ih List.mem_cons_self hx).1, (ih List.mem_cons_self hx).2⟩
      · have hmem := ih (List.mem_cons_of_mem m hl) hx
        exact ⟨List.mem_cons_of_mem y hmem.1, hmem.2⟩

theorem pieces_append_lineFeed (cs : List Char) : pieces (cs ++ ['\n']) = pieces cs ++ [[]] := by
  induction cs with
  | nil => rfl
  | cons x cs ih =>
    obtain ⟨l, ls, hpieces⟩ := exists_pieces cs
    rw [List.cons_append, pieces, pieces, ih, hpieces]
    split <;> rfl

/-- The last piece is empty only behind a line feed. -/
theorem pieces_getLast {cs : List Char} (hcs : cs ≠ []) (h : cs.getLast? ≠ some '\n') :
    ∀ l ∈ (pieces cs).getLast?, l ≠ [] := by
  rintro _ hlast rfl
  obtain ⟨ls, hls⟩ := List.getLast?_eq_some_iff.mp hlast
  have hjoin := joined_pieces cs
  rw [hls] at hjoin
  cases ls with
  | nil => exact hcs hjoin.symm
  | cons m ms =>
    rw [List.cons_append, joined, List.flatMap_append, ← List.append_assoc] at hjoin
    exact h (by rw [← hjoin]; simp)

/-- The empty pieces at the front. -/
theorem exists_behind_blanks (ls : List (List Char)) :
    ∃ n ms, ls = List.replicate n [] ++ ms ∧ ∀ m ∈ ms.head?, m ≠ [] := by
  induction ls with
  | nil => exact ⟨0, [], rfl, nofun⟩
  | cons l ls ih =>
    cases l with
    | nil =>
      obtain ⟨n, ms, hls, hms⟩ := ih
      exact ⟨n + 1, ms, by rw [hls]; rfl, hms⟩
    | cons x l => exact ⟨0, (x :: l) :: ls, rfl, by rintro _ ⟨⟩; exact List.cons_ne_nil x l⟩

theorem chomp_eq {l : List Char} (h : '\r' ∉ l) : chomp l = l := by
  rw [chomp, if_neg]
  intro hlast
  exact h (List.mem_of_getLast? hlast)

/-! ## Texts -/

/-- The texts that a literal block can hold: without carriage returns, with at most one line feed at the end, and
with something other than a space first behind the leading line feeds. -/
structure KeptBlock (cs : List Char) : Prop where
  noReturn : '\r' ∉ cs
  final : finalBreaks cs ≤ 1
  first : ∃ x ∈ (cs.dropWhile (· = '\n')).head?, x ≠ ' '

/-- What the lines of a text are that a literal block can hold. -/
structure BlockLines (cs : List Char) (n : Nat) (l : List Char) (ls : List (List Char)) : Prop where
  lines : lines cs = List.replicate n [] ++ l :: ls
  text : cs = List.replicate n '\n' ++ joined (l :: ls) ++ List.replicate (finalBreaks cs) '\n'
  first : ∃ x xs, l = x :: xs ∧ x ≠ ' '
  noBreak : ∀ m ∈ l :: ls, ∀ x ∈ m, isBreak x = false
  last : ∀ m ∈ (l :: ls).getLast?, m ≠ []

/-- A text without the line feeds at its end. -/
theorem exists_finalBreaks (cs : List Char) :
    ∃ t, cs = t ++ List.replicate (finalBreaks cs) '\n' ∧ t.getLast? ≠ some '\n' := by
  have hsplit : cs.reverse.takeWhile (· = '\n') ++ cs.reverse.dropWhile (· = '\n') = cs.reverse :=
    List.takeWhile_append_dropWhile
  have hbreaks : ∀ z ∈ cs.reverse.takeWhile (· = '\n'), z = '\n' := fun z hz => by
    simpa using List.mem_takeWhile_imp hz
  have hends := List.head?_dropWhile_not (· = '\n') cs.reverse
  refine ⟨(cs.reverse.dropWhile (· = '\n')).reverse, ?_, fun hlast => ?_⟩
  · have hreverse := congrArg List.reverse hsplit
    rw [List.reverse_append, List.reverse_reverse, List.eq_replicate_of_mem hbreaks,
      List.reverse_replicate] at hreverse
    exact hreverse.symm
  · rw [List.getLast?_reverse] at hlast
    rw [hlast] at hends
    exact absurd hends (by decide)

theorem lines_pieces {t : List Char} {b : Nat} (hb : b ≤ 1) (hr : '\r' ∉ t)
    (hlast : ∀ l ∈ (pieces t).getLast?, l ≠ []) : lines (t ++ List.replicate b '\n') = pieces t := by
  have hchomp (ls : List (List Char)) (hls : ls ⊆ pieces t) : ls.map chomp = ls :=
    (List.map_congr_left fun l hl => chomp_eq fun hmem => hr (mem_pieces (hls hl) hmem).1).trans (List.map_id _)
  obtain rfl | rfl : b = 0 ∨ b = 1 := by omega
  · obtain ⟨ms, m, hms⟩ : ∃ ms m, pieces t = ms ++ [m] := by
      obtain ⟨l, ls, h⟩ := exists_pieces t
      exact ⟨_, _, (List.dropLast_concat_getLast (by rw [h]; exact List.cons_ne_nil l ls)).symm⟩
    have hkeep : m ≠ [] := hlast m (by rw [hms]; simp)
    have hchomp' := hchomp ms (by rw [hms]; exact List.subset_append_left ms [m])
    rw [List.replicate_zero, List.append_nil, lines, hms]
    simp [hchomp', hkeep]
  · rw [List.replicate_one, lines, pieces_append_lineFeed]
    simp [hchomp _ (List.Subset.refl _)]

/-- **A text that a literal block can hold is its lines**, apart from the line feed at its end. -/
theorem KeptBlock.lines_eq {cs : List Char} (h : KeptBlock cs) : ∃ n l ls, BlockLines cs n l ls := by
  obtain ⟨hr, hfinal, x, hx, hspace⟩ := h
  obtain ⟨t, ht, hlast⟩ := exists_finalBreaks cs
  have hmem : ∀ y ∈ t, y ∈ cs := fun y hy => by rw [ht]; exact List.mem_append_left _ hy
  have hne : t ≠ [] := by
    rintro rfl
    rw [ht] at hx
    simp at hx
  have hpiece := pieces_getLast hne hlast
  obtain ⟨n, ms, hms, hhead⟩ := exists_behind_blanks (pieces t)
  cases ms with
  | nil =>
    obtain ⟨l, ls, hl⟩ := exists_pieces t
    rw [List.append_nil] at hms
    rw [hms] at hpiece hl
    have hlast' := List.getLast?_eq_some_getLast
      (by rw [hl]; exact List.cons_ne_nil l ls : List.replicate n ([] : List Char) ≠ [])
    exact absurd (List.eq_of_mem_replicate (List.getLast_mem _)) (hpiece _ hlast')
  | cons l ls =>
    refine ⟨n, l, ls, ?_, ?_, ?_, ?_, ?_⟩
    · rw [← hms, ← lines_pieces hfinal (fun hmem' => hr (hmem _ hmem')) hpiece, ← ht]
    · rw [← joined_blanks, ← hms, joined_pieces, ← ht]
    · obtain ⟨y, ys, rfl⟩ := List.exists_cons_of_ne_nil (hhead l rfl)
      have hpiece' : y :: ys ∈ pieces t := by
        rw [hms]
        exact List.mem_append_right _ List.mem_cons_self
      have hy := (mem_pieces hpiece' List.mem_cons_self).2
      refine ⟨y, ys, rfl, ?_⟩
      rw [ht, ← joined_pieces t, hms, joined_blanks, List.append_assoc, List.dropWhile_append_of_pos
        (fun z hz => by simp [List.eq_of_mem_replicate hz])] at hx
      simp [joined, hy] at hx
      rwa [hx]
    · intro m hm y hy
      have hy' := mem_pieces (by rw [hms]; exact List.mem_append_right _ hm) hy
      have hyr : y ≠ '\r' := by
        rintro rfl
        exact hr (hmem _ hy'.1)
      simp [isBreak, hy'.2, hyr]
    · intro m hm
      exact hpiece m (by rw [hms, List.getLast?_append, hm]; rfl)

/-! ## Blank lines -/

variable {c : Cursor} {more : List Char} {most : Option Nat} {w n fuel : Nat}

/-- The line holds something, or is indented too far to count as blank. -/
def Cursor.IsSolid (most : Option Nat) (c : Cursor) : Prop :=
  (c.skipSpaces.atBreak && most.all (c.skipSpaces.column ≤ ·)) = false

theorem skipBlankLines_solid (h : c.IsSolid most) (fuel : Nat) : skipBlankLines most fuel c = (0, 0, c) := by
  cases fuel with
  | zero => rfl
  | succ fuel =>
    rw [skipBlankLines]
    simp only
    rw [h]
    rfl

/-- A line that starts, behind its indentation, with something other than a space. -/
theorem Cursor.isSolid_of_head {x : Char} (hx : x ≠ ' ' ∧ isBreak x = false)
    (hc : c.rest = List.replicate w ' ' ++ x :: more) : c.IsSolid most := by
  have hbehind := Cursor.skipSpaces_behind hc (by rintro _ ⟨⟩; exact hx.1)
  have hbreak : c.skipSpaces.atBreak = false := by
    rw [Cursor.atBreak, hbehind.rest]
    exact hx.2
  rw [IsSolid, hbreak]
  rfl

/-- A line that starts, behind its indentation, with one more space. -/
theorem Cursor.isSolid_of_space (hc : c.rest = List.replicate w ' ' ++ ' ' :: more) (h0 : c.column = 0) :
    c.IsSolid (some w) := by
  have hrun : w + 1 ≤ (c.rest.takeWhile (· = ' ')).length := by
    have hspaces : ∀ x ∈ List.replicate w ' ', decide (x = ' ') = true := fun x hx => by
      simp [List.eq_of_mem_replicate hx]
    rw [hc, List.takeWhile_append_of_pos hspaces, List.takeWhile_cons_of_pos (by rfl), List.length_append,
      List.length_cons, List.length_replicate]
    omega
  have hbehind := Cursor.skip_behind (List.takeWhile_append_dropWhile (p := (· = ' ')) (l := c.rest)).symm
    fun h => absurd (List.mem_takeWhile_imp h) (by decide)
  have hcolumn : ¬ c.skipSpaces.column ≤ w := by
    rw [skipSpaces, hbehind.column]
    omega
  simp [IsSolid, hcolumn]

/-- Lines of nothing but indentation are passed over. -/
theorem skipBlankLines_blanks (hmost : most.all (w ≤ ·)) (hsolid : ∀ d : Cursor, d.column = 0 →
    d.rest = List.replicate w ' ' ++ more → d.IsSolid most) :
    (n fuel : Nat) → (c : Cursor) → c.column = 0 → n ≤ fuel →
      c.rest = List.replicate w ' ' ++ ((List.replicate n ('\n' :: List.replicate w ' ')).flatten ++ more) →
      ∃ width d, skipBlankLines most fuel c = (n, width, d) ∧ width ≤ w ∧ d.column = 0 ∧
        d.rest = List.replicate w ' ' ++ more
  | 0, fuel, c, h0, _, hc => ⟨0, c, skipBlankLines_solid (hsolid c h0 hc) fuel, Nat.zero_le w, h0, hc⟩
  | n + 1, fuel + 1, c, h0, hf, hc => by
    rw [List.replicate_succ, List.flatten_cons, List.cons_append, List.cons_append, List.append_assoc] at hc
    have hbehind := Cursor.skipSpaces_behind hc (by rintro _ ⟨⟩; decide)
    have hnext := Cursor.next_lineFeed hbehind.rest
    obtain ⟨width, d, hd, hwidth, hd0, hrest⟩ := skipBlankLines_blanks hmost hsolid n fuel c.skipSpaces.next
      (by rw [hnext]) (Nat.le_of_succ_le_succ hf) (by rw [hnext])
    have hcolumn : c.skipSpaces.column = w := by
      rw [hbehind.column, h0, List.length_replicate, Nat.zero_add]
    have hbreak : c.skipSpaces.atBreak = true := by
      rw [Cursor.atBreak, hbehind.rest]
      rfl
    refine ⟨max w width, d, ?_, by omega, hd0, hrest⟩
    rw [skipBlankLines]
    simp [hbreak, hcolumn, hmost, hd]

/-! ## Lines -/

/-- The line that a cursor stands at is read, and the blank ones behind it. -/
theorem readLines_line {l : List Char} (fuel : Nat) (hw : 0 < w) (hl : l ≠ [])
    (hbreak : ∀ x ∈ l, isBreak x = false)
    (hmore : ∀ x ∈ more.head?, isBreak x = true) (h0 : c.column = 0)
    (hc : c.rest = List.replicate w ' ' ++ (l ++ more)) :
    ∃ e : Cursor, e.rest = more ∧ ∀ blanks width d lines rest,
      skipBlankLines (some w) fuel e.next = (blanks, width, d) → readLines w fuel d = (lines, rest) →
      readLines w (fuel + 1) c = (⟨l, blanks⟩ :: lines, rest) := by
  have hrun : min (c.rest.takeWhile (· = ' ')).length (w - c.column) = (List.replicate w ' ').length := by
    have hspaces : ∀ x ∈ List.replicate w ' ', decide (x = ' ') = true := fun x hx => by
      simp [List.eq_of_mem_replicate hx]
    rw [hc, List.takeWhile_append_of_pos hspaces, List.length_append, List.length_replicate, h0]
    omega
  have hstart := Cursor.skip_behind hc fun h => absurd (List.eq_of_mem_replicate h) (by decide)
  have hline := Cursor.skipLine_behind hstart.rest hbreak hmore
  refine ⟨(c.skip (List.replicate w ' ').length).skipLine, hline.rest, ?_⟩
  intro blanks width d lines rest hblanks hlines
  have htext : (l ++ more).takeWhile (fun x => !isBreak x) = l :=
    Cursor.takeWhile_run (fun x hx => by rw [hbreak x hx]; rfl) (fun x hx => by rw [hmore x hx]; rfl)
  have hcolumn : (c.skip (List.replicate w ' ').length).column = w := by
    rw [hstart.column, h0, List.length_replicate, Nat.zero_add]
  have hmarker : (c.skip (List.replicate w ' ').length).isMarker = false :=
    Cursor.isMarker_eq_false (by omega)
  rw [readLines]
  simp only [hrun, hstart.rest, hmarker, hcolumn, htext, hblanks, hlines]
  simp [hl]

/-- Where a cursor stands behind a block in front of the text behind it: at its end, or in the line below. -/
inductive Ended : List Char → Cursor → Prop
  | done {d : Cursor} (h : d.rest = []) : Ended [] d
  | below {d : Cursor} (h0 : d.column = 0) : Ended ('\n' :: d.rest) d

theorem readLines_ended {d : Cursor} {tail : List Char} {indent : Nat} (htail : Below indent tail)
    (hw : indent < w) (h : Ended tail d) (fuel : Nat) : readLines w fuel d = ([], d) := by
  cases fuel with
  | zero => rfl
  | succ fuel =>
    cases h with
    | done h =>
      rw [readLines, h]
      simp [Cursor.skip, h]
    | below h0 =>
      generalize hrest : d.rest = cs at htail
      cases htail with
      | line hk hx =>
        rename_i k x cs
        have hrun : (d.rest.takeWhile (· = ' ')) = List.replicate k ' ' := by
          rw [hrest]
          exact Cursor.takeWhile_run (fun y hy => by simp [List.eq_of_mem_replicate hy])
            (by rintro _ ⟨⟩; simpa using hx.ne_space)
        have hmin : min (List.replicate k ' ').length (w - d.column) = (List.replicate k ' ').length := by
          rw [h0, List.length_replicate]
          omega
        have hstart := Cursor.skip_behind hrest fun h => absurd (List.eq_of_mem_replicate h) (by decide)
        have hcolumn : (d.skip (List.replicate k ' ').length).column < w := by
          rw [hstart.column, h0, List.length_replicate]
          omega
        rw [readLines]
        simp only [hrun, hmin, hcolumn]
        simp

/-- Behind the last line at most one line feed of the block is left. -/
theorem skipBlankLines_end {e : Cursor} {tail : List Char} {indent b : Nat} (htail : Below indent tail)
    (hb : b ≤ 1) (he : e.rest = List.replicate b '\n' ++ tail) (fuel : Nat) :
    ∃ blanks width d, skipBlankLines (some w) (fuel + 1) e.next = (blanks, width, d) ∧ Ended tail d := by
  have hend {d : Cursor} (h : d.rest = []) : d.IsSolid (some w) := by
    have hspaces : d.skipSpaces = d := by simp [Cursor.skipSpaces, h, Cursor.skip]
    simp [Cursor.IsSolid, hspaces, Cursor.atBreak, h]
  cases htail with
  | nil =>
    obtain rfl | rfl : b = 0 ∨ b = 1 := by omega
    · have hnext : e.next.rest = [] := by simp [Cursor.next, he]
      exact ⟨0, 0, e.next, skipBlankLines_solid (hend hnext) _, .done hnext⟩
    · have hnext : e.next.rest = [] := congrArg Cursor.rest (Cursor.next_lineFeed he)
      exact ⟨0, 0, e.next, skipBlankLines_solid (hend hnext) _, .done hnext⟩
  | line hk hx =>
    rename_i k x cs
    have hsolid (d : Cursor) (hd : d.rest = List.replicate k ' ' ++ x :: cs) : d.IsSolid (some w) :=
      Cursor.isSolid_of_head ⟨hx.ne_space, hx.2.1⟩ hd
    obtain rfl | rfl : b = 0 ∨ b = 1 := by omega
    · have hnext := Cursor.next_lineFeed he
      have hrest : e.next.rest = List.replicate k ' ' ++ x :: cs := by rw [hnext]
      exact ⟨0, 0, e.next, skipBlankLines_solid (hsolid _ hrest) _, hrest ▸ .below (by rw [hnext])⟩
    · have hnext := Cursor.next_lineFeed he
      obtain ⟨width, d, hd, -, h0, hrest⟩ := skipBlankLines_blanks (w := 0) (show (some w).all (0 ≤ ·) by simp)
        (fun d _ hd => hsolid d hd) 1 (fuel + 1) e.next (by rw [hnext]) (by omega) (by rw [hnext]; rfl)
      exact ⟨1, width, d, hd, hrest ▸ .below h0⟩

/-- The break in front of a line comes first. -/
theorem flatMap_blanks {nl : List Char} (n : Nat) (l : List Char) (ls : List (List Char)) :
    (List.replicate n [] ++ l :: ls).flatMap (nl ++ ·)
      = nl ++ ((List.replicate n nl).flatten ++ (l ++ ls.flatMap (nl ++ ·))) := by
  have hcomm : (List.replicate n nl).flatten ++ nl = nl ++ (List.replicate n nl).flatten := by
    rw [← List.flatten_concat, ← List.replicate_succ', List.replicate_succ, List.flatten_cons]
  rw [List.flatMap_append, List.flatMap_cons, List.flatMap_replicate, List.append_nil]
  rw [← List.append_assoc, ← List.append_assoc, hcomm]
  simp

theorem isSolid_line {l : List Char} (hl : l ≠ []) (hbreak : ∀ x ∈ l, isBreak x = false) (d : Cursor)
    (h0 : d.column = 0) (hd : d.rest = List.replicate w ' ' ++ (l ++ more)) : d.IsSolid (some w) := by
  obtain ⟨x, xs, rfl⟩ := List.exists_cons_of_ne_nil hl
  by_cases hx : x = ' '
  · subst hx
    exact Cursor.isSolid_of_space hd h0
  · exact Cursor.isSolid_of_head ⟨hx, hbreak x List.mem_cons_self⟩ hd

theorem joinLines_some {bs : List BlockLine} (h : bs ≠ []) (blanks : Nat) (wasBlank : Bool) :
    joinLines false (some (blanks, wasBlank)) bs
      = List.replicate (blanks + 1) '\n' ++ joinLines false none bs := by
  obtain ⟨l, ls, rfl⟩ := List.exists_cons_of_ne_nil h
  simp [joinLines]

/-- The last line of a block. -/
theorem readLines_last {l tail : List Char} {indent b : Nat} (htail : Below indent tail) (hb : b ≤ 1)
    (hw : indent < w) (hl : l ≠ []) (hbreak : ∀ x ∈ l, isBreak x = false) (h0 : c.column = 0)
    (hc : c.rest = List.replicate w ' ' ++ (l ++ (List.replicate b '\n' ++ tail)))
    (hf : c.rest.length < fuel + 1) :
    ∃ blanks d, readLines w (fuel + 1) c = ([⟨l, blanks⟩], d) ∧ Ended tail d := by
  have hmore : ∀ x ∈ (List.replicate b '\n' ++ tail).head?, isBreak x = true := by
    intro x hx
    cases b with
    | zero => rw [htail.head hx]; rfl
    | succ b => rw [← Option.some.inj hx]; rfl
  obtain ⟨e, he, hstep⟩ := readLines_line fuel (by omega) hl hbreak hmore h0 hc
  have hlen := congrArg List.length hc
  have hlpos := List.length_pos_iff.mpr hl
  simp only [List.length_append] at hlen
  obtain ⟨fuel, rfl⟩ := Nat.exists_eq_add_one.mpr (by omega : 0 < fuel)
  obtain ⟨blanks, width, d, hblanks, hend⟩ := skipBlankLines_end htail hb he fuel
  exact ⟨blanks, d, hstep blanks width d [] d hblanks (readLines_ended htail hw hend _), hend⟩

/-- A line, the blank ones behind it, and the cursor at the line after these. -/
theorem readLines_more {l m : List Char} (n : Nat) (hw : 0 < w) (hl : l ≠ [])
    (hlbreak : ∀ x ∈ l, isBreak x = false) (hm : m ≠ []) (hmbreak : ∀ x ∈ m, isBreak x = false)
    (h0 : c.column = 0) (hc : c.rest = List.replicate w ' ' ++ (l ++ '\n' :: (List.replicate w ' ' ++
      ((List.replicate n ('\n' :: List.replicate w ' ')).flatten ++ (m ++ more)))))
    (hf : c.rest.length < fuel + 1) :
    ∃ d : Cursor, d.column = 0 ∧ d.rest = List.replicate w ' ' ++ (m ++ more) ∧ d.rest.length < fuel ∧
      ∀ bs e, readLines w fuel d = (bs, e) → readLines w (fuel + 1) c = (⟨l, n⟩ :: bs, e) := by
  have hlpos := List.length_pos_iff.mpr hl
  have hn : n ≤ ((List.replicate n ('\n' :: List.replicate w ' ')).flatten).length := by
    simp only [List.length_flatten, List.map_replicate, List.sum_replicate_nat, List.length_cons]
    exact Nat.le_mul_of_pos_right n (Nat.succ_pos _)
  have hlen := congrArg List.length hc
  simp only [List.length_append, List.length_replicate, List.length_cons] at hlen
  obtain ⟨e, he, hstep⟩ := readLines_line fuel hw hl hlbreak (by rintro _ ⟨⟩; rfl) h0 hc
  have hnext := Cursor.next_lineFeed he
  obtain ⟨width, d, hblanks, -, hd0, hd⟩ := skipBlankLines_blanks (show (some w).all (w ≤ ·) by simp)
    (isSolid_line hm hmbreak) n fuel e.next (by rw [hnext]) (by omega) (by rw [hnext])
  refine ⟨d, hd0, hd, ?_, fun bs f hread => hstep n width d bs f hblanks hread⟩
  have hdlen := congrArg List.length hd
  simp only [List.length_append, List.length_replicate] at hdlen
  omega

/-- **The lines of a block are read back**, each with the number of blank ones behind it. -/
theorem readLines_pieces {tail : List Char} {indent b : Nat} (htail : Below indent tail) (hb : b ≤ 1)
    (hw : indent < w) :
    (fuel : Nat) → (l : List Char) → (ls : List (List Char)) → (c : Cursor) → l ≠ [] →
      (∀ m ∈ l :: ls, ∀ x ∈ m, isBreak x = false) → (∀ m ∈ (l :: ls).getLast?, m ≠ []) → c.column = 0 →
      c.rest = List.replicate w ' ' ++
        (l ++ (ls.flatMap ('\n' :: List.replicate w ' ' ++ ·) ++ (List.replicate b '\n' ++ tail))) →
      c.rest.length < fuel →
      ∃ bs d, readLines w fuel c = (bs, d) ∧ bs ≠ [] ∧ Ended tail d ∧ joinLines false none bs = joined (l :: ls)
  | fuel + 1, l, ls, c, hl, hbreak, hlast, h0, hc, hf => by
    have hlbreak := hbreak l List.mem_cons_self
    -- the recursion goes from one line with a text to the next, over the blank ones between them
    obtain ⟨n, ms, rfl, hms⟩ := exists_behind_blanks ls
    cases ms with
    | nil =>
      obtain rfl : n = 0 := by
        cases n with
        | zero => rfl
        | succ n =>
          refine absurd rfl (hlast [] ?_)
          rw [List.append_nil, List.replicate_succ', ← List.cons_append, List.getLast?_append]
          rfl
      simp only [List.replicate_zero, List.nil_append, List.flatMap_nil] at hc
      obtain ⟨blanks, d, hread, hend⟩ := readLines_last htail hb hw hl hlbreak h0 hc hf
      exact ⟨_, d, hread, by simp, hend, by simp [joinLines, joined]⟩
    | cons m ms =>
      have hm := hms m rfl
      have hsub : m :: ms ⊆ l :: (List.replicate n [] ++ m :: ms) :=
        List.subset_cons_of_subset l (List.subset_append_right _ _)
      have hlast' : ∀ k ∈ (m :: ms).getLast?, k ≠ [] := fun k hk => hlast k (by
        rw [← List.cons_append, List.getLast?_append, hk]
        rfl)
      rw [flatMap_blanks] at hc
      simp only [List.append_assoc, List.cons_append] at hc
      obtain ⟨d, hd0, hd, hdlen, hstep⟩ := readLines_more n (by omega) hl hlbreak hm
        (hbreak m (hsub List.mem_cons_self)) h0 hc hf
      obtain ⟨bs, e, hread, hbs, hend, hjoin⟩ := readLines_pieces htail hb hw fuel m ms d hm
        (fun k hk => hbreak k (hsub hk)) hlast' hd0 hd hdlen
      refine ⟨_, e, hstep bs e hread, by simp, hend, ?_⟩
      have hgap : (List.replicate n [] ++ m :: ms).flatMap ('\n' :: ·)
          = List.replicate (n + 1) '\n' ++ joined (m :: ms) := joined_blanks (n + 1) m ms
      rw [joined, hgap, joinLines, joinLines_some hbs, hjoin]
      rfl

/-! ## Blocks -/

/-- What is said at the head of a block of how it ends. -/
def chompingOf (b : Nat) : Chomping := if b = 0 then .strip else .clip

/-- The marks at the head of a literal block, and the break behind them. -/
theorem readMarks_literal {b : Nat} (hb : b ≤ 1)
    (hc : c.rest = (if b = 0 then ['-'] else if b = 1 then [] else ['+']) ++ '\n' :: more) :
    ∃ d e : Cursor,
      readMarks { isFolded := false } 3 c = some ({ isFolded := false, chomping := chompingOf b }, d) ∧
      endHeader d = some e ∧ e.column = 0 ∧ e.rest = more := by
  have hend (d : Cursor) (hd : d.rest = '\n' :: more) : endHeader d = some d.next := by
    have hstay : d.skipBlanks = d := Cursor.skipBlanks_eq (by rw [hd]; rintro _ ⟨⟩; rfl)
    have hbreak : d.atBreak = true := by rw [Cursor.atBreak, hd]; rfl
    rw [endHeader, hstay, hd]
    simp [hbreak]
  have hstop (h : Header) (n : Nat) (d : Cursor) (hd : d.rest = '\n' :: more) :
      readMarks h (n + 1) d = some (h, d) := by
    rw [readMarks, hd]
    rfl
  obtain rfl | rfl : b = 0 ∨ b = 1 := by omega
  · have hnext := Cursor.next_behind hc (by decide)
    refine ⟨c.next, c.next.next, ?_, hend _ hnext.rest, ?_, ?_⟩
    · rw [readMarks, hc]
      exact hstop _ 1 _ hnext.rest
    all_goals rw [Cursor.next_lineFeed hnext.rest]
  · refine ⟨c, c.next, hstop _ 2 c hc, hend c hc, ?_, ?_⟩
    all_goals rw [Cursor.next_lineFeed hc]

theorem join_literal {b : Nat} (hb : b ≤ 1) {bs : List BlockLine} (hbs : bs ≠ []) (n : Nat) :
    Header.join { isFolded := false, chomping := chompingOf b } n bs
      = List.replicate n '\n' ++ joinLines false none bs ++ List.replicate b '\n' := by
  rw [Header.join, List.getLast?_eq_some_getLast hbs]
  obtain rfl | rfl : b = 0 ∨ b = 1 := by omega
  all_goals rfl

/-- **A literal block is read back** from behind its bar, in surroundings of the level that it was written at. -/
theorem readBlock_literal {cs tail : List Char} {level : Nat} (h : KeptBlock cs) (htail : Below (2 * level) tail)
    (hc : '|' :: c.rest = literalBlock level cs ++ tail) (hf : c.rest.length < fuel) :
    ∃ d, readBlock false ((2 * level : Nat) : Int) fuel c = some (cs, d) ∧ Ended tail d := by
  obtain ⟨n, l, ls, hlines, htext, ⟨x, xs, rfl, hspace⟩, hbreak, hlast⟩ := h.lines_eq
  generalize hw : 2 * (level + 1) = w
  have hrest : c.rest = (if finalBreaks cs = 0 then ['-'] else if finalBreaks cs = 1 then [] else ['+']) ++
      '\n' :: (List.replicate w ' ' ++ ((List.replicate n ('\n' :: List.replicate w ' ')).flatten ++
        ((x :: xs) ++ (ls.flatMap ('\n' :: List.replicate w ' ' ++ ·) ++
          (List.replicate (finalBreaks cs) '\n' ++ tail))))) := by
    have hbehind := (List.cons.inj hc).2
    have hblock : (lines cs).flatMap (fun l => newline (level + 1) ++ l) = '\n' :: (List.replicate w ' ' ++
        ((List.replicate n ('\n' :: List.replicate w ' ')).flatten ++
          ((x :: xs) ++ ls.flatMap ('\n' :: List.replicate w ' ' ++ ·)))) := by
      rw [hlines, newline, hw]
      exact flatMap_blanks n (x :: xs) ls
    rw [hblock] at hbehind
    simpa only [List.append_eq, List.append_assoc, List.cons_append] using hbehind
  obtain ⟨d, e, hmarks, hhead, he0, he⟩ := readMarks_literal h.final hrest
  have hlen := congrArg List.length hrest
  have hblanksLen : n ≤ ((List.replicate n ('\n' :: List.replicate w ' ')).flatten).length := by
    simp only [List.length_flatten, List.map_replicate, List.sum_replicate_nat, List.length_cons]
    exact Nat.le_mul_of_pos_right n (Nat.succ_pos _)
  simp only [List.length_append, List.length_cons, List.length_replicate] at hlen
  have hsolid (f : Cursor) (_ : f.column = 0) (hf : f.rest = List.replicate w ' ' ++ ((x :: xs) ++
      (ls.flatMap ('\n' :: List.replicate w ' ' ++ ·) ++ (List.replicate (finalBreaks cs) '\n' ++ tail)))) :
      f.IsSolid none :=
    Cursor.isSolid_of_head ⟨hspace, hbreak _ List.mem_cons_self x List.mem_cons_self⟩ hf
  obtain ⟨width, first, hblanks, hwidth, hfirst0, hfirst⟩ :=
    skipBlankLines_blanks rfl hsolid n fuel e he0 (by omega) he
  have hfirstLen := congrArg List.length hfirst
  simp only [List.length_append, List.length_cons, List.length_replicate] at hfirstLen
  obtain ⟨bs, g, hread, hbs, hend, hjoin⟩ := readLines_pieces htail h.final (by omega) fuel (x :: xs) ls first
    (List.cons_ne_nil x xs) hbreak hlast hfirst0 hfirst (by omega)
  have hcolumn : first.skipSpaces.column = w := by
    have hbehind := Cursor.skipSpaces_behind hfirst (by rintro _ ⟨⟩; exact hspace)
    rw [hbehind.column, hfirst0, List.length_replicate, Nat.zero_add]
  refine ⟨g, ?_, hend⟩
  have hinner : max (((2 * level : Nat) : Int) + 1).toNat w = w := by omega
  simp only [readBlock, hmarks, hhead, hblanks, hcolumn, hinner, hread, Option.bind_eq_bind, Option.bind_some,
    Option.pure_def]
  rw [if_neg (by omega), join_literal h.final hbs, hjoin, ← htext]

/-- The block itself is written without carriage returns. -/
theorem KeptBlock.return_notMem {cs : List Char} (h : KeptBlock cs) (level : Nat) :
    '\r' ∉ literalBlock level cs := by
  have hlines : ∀ l ∈ lines cs, '\r' ∉ l := by
    obtain ⟨n, l, ls, hblock⟩ := h.lines_eq
    rw [hblock.lines]
    intro m hm hr
    rcases List.mem_append.mp hm with hm | hm
    · rw [List.eq_of_mem_replicate hm] at hr
      exact absurd hr List.not_mem_nil
    · exact absurd (hblock.noBreak m hm _ hr) (by decide)
  have hmarks (b : Nat) : '\r' ∉ if b = 0 then ['-'] else if b = 1 then [] else ['+'] := by
    split
    · decide
    · split <;> decide
  simp only [literalBlock, List.mem_cons, List.mem_append, List.mem_flatMap, List.mem_replicate, newline]
  rintro (hr | (hr | ⟨l, hl, (hr | hr) | hr⟩) | hr)
  · exact absurd hr (by decide)
  · exact hmarks _ hr
  · exact absurd hr (by decide)
  · exact absurd hr.2 (by decide)
  · exact hlines l hl hr
  · exact absurd hr.2 (by decide)

end StageFlow.Yaml
