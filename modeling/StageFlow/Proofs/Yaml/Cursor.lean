import StageFlow.Yaml.Plain

/-!
# Moving through YAML text

Where a cursor stands after it has passed over some text. Within a line the column counts what was passed; behind a
line feed it starts again.

## Contents
- **Steps.** `next` and `skip`, for text without a line feed.
- **Runs.** `skipSpaces`, `skipBlanks` and `skipLine`, by what stands behind the run.
- **What follows a value.** `Below`, the text behind a value: the end, or a line that is not indented more.
- **Line breaks.** `skipBreaks`, on white space with and without a line feed.
-/

namespace StageFlow.Yaml

namespace Cursor

variable {c : Cursor} {cs tail : List Char}

/-! ## Steps -/

theorem skip_succ (n : Nat) (c : Cursor) : c.skip (n + 1) = c.next.skip n := rfl

theorem next_lineFeed (h : c.rest = '\n' :: cs) : c.next = { rest := cs, line := c.line + 1 } := by
  rw [next, h]
  rfl

/-- Where a cursor stands behind a text without a line feed. -/
structure Behind (c : Cursor) (cs tail : List Char) (d : Cursor) : Prop where
  rest : d.rest = tail
  line : d.line = c.line
  column : d.column = c.column + cs.length

theorem Behind.refl (hc : c.rest = tail) : c.Behind [] tail c := ⟨hc, rfl, rfl⟩

theorem Behind.trans {ds : List Char} {d e : Cursor} (h : c.Behind cs (ds ++ tail) d) (h' : d.Behind ds tail e) :
    c.Behind (cs ++ ds) tail e where
  rest := h'.rest
  line := h'.line.trans h.line
  column := by rw [h'.column, h.column, List.length_append, Nat.add_assoc]

theorem next_behind {x : Char} (hc : c.rest = x :: tail) (hx : x ≠ '\n') : c.Behind [x] tail c.next := by
  rw [next, hc]
  simp only [if_neg hx]
  exact ⟨rfl, rfl, rfl⟩

theorem skip_behind (hc : c.rest = cs ++ tail) (hn : '\n' ∉ cs) : c.Behind cs tail (c.skip cs.length) := by
  induction cs generalizing c with
  | nil => exact ⟨hc, rfl, rfl⟩
  | cons x cs ih =>
    rw [List.mem_cons, not_or] at hn
    have hx := next_behind hc (Ne.symm hn.1)
    have hcs := ih hx.rest hn.2
    refine ⟨hcs.rest, hcs.line.trans hx.line, ?_⟩
    rw [List.length_cons, skip_succ, hcs.column, hx.column, List.length_singleton]
    omega

/-! ## Runs -/

theorem takeWhile_run {p : Char → Bool} (hcs : ∀ x ∈ cs, p x = true) (htail : ∀ x ∈ tail.head?, p x = false) :
    (cs ++ tail).takeWhile p = cs := by
  rw [List.takeWhile_append_of_pos hcs]
  cases tail with
  | nil => exact List.append_nil cs
  | cons x xs => rw [List.takeWhile_cons, htail x rfl]; exact List.append_nil cs

theorem skipSpaces_behind {k : Nat} (hc : c.rest = List.replicate k ' ' ++ tail)
    (htail : ∀ x ∈ tail.head?, x ≠ ' ') : c.Behind (List.replicate k ' ') tail c.skipSpaces := by
  have hrun : c.rest.takeWhile (· = ' ') = List.replicate k ' ' := by
    rw [hc]
    exact takeWhile_run (fun x hx => by simp [List.eq_of_mem_replicate hx]) (fun x hx => by simp [htail x hx])
  rw [skipSpaces, hrun]
  exact skip_behind hc fun h => absurd (List.eq_of_mem_replicate h) (by decide)

theorem skipBlanks_behind (hc : c.rest = cs ++ tail) (hcs : ∀ x ∈ cs, isBlank x = true)
    (htail : ∀ x ∈ tail.head?, isBlank x = false) : c.Behind cs tail c.skipBlanks := by
  rw [skipBlanks, hc, takeWhile_run hcs htail]
  exact skip_behind hc fun h => absurd (hcs _ h) (by decide)

theorem skipBlanks_eq (h : ∀ x ∈ c.rest.head?, isBlank x = false) : c.skipBlanks = c := by
  have hrun : ([] ++ c.rest).takeWhile isBlank = [] := takeWhile_run (fun _ h => absurd h List.not_mem_nil) h
  rw [skipBlanks, ← List.nil_append c.rest, hrun]
  rfl

theorem skipLine_behind (hc : c.rest = cs ++ tail) (hcs : ∀ x ∈ cs, isBreak x = false)
    (htail : ∀ x ∈ tail.head?, isBreak x = true) : c.Behind cs tail c.skipLine := by
  rw [skipLine, hc, takeWhile_run (fun x hx => by rw [hcs x hx]; rfl) (fun x hx => by rw [htail x hx]; rfl)]
  exact skip_behind hc fun h => absurd (hcs _ h) (by decide)

/-- Markers of documents stand in the first column. -/
theorem isMarker_eq_false (h : c.column ≠ 0) : c.isMarker = false := by
  simp [isMarker, h]

end Cursor

/-! ## What follows a value -/

/-- With the character a line can start, apart from its indentation, that is neither blank nor a comment. -/
def StartsToken (x : Char) : Prop := isBlank x = false ∧ isBreak x = false ∧ x ≠ '#'

/-- What stands behind a value in surroundings of an indentation: nothing, or a line that is indented no more. -/
inductive Below (indent : Nat) : List Char → Prop
  | nil : Below indent []
  | line {k : Nat} {x : Char} {cs : List Char} (hk : k ≤ indent) (hx : StartsToken x) :
    Below indent ('\n' :: (List.replicate k ' ' ++ x :: cs))

theorem Below.mono {indent outer : Nat} {cs : List Char} (h : Below indent cs) (hle : indent ≤ outer) :
    Below outer cs := by
  cases h with
  | nil => exact .nil
  | line hk hx => exact .line (Nat.le_trans hk hle) hx

theorem Below.head {indent : Nat} {cs : List Char} (h : Below indent cs) {x : Char} (hx : x ∈ cs.head?) :
    x = '\n' := by
  cases h with
  | nil => cases hx
  | line => exact (Option.some.inj hx).symm

theorem StartsToken.ne_space {x : Char} (h : StartsToken x) : x ≠ ' ' := by
  rintro rfl
  exact absurd h.1 (by decide)

/-! ## Line breaks -/

variable {c : Cursor} {cs tail : List Char}

/-- Blanks that no line break follows. -/
theorem skipBreaks_blanks (fuel : Nat) (hc : c.rest = cs ++ tail) (hcs : ∀ x ∈ cs, isBlank x = true)
    (htail : ∀ x ∈ tail.head?, isBlank x = false ∧ isBreak x = false) :
    ∃ column, skipBreaks (fuel + 1) c = (0, column, c.skipBlanks) := by
  have hbehind := Cursor.skipBlanks_behind hc hcs fun x hx => (htail x hx).1
  have hbreak : c.skipBlanks.atBreak = false := by
    rw [Cursor.atBreak, hbehind.rest]
    cases tail with
    | nil => rfl
    | cons x xs => exact (htail x rfl).2
  refine ⟨c.skipSpaces.column, ?_⟩
  rw [skipBreaks]
  simp only [hbreak]
  rfl

/-- One line break, and the indentation of the line below. -/
theorem skipBreaks_line {k : Nat} {x : Char} (fuel : Nat) (hc : c.rest = '\n' :: (List.replicate k ' ' ++ x :: cs))
    (hx : StartsToken x) : ∃ behind, skipBreaks (fuel + 2) c = (1, k, behind) := by
  have hstay : c.skipBlanks = c := Cursor.skipBlanks_eq (by rw [hc]; rintro _ ⟨⟩; rfl)
  have hbreak : c.atBreak = true := by rw [Cursor.atBreak, hc]; rfl
  have hnext := Cursor.next_lineFeed hc
  have hspaces : c.next.Behind (List.replicate k ' ') (x :: cs) c.next.skipSpaces :=
    Cursor.skipSpaces_behind (by rw [hnext]) (by rintro _ ⟨⟩; exact hx.ne_space)
  have hblanks : c.next.Behind (List.replicate k ' ') (x :: cs) c.next.skipBlanks :=
    Cursor.skipBlanks_behind (by rw [hnext]) (fun y hy => by rw [List.eq_of_mem_replicate hy]; rfl)
      (by rintro _ ⟨⟩; exact hx.1)
  have hstop : c.next.skipBlanks.atBreak = false := by
    rw [Cursor.atBreak, hblanks.rest]
    exact hx.2.1
  have hcolumn : c.next.skipSpaces.column = k := by
    rw [hspaces.column, hnext, List.length_replicate]
    exact Nat.zero_add k
  refine ⟨c.next.skipBlanks, ?_⟩
  rw [skipBreaks]
  simp only [hstay, hbreak, if_true]
  rw [skipBreaks]
  simp only [hstop, hcolumn]
  rfl

end StageFlow.Yaml
