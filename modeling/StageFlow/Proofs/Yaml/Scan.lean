import StageFlow.Proofs.Yaml.Scalar
import StageFlow.Proofs.Yaml.Text
import StageFlow.Yaml.Token

/-!
# Scanning block style

What one fetch of the scanner does in front of each kind of token that a block-style text has. Outside of
brackets a fetch first passes over white space, then closes what ends in front of the column it has come to, and
only then reads; where the scanner stands is said in these terms.

## Contents
- **Closing.** `unroll_eq`, and `Open`: what is open once the scanner has come to a column.
- **White space.** `Rests`, how the scanner stands behind a value, and `Faces`, how it stands in front of a token.
- **Settled.** `Settled`, the scanner in front of a token, and the branch it takes there.
- **Opening.** `Rolled` and `Ready`: what the next token opens.
- **Tokens.** One lemma for each kind of token, and `fetch_end`.
- **Runs.** `Fetches`.
-/

namespace StageFlow.Yaml

namespace Scan

/-! ## Closing -/

/-- How many lists and maps are indented by more than a column. -/
def closing (column : Int) (is : List Nat) : Nat := (is.takeWhile fun i : Nat => column < i).length

theorem unrollFrom_eq (column : Int) (is : List Nat) (s : Scan) :
    unrollFrom column is s = { s with
      tokens := List.replicate (closing column is) .blockEnd ++ s.tokens
      count := s.count + closing column is
      indents := is.dropWhile fun i : Nat => column < i } := by
  induction is generalizing s with
  | nil => rfl
  | cons i is ih =>
    by_cases hi : column < i
    · rw [unrollFrom, if_pos hi, ih, closing, closing, List.takeWhile_cons_of_pos (by simpa using hi),
        List.dropWhile_cons_of_pos (by simpa using hi), List.length_cons, List.replicate_succ', push]
      simp [Nat.add_assoc, Nat.add_comm]
    · rw [unrollFrom, if_neg hi, closing, List.takeWhile_cons_of_neg (by simpa using hi),
        List.dropWhile_cons_of_neg (by simpa using hi)]
      rfl

variable {s : Scan} {column lower : Int} {ts : List Token} {is : List Nat}

theorem inFlow_eq_false (h : s.candidates = [none]) : s.inFlow = false := by
  rw [inFlow, h]
  rfl

theorem unroll_eq (h : s.candidates = [none]) : s.unroll column = { s with
    tokens := List.replicate (closing column s.indents) .blockEnd ++ s.tokens
    count := s.count + closing column s.indents
    indents := s.indents.dropWhile fun i : Nat => column < i } := by
  rw [unroll, inFlow_eq_false h]
  exact unrollFrom_eq column s.indents s

theorem unroll_candidates (h : s.candidates = [none]) : (s.unroll column).candidates = [none] := by
  rw [unroll_eq h]
  exact h

theorem unroll_unroll (h : s.candidates = [none]) (hle : lower ≤ column) :
    (s.unroll column).unroll lower = s.unroll lower := by
  have hfrom (is : List Nat) (s : Scan) :
      unrollFrom lower (unrollFrom column is s).indents (unrollFrom column is s) = unrollFrom lower is s := by
    induction is generalizing s with
    | nil => rfl
    | cons i is ih =>
      by_cases hi : column < i
      · rw [unrollFrom, if_pos hi, ih, unrollFrom, if_pos (Int.lt_of_le_of_lt hle hi)]
      · rw [unrollFrom, if_neg hi, unrollFrom_eq, unrollFrom_eq]
  have hflow : (unrollFrom column s.indents s).inFlow = false := by
    rw [unrollFrom_eq]
    exact inFlow_eq_false h
  rw [unroll, unroll, unroll, inFlow_eq_false h]
  simp only [Bool.false_eq_true, if_false]
  rw [hflow]
  exact hfrom s.indents s

/-- Closing moves nothing but the tokens and what is open. -/
theorem unroll_moved (h : s.candidates = [none]) (c : Cursor) (allowed : Bool) :
    unroll column { s with cursor := c, keyAllowed := allowed }
      = { s.unroll column with cursor := c, keyAllowed := allowed } := by
  rw [unroll_eq h, unroll_eq (by exact h)]

/-- The tokens so far and the columns of what is open, once the scanner has come to a column. -/
structure Open (s : Scan) (column : Int) (ts : List Token) (is : List Nat) : Prop where
  candidates : s.candidates = [none]
  tokens : (s.unroll column).tokens = ts
  indents : (s.unroll column).indents = is

/-- What is open is indented no more than the column. -/
theorem Open.head_le (h : s.Open column ts is) {i : Nat} (hi : i ∈ is.head?) : (i : Int) ≤ column := by
  have hhead := List.head?_dropWhile_not (fun i : Nat => decide (column < i)) s.indents
  have hindents : s.indents.dropWhile (fun i : Nat => decide (column < i)) = is := by
    rw [← h.indents, unroll_eq h.candidates]
  rw [hindents, Option.mem_def.mp hi] at hhead
  simpa using hhead

/-- Nothing is closed if the innermost list or map does not end in front of the column. -/
theorem closing_eq_zero (h : ∀ i ∈ is.head?, (i : Int) ≤ column) :
    closing column is = 0 ∧ is.dropWhile (fun i : Nat => decide (column < i)) = is := by
  cases is with
  | nil => exact ⟨rfl, rfl⟩
  | cons i is =>
    have hi := h i rfl
    simp [closing, hi]

theorem unroll_eq_self (h : s.inFlow = false) (hle : ∀ i ∈ s.indents.head?, (i : Int) ≤ column) :
    s.unroll column = s := by
  obtain ⟨hclosing, hdrop⟩ := closing_eq_zero hle
  rw [unroll, h, if_neg (by decide), unrollFrom_eq, hclosing, hdrop]
  rfl

theorem Open.of_le (h : s.candidates = [none]) (hle : ∀ i ∈ s.indents.head?, (i : Int) ≤ column) :
    s.Open column s.tokens s.indents := by
  have hself := unroll_eq_self (inFlow_eq_false h) hle
  exact ⟨h, congrArg Scan.tokens hself, congrArg Scan.indents hself⟩

/-- The innermost list or map ends in front of a lower column. -/
theorem Open.close {i : Nat} (h : s.Open column ts (i :: is)) (hle : lower ≤ column) (hi : lower < i)
    (his : ∀ j ∈ is.head?, (j : Int) ≤ lower) : s.Open lower (.blockEnd :: ts) is := by
  have hlower : s.unroll lower = unrollFrom lower (i :: is) (s.unroll column) := by
    rw [← unroll_unroll h.candidates hle, unroll, inFlow_eq_false (unroll_candidates h.candidates), h.indents]
    rfl
  obtain ⟨hclosing, hdrop⟩ := closing_eq_zero his
  refine ⟨h.candidates, ?_, ?_⟩
  · rw [hlower, unrollFrom, if_pos hi, unrollFrom_eq, hclosing, ← h.tokens]
    rfl
  · rw [hlower, unrollFrom, if_pos hi, unrollFrom_eq]
    exact hdrop

/-! ## White space -/

variable {fuel k : Nat} {x : Char} {cs tail : List Char}

theorem skipToToken_here (hx : StartsToken x) (h : s.cursor.rest = x :: cs) :
    skipToToken (fuel + 1) s = some s := by
  obtain ⟨hblank, hbreak, hhash⟩ := hx
  simp only [isBlank, Bool.or_eq_false_iff, decide_eq_false_iff_not] at hblank
  rw [skipToToken, h]
  simp [hblank, hbreak, hhash]

theorem skipToToken_spaces (k fuel : Nat) (hx : StartsToken x)
    (h : s.cursor.rest = List.replicate k ' ' ++ x :: cs) (hf : k < fuel) :
    ∃ c : Cursor, skipToToken fuel s = some { s with cursor := c } ∧ c.rest = x :: cs ∧
      c.column = s.cursor.column + k := by
  induction k generalizing s fuel with
  | zero =>
    obtain ⟨fuel, rfl⟩ := Nat.exists_eq_add_of_le' hf
    exact ⟨s.cursor, skipToToken_here hx h, h, rfl⟩
  | succ k ih =>
    obtain ⟨fuel, rfl⟩ := Nat.exists_eq_add_of_le' (Nat.lt_of_le_of_lt (Nat.zero_le _) hf)
    have hnext := Cursor.next_behind h (by decide)
    obtain ⟨c, hc, hrest, hcolumn⟩ := ih fuel (s := s.skip 1) hnext.rest (by omega)
    refine ⟨c, ?_, hrest, ?_⟩
    · rw [skipToToken, h]
      exact hc
    · rw [hcolumn, show (s.skip 1).cursor = s.cursor.next from rfl, hnext.column, List.length_singleton]
      omega

/-- Behind the white space a token stands at a column, and a key may start there. -/
def Faces (fuel : Nat) (s : Scan) (column : Nat) (cs : List Char) : Prop :=
  ∃ c : Cursor, skipToToken fuel s = some { s with cursor := c, keyAllowed := true } ∧ c.rest = cs ∧
    c.column = column

/-- The scanner stands behind a value: in front of what follows, or, behind a block, already in the line below. -/
inductive Rests (s : Scan) (tail : List Char) : Prop
  | here (h : s.cursor.rest = tail)
  | below (h : Ended tail s.cursor) (allowed : s.keyAllowed = true)

theorem Faces.of_line (hx : StartsToken x) (hflow : s.candidates = [none])
    (h : s.cursor.rest = '\n' :: (List.replicate k ' ' ++ x :: cs)) (hf : k + 1 < fuel) :
    s.Faces fuel k (x :: cs) := by
  obtain ⟨fuel, rfl⟩ := Nat.exists_eq_add_of_le' (Nat.lt_of_le_of_lt (Nat.zero_le _) hf)
  have hnext := Cursor.next_lineFeed h
  obtain ⟨c, hc, hrest, hcolumn⟩ := skipToToken_spaces k fuel (s := (s.skip 1).allowKey true) hx
    (congrArg Cursor.rest hnext) (by omega)
  refine ⟨c, ?_, hrest, ?_⟩
  · rw [skipToToken, h]
    have hbreak : isBreak '\n' = true := rfl
    have hflow' : (s.skip 1).inFlow = false := inFlow_eq_false hflow
    simp only [hbreak, hflow']
    exact hc
  · rw [hcolumn, show ((s.skip 1).allowKey true).cursor = s.cursor.next from rfl, hnext]
    exact Nat.zero_add k

theorem Rests.faces (hx : StartsToken x) (hflow : s.candidates = [none])
    (h : s.Rests ('\n' :: (List.replicate k ' ' ++ x :: cs))) (hf : k + 1 < fuel) : s.Faces fuel k (x :: cs) := by
  cases h with
  | here h => exact .of_line hx hflow h hf
  | below h allowed =>
    generalize htail : '\n' :: (List.replicate k ' ' ++ x :: cs) = tail at h
    cases h with
    | done => exact absurd htail (List.cons_ne_nil _ _)
    | below h0 =>
      obtain ⟨c, hc, hrest, hcolumn⟩ :=
        skipToToken_spaces k fuel hx (List.cons.inj htail).2.symm (Nat.lt_of_succ_lt hf)
      exact ⟨c, by rw [hc, ← allowed], hrest, by rw [hcolumn, h0, Nat.zero_add]⟩

theorem Rests.rest_nil (h : s.Rests []) : s.cursor.rest = [] := by
  cases h with
  | here h => exact h
  | below h _ =>
    generalize htail : ([] : List Char) = tail at h
    cases h with
    | done h => exact h
    | below => exact absurd htail.symm (List.cons_ne_nil _ _)

/-! ## Settled -/

theorem dropStale_none (h : s.candidates = [none]) : s.dropStale = some s := by
  obtain ⟨c, ts, count, is, candidates, allowed⟩ := s
  dsimp only at h
  subst h
  rfl

theorem dropCandidate_none (h : s.candidates = [none]) : s.dropCandidate = some s := by
  obtain ⟨c, ts, count, is, candidates, allowed⟩ := s
  dsimp only at h
  subst h
  rfl

/-- The scanner stands in front of a token, and everything is closed that ends there. -/
structure Settled (fuel : Nat) (s : Scan) : Prop where
  skip : skipToToken fuel s = some s
  stale : s.dropStale = some s
  unroll : s.unroll s.cursor.column = s

/-- The settled scanner outside of brackets. -/
def facing (c : Cursor) (ts : List Token) (count : Nat) (is : List Nat) (allowed : Bool) : Scan :=
  { cursor := c, tokens := ts, count := count, indents := is, candidates := [none], keyAllowed := allowed }

theorem Open.unroll_moved {c : Cursor} (h : s.Open column ts is) (allowed : Bool) :
    ∃ count, unroll column { s with cursor := c, keyAllowed := allowed } = facing c ts count is allowed := by
  refine ⟨(s.unroll column).count, ?_⟩
  rw [Scan.unroll_moved h.candidates, ← h.tokens, ← h.indents, facing]
  have hcandidates : (s.unroll column).candidates = [none] := unroll_candidates h.candidates
  rw [← hcandidates]

/-- A fetch from afar is a fetch of the settled scanner. -/
theorem fetch_eq_facing {c : Cursor} {allowed : Bool} (ho : s.Open c.column ts is) (hx : StartsToken x)
    (hskip : skipToToken fuel s = some { s with cursor := c, keyAllowed := allowed }) (hrest : c.rest = x :: cs)
    (hf : 0 < fuel) : ∃ count, s.fetch fuel = (facing c ts count is allowed).fetch fuel ∧
      Settled fuel (facing c ts count is allowed) := by
  obtain ⟨fuel, rfl⟩ := Nat.exists_eq_add_of_le' hf
  obtain ⟨count, hunroll⟩ := ho.unroll_moved (c := c) allowed
  have hcandidates : ({ s with cursor := c, keyAllowed := allowed } : Scan).candidates = [none] := ho.candidates
  have hsettled : Settled (fuel + 1) (facing c ts count is allowed) := by
    refine ⟨skipToToken_here hx hrest, dropStale_none rfl, ?_⟩
    have htwice := unroll_unroll hcandidates (Int.le_refl (c.column : Int))
    rw [hunroll] at htwice
    exact htwice
  refine ⟨count, ?_, hsettled⟩
  rw [fetch, fetch, hskip, hsettled.skip]
  simp only [Option.bind_eq_bind, Option.bind_some]
  rw [hsettled.stale, dropStale_none hcandidates]
  simp only [Option.bind_some]
  rw [hunroll, hsettled.unroll]

theorem Settled.fetch_dash (h : s.Settled fuel) (hrest : s.cursor.rest = '-' :: ' ' :: cs) :
    s.fetch fuel = s.fetchDash := by
  have hmarker : s.cursor.isMarker = false := by simp [Cursor.isMarker, hrest]
  rw [fetch, h.skip]
  simp only [Option.bind_eq_bind, Option.bind_some, h.stale, h.unroll, hrest, hmarker]
  simp [endsWord, isBlank]

theorem Settled.fetch_colon (h : s.Settled fuel) (hrest : s.cursor.rest = ':' :: cs) (hcs : endsWord cs = true) :
    s.fetch fuel = s.fetchValue := by
  have hmarker : s.cursor.isMarker = false := by simp [Cursor.isMarker, hrest]
  rw [fetch, h.skip]
  simp only [Option.bind_eq_bind, Option.bind_some, h.stale, h.unroll, hrest, hmarker]
  simp [isValueColon, hcs]

theorem Settled.fetch_openBracket (h : s.Settled fuel) (hrest : s.cursor.rest = '[' :: cs) :
    s.fetch fuel = s.fetchOpen .openBracket := by
  have hmarker : s.cursor.isMarker = false := by simp [Cursor.isMarker, hrest]
  rw [fetch, h.skip]
  simp only [Option.bind_eq_bind, Option.bind_some, h.stale, h.unroll, hrest, hmarker]
  simp

theorem Settled.fetch_closeBracket (h : s.Settled fuel) (hrest : s.cursor.rest = ']' :: cs) :
    s.fetch fuel = s.fetchClose .closeBracket := by
  have hmarker : s.cursor.isMarker = false := by simp [Cursor.isMarker, hrest]
  rw [fetch, h.skip]
  simp only [Option.bind_eq_bind, Option.bind_some, h.stale, h.unroll, hrest, hmarker]
  simp

theorem Settled.fetch_bar (h : s.Settled fuel) (hrest : s.cursor.rest = '|' :: cs) (hflow : s.inFlow = false) :
    s.fetch fuel = s.fetchBlock fuel false := by
  have hmarker : s.cursor.isMarker = false := by simp [Cursor.isMarker, hrest]
  rw [fetch, h.skip]
  simp only [Option.bind_eq_bind, Option.bind_some, h.stale, h.unroll, hrest, hmarker, hflow]
  simp

theorem Settled.fetch_quote (h : s.Settled fuel) (hrest : s.cursor.rest = '"' :: cs) :
    s.fetch fuel = s.fetchQuoted (readDouble s.indent fuel []) := by
  have hmarker : s.cursor.isMarker = false := by simp [Cursor.isMarker, hrest]
  rw [fetch, h.skip]
  simp only [Option.bind_eq_bind, Option.bind_some, h.stale, h.unroll, hrest, hmarker]
  simp

theorem Settled.fetch_plain {ks : List Char} (h : s.Settled fuel) (hks : PlainText ks)
    (hrest : s.cursor.rest = ks ++ cs) (hmarker : s.cursor.isMarker = false) (hflow : s.inFlow = false) :
    s.fetch fuel = s.fetchPlain fuel := by
  obtain ⟨x, xs, rfl, hblank, hindicator, hpercent, hquestion, hdash⟩ := hks.first
  obtain ⟨hcolon, -, hbreak⟩ := hks.chars x List.mem_cons_self
  rw [List.cons_append] at hrest
  have hitem : (decide (x = '-') && endsWord (xs ++ cs)) = false := by
    by_cases hx : x = '-'
    · obtain ⟨y, ys, rfl, hy⟩ := hdash hx
      simp [endsWord, hy]
    · simp [hx]
  have hstarts : startsPlain false (x :: (xs ++ cs)) = true := by
    simp only [startsPlain, hquestion, hcolon, hblank, hbreak, hindicator]
    by_cases hx : x = '-'
    · simpa [hx] using hitem
    · simp [hx]
  simp only [isIndicator, isFlowMark, Bool.or_eq_false_iff, decide_eq_false_iff_not] at hindicator
  rw [fetch, h.skip]
  simp only [Option.bind_eq_bind, Option.bind_some, h.stale, h.unroll, hrest, hmarker, hflow, hitem]
  simp [hindicator, hpercent, hquestion, hcolon, hstarts]

/-! ## Opening -/

/-- What opens if a token is to stand inside of a list or map at a column. -/
inductive Rolled (column : Nat) (t : Token) (ts : List Token) (is : List Nat) : List Token → List Nat → Prop
  | old (h : is.head? = some column) : Rolled column t ts is ts is
  | new (h : ∀ i ∈ is.head?, i < column) : Rolled column t ts is (t :: ts) (column :: is)

theorem roll_eq {t : Token} {column : Nat} (index : Nat) (pre : List Token) {ts' : List Token} {is' : List Nat}
    (h : Rolled column t ts is ts' is') (hflow : s.inFlow = false) (htokens : s.tokens = pre ++ ts)
    (hindents : s.indents = is) (hcount : s.count = index + pre.length) :
    ∃ count, s.roll column index t = { s with tokens := pre ++ ts', indents := is', count := count } := by
  cases h with
  | old h =>
    obtain ⟨is, rfl⟩ := List.head?_eq_some_iff.mp h
    have hindent : s.indent = column := by rw [indent, hindents]
    refine ⟨s.count, ?_⟩
    rw [roll, hflow, if_neg (by simp [hindent]), ← htokens, ← hindents]
  | new h =>
    have hlt : s.indent < column := by
      rw [indent, hindents]
      cases is with
      | nil => exact Int.lt_of_lt_of_le (by decide) (Int.natCast_nonneg column)
      | cons i is => exact Int.ofNat_lt.mpr (h i rfl)
    refine ⟨s.count + 1, ?_⟩
    have hbehind : s.count - index = pre.length := by omega
    rw [roll, hflow, if_pos (by simpa using hlt), insertBefore, hbehind, htokens, hindents,
      List.take_left, List.drop_left]

/-- Once it has come to the column and opened a list or map there, unless one is open, the scanner has these tokens
and has this open. -/
def Ready (s : Scan) (column : Nat) (t : Token) (ts : List Token) (is : List Nat) : Prop :=
  ∃ ts' is', s.Open column ts' is' ∧ Rolled column t ts' is' ts is

/-! ## Tokens -/

/-- The next token of the scanner, which is not the end of the text. -/
def Next (fuel : Nat) (s s' : Scan) : Prop := s.fetch fuel = some s' ∧ ∀ ts, s'.tokens ≠ .textEnd :: ts

theorem Next.of_head {s' : Scan} {t : Token} (hfetch : s.fetch fuel = some s') (htokens : s'.tokens = t :: ts)
    (ht : t ≠ .textEnd) : Next fuel s s' :=
  ⟨hfetch, fun _ h => ht (List.cons.inj (htokens.symm.trans h)).1⟩

/-- The dash of an item, and the item on the same line. -/
theorem next_dash {column : Nat} (h : s.Faces fuel column ('-' :: ' ' :: x :: cs))
    (hready : s.Ready column .listStart ts (column :: is)) (hx : StartsToken x) (hf : 1 < fuel) :
    ∃ s', Next fuel s s' ∧ s'.Faces fuel (column + 2) (x :: cs) ∧
      s'.Open (column + 2 : Nat) (.dash :: ts) (column :: is) := by
  obtain ⟨c, hskip, hrest, rfl⟩ := h
  obtain ⟨ts', is', ho, hroll⟩ := hready
  obtain ⟨count, hfetch, hsettled⟩ :=
    fetch_eq_facing ho (by simp [StartsToken, isBlank, isBreak]) hskip hrest (by omega)
  rw [hsettled.fetch_dash hrest] at hfetch
  obtain ⟨count', hroll'⟩ :=
    roll_eq (s := facing c ts' count is' true) count [] hroll rfl rfl rfl rfl
  have hnext := Cursor.next_behind hrest (by decide)
  obtain ⟨d, hspace, hd, hcolumn⟩ := skipToToken_spaces 1 fuel
    (s := facing c.next (.dash :: ts) (count' + 1) (c.column :: is) true) hx hnext.rest hf
  refine ⟨facing c.next (.dash :: ts) (count' + 1) (c.column :: is) true,
    .of_head ?_ rfl (by simp), ⟨d, hspace, hd, ?_⟩, .of_le rfl ?_⟩
  · rw [hfetch, fetchDash]
    have hcount : (facing c ts' count is' true).count = count := rfl
    have hcursor : (facing c ts' count is' true).cursor = c := rfl
    rw [hcount, hcursor, hroll']
    rfl
  · rw [hcolumn]
    exact congrArg (· + 1) hnext.column
  · rintro _ ⟨⟩
    omega

/-- The scanner behind a plain scalar that may turn out to be a key. -/
def keyed (key : Candidate) (c : Cursor) (k : String) (ts : List Token) (is : List Nat) : Scan :=
  { cursor := c, tokens := .scalar k true :: ts, count := key.index + 1, indents := is, candidates := [some key]
    keyAllowed := false }

/-- The text of a key. -/
theorem fetch_keyText {column : Nat} {ks : List Char} {y : Char} (h : s.Faces fuel column (ks ++ ':' :: y :: cs))
    (ho : s.Open column ts is) (hks : PlainText ks) (hmark : ∀ x ∈ ks.head?, x ≠ '-' ∧ x ≠ '.')
    (hy : isBlank y = true ∨ isBreak y = true) (hf : ks.length + 2 ≤ fuel) :
    ∃ key c, s.fetch fuel = some (keyed key c (String.ofList ks) ts is) ∧ key.line = c.line ∧ key.column = column ∧
      c.rest = ':' :: y :: cs ∧ c.column = column + ks.length := by
  obtain ⟨x, xs, rfl, hblank, -⟩ := id hks.first
  obtain ⟨-, hhash, hbreak⟩ := hks.chars x List.mem_cons_self
  obtain ⟨c, hskip, hrest, rfl⟩ := h
  obtain ⟨count, hfetch, hsettled⟩ := fetch_eq_facing ho ⟨hblank, hbreak, hhash⟩ hskip hrest (by omega)
  have hmarker : c.isMarker = false := by
    simp [Cursor.isMarker, hrest, hmark x rfl]
  rw [hsettled.fetch_plain hks hrest hmarker rfl] at hfetch
  have hends : EndsPlain (facing c ts count is true).indent (':' :: y :: cs) := .colon rfl hy
  obtain ⟨d, hread, hbehind⟩ := readPlain_text hends fuel (x :: xs) [] c hks.toPlainChars hrest hf
  generalize hkey : (facing c ts count is true).saveCandidate = saved at *
  obtain ⟨key, rfl, hindex, hline, hcolumn⟩ : ∃ key : Candidate,
      saved = some { facing c ts count is true with candidates := [some key] } ∧ key.index = count ∧
        key.line = c.line ∧ key.column = c.column := ⟨_, hkey.symm, rfl, rfl, rfl⟩
  refine ⟨key, d, ?_, hline.trans hbehind.line.symm, hcolumn, hbehind.rest, hbehind.column⟩
  rw [hfetch, fetchPlain, hkey, keyed, hindex]
  exact congrArg (fun r : List Char × Cursor => some (push (.scalar (String.ofList r.1) true) (allowKey false
    { facing c ts count is true with candidates := [some key], cursor := r.2 }))) hread

/-- The scanner stands behind the colon of an entry. -/
structure AtValue (s : Scan) (column : Nat) (ts : List Token) (is : List Nat) (cs : List Char) : Prop where
  candidates : s.candidates = [none]
  tokens : s.tokens = ts
  indents : s.indents = column :: is
  noKey : s.keyAllowed = false
  rest : s.cursor.rest = cs
  inside : column < s.cursor.column

/-- The colon shows that there was a key, so that the marks in front of it are put in afterwards. -/
theorem next_colon {key : Candidate} {c : Cursor} {k : String} {ts' : List Token} {is' : List Nat}
    (hline : key.line = c.line) (hcolumn : key.column ≤ c.column) (hle : ∀ i ∈ is.head?, i ≤ c.column)
    (hroll : Rolled key.column .mapStart ts is ts' (key.column :: is')) (hrest : c.rest = ':' :: cs)
    (hcs : endsWord cs = true) (hf : 0 < fuel) : ∃ s', Next fuel (keyed key c k ts is) s' ∧
      s'.AtValue key.column (.valueMark :: .scalar k true :: .keyMark :: ts') is' cs := by
  obtain ⟨fuel, rfl⟩ := Nat.exists_eq_add_of_le' hf
  have hsettled : (keyed key c k ts is).Settled (fuel + 1) := by
    refine ⟨skipToToken_here (by simp [StartsToken, isBlank, isBreak]) hrest, ?_, ?_⟩
    · simp [keyed, dropStale, hline]
    · exact unroll_eq_self rfl fun i hi => Int.ofNat_le.mpr (hle i hi)
  obtain ⟨count, hroll'⟩ := roll_eq (s := (keyed key c k ts is).insertBefore key.index .keyMark) key.index
    [.scalar k true, .keyMark] hroll rfl (by simp [keyed, insertBefore]) rfl (by simp [keyed, insertBefore])
  have hnext := Cursor.next_behind hrest (by decide)
  refine ⟨facing c.next (.valueMark :: .scalar k true :: .keyMark :: ts') (count + 1) (key.column :: is') false,
    .of_head ?_ rfl (by simp), rfl, rfl, rfl, rfl, hnext.rest, ?_⟩
  · rw [hsettled.fetch_colon hrest hcs]
    exact congrArg
      (fun r : Scan => some (push .valueMark (allowKey false (skip 1 { r with candidates := [none] })))) hroll'
  · exact Nat.lt_of_le_of_lt hcolumn (by rw [facing, hnext.column]; exact Nat.lt_succ_self _)

/-- The key of an entry and its colon. -/
theorem next_key {column : Nat} {ks : List Char} (h : s.Faces fuel column (ks ++ ':' :: cs))
    (hready : s.Ready column .mapStart ts (column :: is)) (hks : PlainText ks)
    (hmark : ∀ x ∈ ks.head?, x ≠ '-' ∧ x ≠ '.')
    (hcs : ∃ x xs, cs = x :: xs ∧ (isBlank x = true ∨ isBreak x = true))
    (hf : ks.length + 2 ≤ fuel) : ∃ s₁ s₂, Next fuel s s₁ ∧ Next fuel s₁ s₂ ∧
      s₂.AtValue column (.valueMark :: .scalar (String.ofList ks) true :: .keyMark :: ts) is cs := by
  obtain ⟨ts', is', ho, hroll⟩ := hready
  obtain ⟨y, ys, rfl, hy⟩ := hcs
  obtain ⟨key, c, hfetch, hline, rfl, hrest, hcolumn⟩ := fetch_keyText h ho hks hmark hy hf
  have hle : ∀ i ∈ is'.head?, i ≤ c.column := fun i hi => by
    have := ho.head_le hi
    omega
  obtain ⟨s₂, hnext, hvalue⟩ := next_colon hline (by omega) hle hroll hrest (by simpa [endsWord] using hy)
    (Nat.lt_of_lt_of_le (Nat.succ_pos _) hf)
  exact ⟨_, s₂, .of_head hfetch rfl (by simp), hnext, hvalue⟩

/-- A value on the line of its key. -/
theorem AtValue.fetch_eq_facing {column : Nat} (h : s.AtValue column ts is (' ' :: x :: cs)) (hx : StartsToken x)
    (hf : 1 < fuel) : ∃ c count, s.fetch fuel = (facing c ts count (column :: is) false).fetch fuel ∧
      Settled fuel (facing c ts count (column :: is) false) ∧ c.rest = x :: cs ∧ column < c.column := by
  obtain ⟨c, hskip, hrest, hcolumn⟩ := skipToToken_spaces 1 fuel hx h.rest hf
  have hinside := h.inside
  have ho : s.Open c.column ts (column :: is) := by
    rw [← h.tokens, ← h.indents]
    refine .of_le h.candidates ?_
    rw [h.indents]
    rintro _ ⟨⟩
    omega
  rw [← h.noKey]
  obtain ⟨count, hfetch, hsettled⟩ := Scan.fetch_eq_facing ho hx hskip hrest (by omega)
  exact ⟨c, count, hfetch, hsettled, hrest, by omega⟩

theorem open_facing {column : Nat} (c : Cursor) (ts : List Token) (count : Nat) (is : List Nat) (allowed : Bool) :
    (facing c ts count (column :: is) allowed).Open column ts (column :: is) := by
  refine .of_le rfl ?_
  rintro _ ⟨⟩
  exact Int.le_refl _

/-- The scanner stands behind a value, all of which is closed. -/
def Behind (fuel : Nat) (s : Scan) (column : Nat) (ts : List Token) (is : List Nat) (tail : List Char) : Prop :=
  ∃ s', Next fuel s s' ∧ s'.Rests tail ∧ s'.Open column ts (column :: is)

variable {level : Nat}

theorem next_block (hcs : KeptBlock cs) (h : s.AtValue (2 * level) ts is (' ' :: (literalBlock level cs ++ tail)))
    (htail : Below (2 * level) tail) (hf : (literalBlock level cs ++ tail).length < fuel) :
    Behind fuel s (2 * level) (.scalar (String.ofList cs) false :: ts) is tail := by
  have hpos : 0 < (literalBlock level cs ++ tail).length := Nat.succ_pos _
  obtain ⟨c, count, hfetch, hsettled, hrest, -⟩ :=
    h.fetch_eq_facing (x := '|') (by simp [StartsToken, isBlank, isBreak]) (Nat.lt_of_le_of_lt hpos hf)
  have hnext := Cursor.next_behind hrest (by decide)
  have hlen : c.next.rest.length < fuel := by
    rw [hnext.rest]
    exact Nat.lt_of_succ_lt hf
  obtain ⟨d, hread, hended⟩ := readBlock_literal hcs htail (by rw [hnext.rest]; rfl) hlen
  refine ⟨facing d (.scalar (String.ofList cs) false :: ts) (count + 1) (2 * level :: is) true,
    .of_head ?_ rfl (by simp), .below hended rfl, open_facing ..⟩
  rw [hfetch, hsettled.fetch_bar hrest rfl, fetchBlock, dropCandidate_none rfl]
  simp only [Option.bind_eq_bind, Option.bind_some]
  rw [show (facing c ts count (2 * level :: is) false).indent = ((2 * level : Nat) : Int) from rfl,
    show (facing c ts count (2 * level :: is) false).cursor = c from rfl, hread]
  rfl

theorem next_quoted {column : Nat} (h : s.AtValue column ts is (' ' :: '"' :: (cs.flatMap escape ++ '"' :: tail)))
    (hf : cs.length + 1 < fuel) : Behind fuel s column (.scalar (String.ofList cs) false :: ts) is tail := by
  obtain ⟨c, count, hfetch, hsettled, hrest, -⟩ :=
    h.fetch_eq_facing (x := '"') (by simp [StartsToken, isBlank, isBreak])
      (Nat.lt_of_le_of_lt (Nat.le_add_left ..) hf)
  have hnext := Cursor.next_behind hrest (by decide)
  obtain ⟨d, hread, hd⟩ := readDouble_escaped column fuel cs [] c.next hnext.rest (Nat.lt_of_succ_lt hf)
  refine ⟨facing d (.scalar (String.ofList cs) false :: ts) (count + 1) (column :: is) false,
    .of_head ?_ rfl (by simp), .here hd, open_facing ..⟩
  have hsave : (facing c ts count (column :: is) false).saveCandidate
      = some (facing c ts count (column :: is) false) := rfl
  rw [hfetch, hsettled.fetch_quote hrest, fetchQuoted, hsave]
  simp only [Option.bind_eq_bind, Option.bind_some]
  rw [show (facing c ts count (column :: is) false).indent = (column : Int) from rfl,
    show (facing c ts count (column :: is) false).cursor = c from rfl, hread]
  rfl

theorem next_plain {column : Nat} (hcs : PlainText cs) (h : s.AtValue column ts is (' ' :: (cs ++ tail)))
    (htail : Below column tail) (hf : cs.length + 2 ≤ fuel) :
    Behind fuel s column (.scalar (String.ofList cs) true :: ts) is tail := by
  obtain ⟨x, xs, rfl, hblank, -⟩ := id hcs.first
  obtain ⟨-, hhash, hbreak⟩ := hcs.chars x List.mem_cons_self
  obtain ⟨c, count, hfetch, hsettled, hrest, hinside⟩ := h.fetch_eq_facing ⟨hblank, hbreak, hhash⟩
    (Nat.lt_of_lt_of_le (Nat.lt_add_of_pos_left (Nat.succ_pos _)) hf)
  have hends : EndsPlain (column : Int) tail := .below htail (Int.le_refl _)
  obtain ⟨d, hread, hbehind⟩ := readPlain_text hends fuel (x :: xs) [] c hcs.toPlainChars hrest hf
  refine ⟨facing d (.scalar (String.ofList (x :: xs)) true :: ts) (count + 1) (column :: is) false,
    .of_head ?_ rfl (by simp), .here hbehind.rest, open_facing ..⟩
  have hmarker : c.isMarker = false := Cursor.isMarker_eq_false (by omega)
  have hsave : (facing c ts count (column :: is) false).saveCandidate
      = some (facing c ts count (column :: is) false) := rfl
  rw [hfetch, hsettled.fetch_plain hcs hrest hmarker rfl, fetchPlain, hsave]
  exact congrArg (fun r : List Char × Cursor => some (push (.scalar (String.ofList r.1) true) (allowKey false
    { facing c ts count (column :: is) false with cursor := r.2 }))) hread

/-- **A text is one token**, whatever form it takes. -/
theorem next_text {str : String} (hstr : Kept str)
    (h : s.AtValue (2 * level) ts is (' ' :: (text level str ++ tail))) (htail : Below (2 * level) tail)
    (hf : (text level str ++ tail).length + 2 ≤ fuel) :
    Behind fuel s (2 * level) (.scalar str (isPlain str) :: ts) is tail := by
  have hofList : String.ofList str.toList = str := String.ofList_toList
  by_cases hline : '\n' ∈ str.toList
  · have hcontains : str.toList.contains '\n' = true := by simpa using hline
    rw [Kept, if_pos hline] at hstr
    rw [text, hcontains, if_pos rfl] at h hf
    have hblock := next_block hstr h htail (Nat.lt_of_succ_lt hf)
    rwa [hofList, ← show isPlain str = false by rw [isPlain, hcontains]; rfl] at hblock
  have hcontains : str.toList.contains '\n' = false := by simpa using hline
  rw [Kept, if_neg hline] at hstr
  rw [text, hcontains, if_neg (by decide)] at h hf
  cases hquotes : needsQuotes str with
  | true =>
    rw [hquotes, if_pos rfl, doubleQuoted] at h hf
    have hlen : str.toList.length + 1 < fuel := by
      have := length_le_flatMap_escape str.toList
      simp only [List.cons_append, List.length_cons, List.length_append] at hf
      omega
    have hquoted : Behind fuel s (2 * level) (.scalar (String.ofList str.toList) false :: ts) is tail :=
      next_quoted (by simpa using h) hlen
    rwa [hofList, ← show isPlain str = false by rw [isPlain, hquotes, Bool.not_true, Bool.and_false]] at hquoted
  | false =>
    rw [hquotes, if_neg (by decide)] at h hf
    rw [List.length_append] at hf
    have hplain := next_plain (plainText_of_kept hline hquotes (hstr hquotes)) h htail
      (Nat.le_trans (Nat.add_le_add_right (Nat.le_add_right ..) 2) hf)
    rwa [hofList, ← show isPlain str = true by rw [isPlain, hcontains, hquotes]; rfl] at hplain

/-- The scanner behind an opening bracket. -/
def bracketed (c : Cursor) (ts : List Token) (count : Nat) (is : List Nat) : Scan :=
  { cursor := c, tokens := .openBracket :: ts, count := count, indents := is, candidates := [none, none]
    keyAllowed := true }

theorem next_brackets {column : Nat} (h : s.AtValue column ts is (' ' :: '[' :: ']' :: tail)) (hf : 1 < fuel) :
    ∃ s₁, Next fuel s s₁ ∧ Behind fuel s₁ column (.closeBracket :: .openBracket :: ts) is tail := by
  obtain ⟨c, count, hfetch, hsettled, hrest, -⟩ :=
    h.fetch_eq_facing (x := '[') (by simp [StartsToken, isBlank, isBreak]) hf
  have hinside := Cursor.next_behind hrest (by decide)
  have hbehind := Cursor.next_behind hinside.rest (by decide)
  have hsettled₁ : (bracketed c.next ts (count + 1) (column :: is)).Settled fuel := by
    obtain ⟨fuel, rfl⟩ := Nat.exists_eq_add_of_le' (Nat.lt_of_succ_lt hf)
    exact ⟨skipToToken_here (by simp [StartsToken, isBlank, isBreak]) hinside.rest, rfl, rfl⟩
  refine ⟨bracketed c.next ts (count + 1) (column :: is), .of_head ?_ rfl (by simp),
    facing c.next.next (.closeBracket :: .openBracket :: ts) (count + 2) (column :: is) false,
    .of_head ?_ rfl (by simp), .here hbehind.rest, open_facing ..⟩
  · rw [hfetch, hsettled.fetch_openBracket hrest]
    rfl
  · rw [hsettled₁.fetch_closeBracket hinside.rest]
    rfl

/-- The end of the text closes what is open. -/
theorem fetch_end {column i : Nat} (h : s.cursor.rest = []) (ho : s.Open column ts [i]) (hf : 0 < fuel) :
    ∃ s', s.fetch fuel = some s' ∧ s'.tokens = .textEnd :: .blockEnd :: ts := by
  obtain ⟨fuel, rfl⟩ := Nat.exists_eq_add_of_le' hf
  have hclosed : s.Open (-1) (.blockEnd :: ts) [] := ho.close (by omega) (by omega) nofun
  have hskip : skipToToken (fuel + 1) s = some s := by
    rw [skipToToken, h]
  have hrest : (s.unroll s.cursor.column).cursor.rest = [] := by
    rw [unroll_eq ho.candidates]
    exact h
  refine ⟨(s.unroll (-1)).push .textEnd, ?_, ?_⟩
  · rw [fetch, hskip]
    simp only [Option.bind_eq_bind, Option.bind_some, dropStale_none ho.candidates, hrest]
    rw [fetchEnd, unroll_unroll ho.candidates (by omega), dropCandidate_none (unroll_candidates ho.candidates)]
    rfl
  · rw [push, hclosed.tokens]

/-! ## Runs -/

/-- So many tokens, none of which is the end of the text. -/
inductive Fetches (fuel : Nat) : Nat → Scan → Scan → Prop
  | refl (s : Scan) : Fetches fuel 0 s s
  | step {n : Nat} {s s' s'' : Scan} (h : Next fuel s s') (more : Fetches fuel n s' s'') :
    Fetches fuel (n + 1) s s''

theorem Fetches.trans {m n : Nat} {s s' s'' : Scan} (h : Fetches fuel m s s') (h' : Fetches fuel n s' s'') :
    Fetches fuel (m + n) s s'' := by
  induction h with
  | refl => rwa [Nat.zero_add]
  | step hnext _ ih =>
    rw [Nat.add_right_comm]
    exact .step hnext (ih h')

theorem Fetches.run_eq {n : Nat} {s s' : Scan} (h : Fetches fuel n s s') (steps : Nat) :
    run fuel (n + steps) s = run fuel steps s' := by
  induction h with
  | refl => rw [Nat.zero_add]
  | step hnext _ ih =>
    rw [Nat.add_right_comm, run, hnext.1]
    split
    · contradiction
    · rename_i heq
      obtain rfl := Option.some.inj heq
      split
      · exact absurd ‹_› (hnext.2 _)
      · exact ih

end Scan

end StageFlow.Yaml
