import Mathlib.Data.List.Forall2
import StageFlow.FileFormat

/-!
# Names of files

A path is cut at its slashes to find the name of the file, and the name is cut at its last dot. Here both are
said of the way in which the path is written: what stands before its last component, what may stand behind
it, and where the dot is.

## Contents
- **Components.** `LastComponent`, and that cutting at slashes finds it.
- **Extensions.** `HasExtension`, what stands behind the last dot of the last component.
- **Letters.** `Spells`, a word in letters of either case.
- **Formats.** `FileFormat.extension_decides`.
-/

namespace StageFlow

variable {path c ext : List Char}

/-! ## Components -/

/-- What may stand behind the last component of a path: slashes, and single dots between and behind them. -/
inductive Trailing : List Char → Prop
  | nil : Trailing []
  | slash {rest : List Char} : Trailing rest → Trailing ('/' :: rest)
  | dot {rest : List Char} : Trailing rest → Trailing ('/' :: '.' :: rest)

/-- The last component of a path that does not stay in the same directory. It begins the path or stands
behind a slash, and nothing but slashes and single dots stands behind it. -/
structure LastComponent (path c : List Char) : Prop where
  ne_nil : c ≠ []
  ne_dot : c ≠ ['.']
  noSlash : '/' ∉ c
  written : ∃ front back, path = front ++ c ++ back ∧ (front = [] ∨ ['/'] <:+ front) ∧ Trailing back

/-- A slash separates the components before it from those behind it. -/
theorem components_slash (front rest : List Char) :
    components (front ++ '/' :: rest) = components front ++ components rest := by
  unfold components
  rw [List.splitOn_append_cons_self, List.filter_append]

theorem components_of_noSlash (h : '/' ∉ c) (hnil : c ≠ []) (hdot : c ≠ ['.']) : components c = [c] := by
  unfold components
  rw [List.splitOn_eq_singleton h]
  simp [hnil, hdot]

@[simp] theorem components_nil : components [] = [] := rfl

@[simp] theorem components_dot : components ['.'] = [] := rfl

/-- Slashes and single dots add no component. -/
theorem Trailing.components_append {back : List Char} (h : Trailing back) (path : List Char) :
    components (path ++ back) = components path := by
  induction h generalizing path with
  | nil => rw [List.append_nil]
  | slash _ ih =>
    have hrest := ih []
    rw [List.nil_append, components_nil] at hrest
    rw [components_slash, hrest, List.append_nil]
  | dot _ ih =>
    have hrest := ih ['.']
    rw [List.singleton_append, components_dot] at hrest
    rw [components_slash, hrest, List.append_nil]

namespace LastComponent

/-- A component stays the last one when more is put before it, up to a slash. -/
theorem behind (h : LastComponent path c) (dirs : List Char) : LastComponent (dirs ++ '/' :: path) c where
  ne_nil := h.ne_nil
  ne_dot := h.ne_dot
  noSlash := h.noSlash
  written := by
    obtain ⟨front, back, rfl, hfront, hback⟩ := h.written
    refine ⟨dirs ++ '/' :: front, back, by simp, Or.inr ?_, hback⟩
    rcases hfront with rfl | ⟨before, rfl⟩
    · exact List.suffix_append dirs ['/']
    · exact ⟨dirs ++ '/' :: before, by simp⟩

/-- Cutting at slashes finds the last component. -/
theorem getLast?_eq (h : LastComponent path c) : (components path).getLast? = some c := by
  obtain ⟨front, back, rfl, hfront, hback⟩ := h.written
  have hc : components c = [c] := components_of_noSlash h.noSlash h.ne_nil h.ne_dot
  rw [hback.components_append]
  rcases hfront with rfl | ⟨dirs, rfl⟩
  · rw [List.nil_append, hc, List.getLast?_singleton]
  · rw [List.append_assoc, List.singleton_append, components_slash, hc, List.getLast?_concat]

end LastComponent

/-- What holds of a path without a slash, and of a path if it holds of what stands behind its first slash,
holds of every path. -/
theorem pathInduction {P : List Char → Prop} (last : ∀ c, '/' ∉ c → P c)
    (step : ∀ c path, '/' ∉ c → P path → P (c ++ '/' :: path)) (path : List Char) : P path := by
  -- the part of the first component that has been read is generalized
  suffices h : ∀ read, '/' ∉ read → P (read ++ path) from h [] List.not_mem_nil
  induction path with
  | nil =>
    intro read hread
    rw [List.append_nil]
    exact last read hread
  | cons x xs ih =>
    intro read hread
    by_cases hx : x = '/'
    · rw [hx]
      exact step read xs hread (ih [] List.not_mem_nil)
    · rw [List.append_cons]
      refine ih (read ++ [x]) ?_
      rw [List.mem_append, List.mem_singleton]
      rintro (h | h)
      · exact hread h
      · exact hx h.symm

/-- A path has a last component, unless it is slashes and single dots only. -/
theorem trailing_or_lastComponent (path : List Char) :
    Trailing ('/' :: path) ∨ ∃ c, LastComponent path c := by
  induction path using pathInduction with
  | last c hc =>
    by_cases hnil : c = []
    · exact Or.inl (hnil ▸ .slash .nil)
    · by_cases hdot : c = ['.']
      · exact Or.inl (hdot ▸ .dot .nil)
      · exact Or.inr ⟨c, hnil, hdot, hc, [], [], by simp, Or.inl rfl, .nil⟩
  | step c path hc ih =>
    rcases ih with hrest | ⟨d, hd⟩
    · by_cases hnil : c = []
      · exact Or.inl (hnil ▸ .slash hrest)
      · by_cases hdot : c = ['.']
        · exact Or.inl (hdot ▸ .dot hrest)
        · exact Or.inr ⟨c, hnil, hdot, hc, [], '/' :: path, by simp, Or.inl rfl, hrest⟩
    · exact Or.inr ⟨d, hd.behind c⟩

/-- **Cutting at slashes finds the last component** of a path, and nothing where there is none. -/
theorem getLast?_components : (components path).getLast? = some c ↔ LastComponent path c := by
  constructor
  · intro h
    rcases trailing_or_lastComponent path with htrailing | ⟨d, hd⟩
    · have hnil := htrailing.components_append []
      rw [List.nil_append, ← List.nil_append ('/' :: path), components_slash, components_nil,
        List.nil_append] at hnil
      rw [hnil] at h
      exact absurd h (by simp)
    · rw [hd.getLast?_eq] at h
      exact Option.some.inj h ▸ hd
  · exact LastComponent.getLast?_eq

/-! ## Extensions -/

/-- What stands behind the last dot of the last component of a path. There is none if the component is the
parent directory, or has no dot but the one it begins with. -/
def HasExtension (path ext : List Char) : Prop :=
  ∃ c, LastComponent path c ∧ c ≠ ['.', '.']
    ∧ ∃ stem, c = stem ++ '.' :: ext ∧ stem ≠ [] ∧ '.' ∉ ext

/-- The parent directory is the name of no file. -/
theorem baseName?_eq_some : baseName? path = some c ↔ LastComponent path c ∧ c ≠ ['.', '.'] := by
  unfold baseName?
  rw [Option.filter_eq_some_iff, getLast?_components, decide_eq_true_iff]

/-- A dot behind the first character is the last one or has it behind it. -/
theorem mem_tail_iff_exists_stem :
    '.' ∈ c.tail ↔ ∃ stem ext, c = stem ++ '.' :: ext ∧ stem ≠ [] ∧ '.' ∉ ext := by
  constructor
  · intro h
    have hmem : '.' ∈ c.reverse := List.mem_reverse.mpr (List.mem_of_mem_tail h)
    obtain ⟨ext, stem, hsplit, hext⟩ := List.eq_append_cons_of_mem hmem
    have hc : c = stem.reverse ++ '.' :: ext.reverse := by
      rw [← List.reverse_reverse c, hsplit]
      simp
    refine ⟨stem.reverse, ext.reverse, hc, ?_, by simpa using hext⟩
    intro hstem
    rw [hc, hstem] at h
    exact hext (by simpa using h)
  · rintro ⟨stem, ext, rfl, hstem, -⟩
    cases stem with
    | nil => exact absurd rfl hstem
    | cons x stem => simp

/-- What is read from the back up to a dot is what stands behind the last dot. -/
theorem takeWhile_reverse {stem : List Char} (h : '.' ∉ ext) :
    ((stem ++ '.' :: ext).reverse.takeWhile (· ≠ '.')).reverse = ext := by
  have hall : ∀ x ∈ ext.reverse, (decide (x ≠ '.')) = true := by
    intro x hx
    rw [decide_eq_true_iff]
    rintro rfl
    exact h (List.mem_reverse.mp hx)
  rw [List.reverse_append, List.reverse_cons, List.append_assoc, List.takeWhile_append_of_pos hall]
  simp

theorem extension?_eq_some : extension? path = some ext ↔ HasExtension path ext := by
  have hbind : extension? path = (baseName? path).bind fun name =>
      if (name.drop 1).contains '.' then some (name.reverse.takeWhile (· ≠ '.')).reverse else none := rfl
  rw [hbind, Option.bind_eq_some_iff]
  constructor
  · rintro ⟨c, hc, hext⟩
    obtain ⟨hlast, hparent⟩ := baseName?_eq_some.mp hc
    split at hext
    · rename_i hdot
      rw [List.contains_iff_mem, List.drop_one] at hdot
      obtain ⟨stem, e, rfl, hstem, he⟩ := mem_tail_iff_exists_stem.mp hdot
      rw [takeWhile_reverse he] at hext
      exact ⟨_, hlast, hparent, stem, Option.some.inj hext ▸ rfl, hstem, Option.some.inj hext ▸ he⟩
    · exact absurd hext (by simp)
  · rintro ⟨c, hlast, hparent, stem, rfl, hstem, hext⟩
    refine ⟨_, baseName?_eq_some.mpr ⟨hlast, hparent⟩, ?_⟩
    have hdot : ((stem ++ '.' :: ext).drop 1).contains '.' = true := by
      rw [List.contains_iff_mem, List.drop_one]
      exact mem_tail_iff_exists_stem.mpr ⟨stem, ext, rfl, hstem, hext⟩
    rw [if_pos hdot, takeWhile_reverse hext]

/-- A path has no extension if its last component has none, or there is no such component. -/
theorem extension?_eq_none :
    extension? path = none ↔ ∀ c, LastComponent path c → c = ['.', '.'] ∨ '.' ∉ c.tail := by
  rw [Option.eq_none_iff_forall_ne_some]
  constructor
  · intro h c hc
    by_contra hdot
    rw [not_or, not_not] at hdot
    obtain ⟨stem, ext, hsplit, hstem, hext⟩ := mem_tail_iff_exists_stem.mp hdot.2
    exact h ext (extension?_eq_some.mpr ⟨c, hc, hdot.1, stem, hsplit, hstem, hext⟩)
  · intro h ext hext
    obtain ⟨c, hc, hparent, stem, hsplit, hstem, hext⟩ := extension?_eq_some.mp hext
    rcases h c hc with hdots | hdot
    · exact hparent hdots
    · exact hdot (mem_tail_iff_exists_stem.mpr ⟨stem, ext, hsplit, hstem, hext⟩)

/-! ## Letters -/

/-- A word of small letters, each of which may be written as a capital. -/
def Spells (letters : List Char) (word : String) : Prop :=
  List.Forall₂ (fun c w => c = w ∨ c = w.toUpper) letters word.toList

/-- Made small, a character is a small letter if it is that letter or its capital. -/
theorem toLower_eq_iff {a w : Char} (hw : w.isLower = true) : a.toLower = w ↔ a = w ∨ a = w.toUpper := by
  have hletter : 'a'.val ≤ w.val ∧ w.val ≤ 'z'.val := by
    have hrange : (decide ('a'.val ≤ w.val) && decide (w.val ≤ 'z'.val)) = true := hw
    rwa [Bool.and_eq_true, decide_eq_true_iff, decide_eq_true_iff] at hrange
  have hcapital : w.toUpper.val = w.val + ('A'.val - 'a'.val) := by
    show (dite _ _ _ : Char).val = _
    rw [dif_pos hletter]
  have hsmall : a.toLower.val
      = if 'A'.val ≤ a.val ∧ a.val ≤ 'Z'.val then a.val + ('a'.val - 'A'.val) else a.val := by
    show (dite _ _ _ : Char).val = _
    split <;> rfl
  rw [Char.ext_iff, Char.ext_iff, Char.ext_iff, hcapital, hsmall]
  split <;> grind

/-- A word is spelled in letters of either case if making them small gives it. -/
theorem spells_iff {letters : List Char} {word : String} (hword : word.toList.all Char.isLower = true) :
    Spells letters word ↔ String.ofList (letters.map Char.toLower) = word := by
  have hlist : ∀ ws : List Char, ws.all Char.isLower = true →
      (List.Forall₂ (fun c w => c = w ∨ c = w.toUpper) letters ws ↔ letters.map Char.toLower = ws) := by
    intro ws hws
    induction letters generalizing ws with
    | nil => rw [List.forall₂_nil_left_iff, List.map_nil, eq_comm]
    | cons a letters ih =>
      cases ws with
      | nil => simp
      | cons w ws =>
        rw [List.all_cons, Bool.and_eq_true] at hws
        rw [List.forall₂_cons, List.map_cons, List.cons.injEq, toLower_eq_iff hws.1, ih ws hws.2]
  rw [Spells, hlist _ hword]
  constructor
  · intro h
    rw [h, String.ofList_toList]
  · intro h
    rw [← h, String.toList_ofList]

/-! ## Formats -/

namespace FileFormat

theorem ofExtension?_eq_yaml : ofExtension? ext = some yaml ↔ Spells ext "yaml" ∨ Spells ext "yml" := by
  rw [spells_iff rfl, spells_iff rfl]
  unfold ofExtension?
  grind

theorem ofExtension?_eq_json : ofExtension? ext = some json ↔ Spells ext "json" := by
  rw [spells_iff rfl]
  unfold ofExtension?
  grind

theorem ofExtension?_eq_none :
    ofExtension? ext = none ↔ ¬ (Spells ext "yaml" ∨ Spells ext "yml") ∧ ¬ Spells ext "json" := by
  rw [← ofExtension?_eq_yaml, ← ofExtension?_eq_json, Option.eq_none_iff_forall_ne_some]
  constructor
  · intro h
    exact ⟨h yaml, h json⟩
  · rintro ⟨hyaml, hjson⟩ f
    cases f with
    | yaml => exact hyaml
    | json => exact hjson

variable {name : String}

theorem ofName_eq_missing : ofName name = .error .missing ↔ extension? name.toList = none := by
  unfold ofName
  cases extension? name.toList with
  | none => simp
  | some ext => cases hf : ofExtension? ext <;> simp [hf]

theorem ofName_eq_ok {f : FileFormat} :
    ofName name = .ok f ↔ ∃ ext, extension? name.toList = some ext ∧ ofExtension? ext = some f := by
  unfold ofName
  cases extension? name.toList with
  | none => simp
  | some ext => cases hf : ofExtension? ext <;> simp [hf]

/-- The fault of an extension that is not supported has the name as it was given. -/
theorem ofName_eq_unsupported {given : String} :
    ofName name = .error (.unsupported given)
      ↔ given = name ∧ ∃ ext, extension? name.toList = some ext ∧ ofExtension? ext = none := by
  unfold ofName
  cases extension? name.toList with
  | none => simp
  | some ext => cases hf : ofExtension? ext <;> simp [hf, eq_comm]

/-- The answer for a name, given the answer for another name with the same last component. -/
def rename (name : String) : Except ExtensionFault FileFormat → Except ExtensionFault FileFormat
  | .ok f => .ok f
  | .error .missing => .error .missing
  | .error (.unsupported _) => .error (.unsupported name)

/-- Names with the same last component get the same answer, each with its own name in it. -/
theorem ofName_congr {other : String}
    (h : (components name.toList).getLast? = (components other.toList).getLast?) :
    ofName name = rename name (ofName other) := by
  have hext : extension? name.toList = extension? other.toList := by
    unfold extension? baseName?
    rw [h]
  unfold ofName
  rw [hext]
  cases extension? other.toList with
  | none => rfl
  | some ext => cases hf : ofExtension? ext <;> simp [hf, rename]

/-- **The format of a file is told by the extension of its name.**

Cutting the name at its slashes finds its last component. If there is none, or it is the parent directory or
has no dot behind its first character, the extension is missing. Otherwise the extension is what stands behind
the last dot of that component. It is the name of a format in letters of either case, or it is not supported,
and then the fault has the name as it was given. Directories put before the name, and slashes put behind it,
do not change the answer. -/
theorem extension_decides (name : String) :
    (∀ c, LastComponent name.toList c ↔ (components name.toList).getLast? = some c)
      ∧ (ofName name = .error .missing
        ↔ ∀ c, LastComponent name.toList c → c = ['.', '.'] ∨ '.' ∉ c.tail)
      ∧ (ofName name = .ok yaml
        ↔ ∃ ext, HasExtension name.toList ext ∧ (Spells ext "yaml" ∨ Spells ext "yml"))
      ∧ (ofName name = .ok json ↔ ∃ ext, HasExtension name.toList ext ∧ Spells ext "json")
      ∧ (∀ given, ofName name = .error (.unsupported given)
        ↔ given = name ∧ ∃ ext, HasExtension name.toList ext
          ∧ ¬ (Spells ext "yaml" ∨ Spells ext "yml") ∧ ¬ Spells ext "json")
      ∧ (∀ back : String, Trailing back.toList →
        ofName (name ++ back) = rename (name ++ back) (ofName name))
      ∧ ∀ dirs : String, (∃ c, LastComponent name.toList c) →
        ofName (dirs ++ "/" ++ name) = rename (dirs ++ "/" ++ name) (ofName name) := by
  refine ⟨fun c => getLast?_components.symm, ?_, ?_, ?_, ?_, ?_, ?_⟩
  · rw [ofName_eq_missing, extension?_eq_none]
  · simp only [ofName_eq_ok, extension?_eq_some, ofExtension?_eq_yaml]
  · simp only [ofName_eq_ok, extension?_eq_some, ofExtension?_eq_json]
  · intro given
    simp only [ofName_eq_unsupported, extension?_eq_some, ofExtension?_eq_none]
  · intro back hback
    apply ofName_congr
    rw [String.toList_append, hback.components_append]
  · rintro dirs ⟨c, hc⟩
    apply ofName_congr
    have hwritten : (dirs ++ "/" ++ name).toList = dirs.toList ++ '/' :: name.toList := by
      simp
    rw [hwritten, (hc.behind dirs.toList).getLast?_eq, hc.getLast?_eq]

/-- A name with two dots and with capitals, behind the parent directory and a hidden one, and before slashes. -/
theorem extension_decides_sample :
    LastComponent "Plan.v2.YmL".toList "Plan.v2.YmL".toList
      ∧ Trailing "/.//".toList
      ∧ ofName ("../.d.json" ++ "/" ++ "Plan.v2.YmL" ++ "/.//") = .ok yaml := by
  have hlast : LastComponent "Plan.v2.YmL".toList "Plan.v2.YmL".toList :=
    ⟨by decide, by decide, by decide, [], [], by simp, Or.inl rfl, .nil⟩
  have hback : Trailing "/.//".toList := .dot (.slash (.slash .nil))
  have hspells : Spells "YmL".toList "yml" :=
    .cons (Or.inr rfl) (.cons (Or.inl rfl) (.cons (Or.inr rfl) .nil))
  obtain ⟨-, -, hyaml, -, -, -, hdirs⟩ := extension_decides "Plan.v2.YmL"
  obtain ⟨-, -, -, -, -, htrailing, -⟩ := extension_decides ("../.d.json" ++ "/" ++ "Plan.v2.YmL")
  have hname : ofName "Plan.v2.YmL" = .ok yaml :=
    hyaml.mpr ⟨"YmL".toList, ⟨_, hlast, by decide, "Plan.v2".toList, rfl, by decide, by decide⟩,
      Or.inr hspells⟩
  refine ⟨hlast, hback, ?_⟩
  rw [htrailing "/.//" hback, hdirs "../.d.json" ⟨_, hlast⟩, hname]
  rfl

end FileFormat

end StageFlow
