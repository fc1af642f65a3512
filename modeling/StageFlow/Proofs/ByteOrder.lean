/-!
# Order of texts

Texts are compared by code points from the front, and that is the order of the bytes they are written with.

The first byte of a character tells how many follow, and more follow on a greater code point. Where as many
follow, the bytes are the digits of the code point to the base 64. So the first difference between two texts
is the first one between their bytes, too.

## Contents
- **Digits.** `lead` and `trail`, the digits of a code point, and their order.
- **Characters.** `Marked`, how many bytes a character has, and `utf8EncodeChar_append_lt`.
- **Texts.** `bytes`, and `bytes_lt_iff`, which compares texts by them.
-/

namespace StageFlow.Text

/-! ## Digits -/

/-- Bytes are compared from the front. -/
theorem ofNat_cons_lt {a b : Nat} {l r : List UInt8} (hb : b < 256) (h : a < b ∨ a = b ∧ l < r) :
    UInt8.ofNat a :: l < UInt8.ofNat b :: r := by
  rw [List.cons_lt_cons_iff, UInt8.lt_iff_toNat_lt, UInt8.toNat_ofNat', UInt8.toNat_ofNat']
  rcases h with h | ⟨rfl, h⟩
  · left
    omega
  · exact Or.inr ⟨rfl, h⟩

/-- A code point without so many of its last digits to the base 64. -/
def lead : (digits point : Nat) → Nat
  | 0, point => point
  | digits + 1, point => lead digits (point / 64)

/-- The last digits of a code point to the base 64, each as a byte with its mark. -/
def trail : (digits point : Nat) → List UInt8
  | 0, _ => []
  | digits + 1, point => trail digits (point / 64) ++ [UInt8.ofNat (point % 64 + 128)]

theorem lead_le {m n : Nat} (h : m ≤ n) (k : Nat) : lead k m ≤ lead k n := by
  induction k generalizing m n with
  | zero => exact h
  | succ k ih => exact ih (Nat.div_le_div_right h)

/-- Code points that agree but for so many digits are in the order of those digits. -/
theorem trail_append_lt {k m n : Nat} (hlt : m < n) (hlead : lead k m = lead k n) (u v : List UInt8) :
    trail k m ++ u < trail k n ++ v := by
  induction k generalizing m n u v with
  | zero => exact absurd hlead (Nat.ne_of_lt hlt)
  | succ k ih =>
    rw [trail, trail, List.append_assoc, List.append_assoc, List.singleton_append, List.singleton_append]
    by_cases hrest : m / 64 = n / 64
    · rw [hrest]
      exact List.append_left_lt (ofNat_cons_lt (by omega) (Or.inl (by omega)))
    · exact ih (by omega) hlead _ _

/-! ## Characters -/

/-- How many bytes follow the first one on a code point, and the mark that the first one has for it. -/
def Marked (point k mark : Nat) : Prop :=
  k = 0 ∧ mark = 0 ∧ point < 128
    ∨ k = 1 ∧ mark = 192 ∧ 128 ≤ point ∧ point < 2048
    ∨ k = 2 ∧ mark = 224 ∧ 2048 ≤ point ∧ point < 65536
    ∨ k = 3 ∧ mark = 240 ∧ 65536 ≤ point ∧ point < 1114112

/-- A character is written as its first digits with a mark, and then the others. -/
theorem exists_marked (c : Char) :
    ∃ k mark, Marked c.val.toNat k mark
      ∧ String.utf8EncodeChar c = UInt8.ofNat (lead k c.val.toNat + mark) :: trail k c.val.toNat := by
  have hmax : c.val.toNat < 1114112 := by
    rcases c.valid with hlow | hhigh
    · omega
    · exact hhigh.2
  unfold String.utf8EncodeChar Marked
  generalize c.val.toNat = point at *
  dsimp only
  split
  · exact ⟨0, 0, by omega, by simp [lead, trail]⟩
  · split
    · have hlead : point / 64 % 32 = point / 64 := by omega
      exact ⟨1, 192, by omega, by simp [lead, trail, hlead]⟩
    · split
      · have hlead : point / 4096 % 16 = point / 4096 := by omega
        exact ⟨2, 224, by omega, by simp [lead, trail, hlead, Nat.div_div_eq_div_mul]⟩
      · have hlead : point / 262144 % 8 = point / 262144 := by omega
        exact ⟨3, 240, by omega, by simp [lead, trail, hlead, Nat.div_div_eq_div_mul]⟩

/-- The first byte is marked so that it tells how many follow: its value is in a range of its own. -/
theorem Marked.bounds {point k mark : Nat} (h : Marked point k mark) :
    k = 0 ∧ mark = 0 ∧ lead k point + mark < 128
      ∨ k = 1 ∧ mark = 192 ∧ 128 ≤ lead k point + mark ∧ lead k point + mark < 224
      ∨ k = 2 ∧ mark = 224 ∧ 224 ≤ lead k point + mark ∧ lead k point + mark < 240
      ∨ k = 3 ∧ mark = 240 ∧ 240 ≤ lead k point + mark ∧ lead k point + mark < 256 := by
  rcases h with ⟨rfl, rfl, _⟩ | ⟨rfl, rfl, _⟩ | ⟨rfl, rfl, _⟩ | ⟨rfl, rfl, _⟩
  · exact Or.inl ⟨rfl, rfl, by simpa only [lead]⟩
  · exact Or.inr (Or.inl ⟨rfl, rfl, by simp only [lead]; omega⟩)
  · exact Or.inr (Or.inr (Or.inl ⟨rfl, rfl, by simp only [lead]; omega⟩))
  · exact Or.inr (Or.inr (Or.inr ⟨rfl, rfl, by simp only [lead]; omega⟩))

/-- A greater code point has a greater first byte, or the same one and as many bytes behind it. -/
theorem Marked.lead_le {m n k j mark mark' : Nat} (hm : Marked m k mark) (hn : Marked n j mark') (hlt : m < n) :
    lead k m + mark < lead j n + mark' ∨ k = j ∧ mark = mark' ∧ lead k m = lead k n := by
  by_cases hkj : k = j
  · subst hkj
    have hmark : mark = mark' := by
      unfold Marked at hm hn
      omega
    have hle : lead k m ≤ lead k n := Text.lead_le (Nat.le_of_lt hlt) k
    omega
  · have hfewer : k < j := by
      unfold Marked at hm hn
      omega
    have hlow := hm.bounds
    have hhigh := hn.bounds
    omega

/-- The order of two characters is that of their bytes, whatever follows. -/
theorem utf8EncodeChar_append_lt {c d : Char} (h : c < d) (u v : List UInt8) :
    String.utf8EncodeChar c ++ u < String.utf8EncodeChar d ++ v := by
  obtain ⟨k, mark, hk, hc⟩ := exists_marked c
  obtain ⟨j, mark', hj, hd⟩ := exists_marked d
  rw [hc, hd, List.cons_append, List.cons_append]
  have hbyte : lead j d.val.toNat + mark' < 256 := by
    have hbounds := hj.bounds
    omega
  apply ofNat_cons_lt hbyte
  rcases hk.lead_le hj h with hlt | ⟨rfl, rfl, hlead⟩
  · exact Or.inl hlt
  · exact Or.inr ⟨by rw [hlead], trail_append_lt h hlead u v⟩

/-! ## Texts -/

/-- The bytes that a text is written with. -/
def bytes (s : String) : List UInt8 := s.toUTF8.data.toList

theorem bytes_eq (s : String) : bytes s = s.toList.flatMap String.utf8EncodeChar := by
  unfold bytes
  rw [String.toUTF8, ← String.utf8Encode_toList, List.utf8Encode, List.data_toByteArray]

theorem flatMap_utf8EncodeChar_lt {s t : List Char} (h : s < t) :
    s.flatMap String.utf8EncodeChar < t.flatMap String.utf8EncodeChar := by
  induction h with
  | @nil d t =>
    obtain ⟨b, bs, hd⟩ := List.exists_cons_of_ne_nil (String.utf8EncodeChar_ne_nil (c := d))
    rw [List.flatMap_nil, List.flatMap_cons, hd, List.cons_append]
    exact List.nil_lt_cons b _
  | rel h => exact utf8EncodeChar_append_lt h _ _
  | cons _ ih => exact List.append_left_lt ih

/-- **Texts are in the order of their bytes.** -/
theorem bytes_lt_iff {s t : String} : bytes s < bytes t ↔ s < t := by
  have hmono : ∀ {a b : String}, a < b → bytes a < bytes b := by
    intro a b hab
    rw [bytes_eq, bytes_eq]
    exact flatMap_utf8EncodeChar_lt (String.lt_iff.mp hab)
  constructor
  · intro h
    rcases Std.lt_trichotomy s t with hst | rfl | hts
    · exact hst
    · exact absurd h (List.lt_irrefl _)
    · exact absurd (hmono hts) (List.lt_asymm h)
  · exact hmono

end StageFlow.Text
