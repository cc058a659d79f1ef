import QueryServer.Text.Printable
/-!
Classes of characters that have no glyph of their own. A printable character is in none of them,
or it is one of the noncharacters for which the ranges have no place.
-/

namespace QueryServer.Text

/-- The format characters. -/
def formatRanges : List (Nat × Nat) :=
  [(0x00AD, 0x00AD), (0x0600, 0x0605), (0x061C, 0x061C), (0x06DD, 0x06DD), (0x070F, 0x070F),
   (0x0890, 0x0891), (0x08E2, 0x08E2), (0x180E, 0x180E), (0x200B, 0x200F), (0x202A, 0x202E),
   (0x2060, 0x2064), (0x2066, 0x206F), (0xFEFF, 0xFEFF), (0xFFF9, 0xFFFB), (0x110BD, 0x110BD),
   (0x110CD, 0x110CD), (0x13430, 0x1343F), (0x1BCA0, 0x1BCA3), (0x1D173, 0x1D17A),
   (0xE0001, 0xE0001), (0xE0020, 0xE007F)]

/-- The separators of words, lines and paragraphs. -/
def separatorRanges : List (Nat × Nat) :=
  [(0x0020, 0x0020), (0x00A0, 0x00A0), (0x1680, 0x1680), (0x2000, 0x200A), (0x2028, 0x2029),
   (0x202F, 0x202F), (0x205F, 0x205F), (0x3000, 0x3000)]

/-- The areas for private use. -/
def privateRanges : List (Nat × Nat) :=
  [(0xE000, 0xF8FF), (0xF0000, 0xFFFFD), (0x100000, 0x10FFFD)]

/-- A code point lies in one of these ranges. -/
def InRanges (ranges : List (Nat × Nat)) (n : Nat) : Prop :=
  ∃ r ∈ ranges, r.1 ≤ n ∧ n ≤ r.2

/-- A block of the basic plane, and the last two code points of each plane. -/
def IsNoncharacter (n : Nat) : Prop :=
  (0xFDD0 ≤ n ∧ n ≤ 0xFDEF) ∨ 0xFFFE ≤ n % 0x10000

/-- The characters without a glyph of their own. -/
inductive Glyphless (c : Char) : Prop where
  | control (h : isControl c = true)
  | format (h : InRanges formatRanges c.toNat)
  | separator (h : InRanges separatorRanges c.toNat)
  | privateUse (h : InRanges privateRanges c.toNat)
  | noncharacter (h : IsNoncharacter c.toNat)

/-- The noncharacters of the basic plane's block and of the planes 1 to 14. -/
def Stray (c : Char) : Prop :=
  (0xFDD0 ≤ c.toNat ∧ c.toNat ≤ 0xFDEF) ∨
    (0x10000 ≤ c.toNat ∧ c.toNat < 0xF0000 ∧ 0xFFFE ≤ c.toNat % 0x10000)

variable {c : Char}

theorem toNat_lt (c : Char) : c.toNat < 0x110000 := by
  rcases c.valid with h | h
  · exact Nat.lt_trans h (by decide)
  · exact h.2

theorem eq_space_iff : c = ' ' ↔ c.toNat = 0x20 := by
  constructor
  · rintro rfl
    rfl
  · intro h
    exact Char.ext (UInt32.toNat_inj.mp h)

theorem isInvisible_iff : isInvisible c = true ↔ InRanges invisibleRanges c.toNat := by
  simp [isInvisible, InRanges]

theorem InRanges.mono {ranges more : List (Nat × Nat)} {n : Nat} (hsub : ranges ⊆ more)
    (h : InRanges ranges n) : InRanges more n := by
  obtain ⟨r, hr, hn⟩ := h
  exact ⟨r, hsub hr, hn⟩

/-- The ranges are those of the format characters, the areas for private use and the last code
points of three planes. -/
theorem inRanges_invisible {n : Nat} (hn : n < 0x110000) :
    InRanges invisibleRanges n ↔ InRanges formatRanges n ∨ InRanges privateRanges n ∨
      (n = 0xFFFE ∨ n = 0xFFFF) ∨ (0xF0000 ≤ n ∧ 0xFFFE ≤ n % 0x10000) := by
  have hsplit : ∀ r ∈ invisibleRanges,
      r ∈ formatRanges ∨ r = (0xE000, 0xF8FF) ∨ r = (0xFFFE, 0xFFFF) ∨ r = (0xF0000, 0x10FFFF) := by
    decide
  have hformat : formatRanges ⊆ invisibleRanges := by decide
  constructor
  · rintro ⟨r, hr, hlow, hhigh⟩
    rcases hsplit r hr with hr | rfl | rfl | rfl
    · exact .inl ⟨r, hr, hlow, hhigh⟩
    · exact .inr (.inl ⟨_, List.mem_cons_self, hlow, hhigh⟩)
    · exact .inr (.inr (.inl (by simp at hlow hhigh; omega)))
    · simp only [InRanges, privateRanges, List.mem_cons, List.not_mem_nil, or_false,
        exists_eq_or_imp, exists_eq_left]
      simp only at hlow hhigh
      omega
  · rintro (h | h | h | h)
    · exact h.mono hformat
    · obtain ⟨r, hr, hlow, hhigh⟩ := h
      simp only [privateRanges, List.mem_cons, List.not_mem_nil, or_false] at hr
      rcases hr with rfl | rfl | rfl
      · exact ⟨(0xE000, 0xF8FF), by decide, hlow, hhigh⟩
      · exact ⟨(0xF0000, 0x10FFFF), by decide, hlow, Nat.le_of_lt_succ hn⟩
      · exact ⟨(0xF0000, 0x10FFFF), by decide, Nat.le_trans (by decide) hlow, Nat.le_of_lt_succ hn⟩
    · exact ⟨(0xFFFE, 0xFFFF), by decide, by simp; omega, by simp; omega⟩
    · exact ⟨(0xF0000, 0x10FFFF), by decide, h.1, Nat.le_of_lt_succ hn⟩

theorem inRanges_separator {n : Nat} : InRanges separatorRanges n ↔
    n = 0x20 ∨ n = 0xA0 ∨ n = 0x1680 ∨ (0x2000 ≤ n ∧ n ≤ 0x200A) ∨ n = 0x2028 ∨ n = 0x2029 ∨
      n = 0x202F ∨ n = 0x205F ∨ n = 0x3000 := by
  simp only [InRanges, separatorRanges, List.mem_cons, List.not_mem_nil, or_false,
    exists_eq_or_imp, exists_eq_left]
  omega

/-- Blanks are separators, or controls. -/
theorem control_or_blank_iff : isControl c = true ∨ isBlank c = true ↔
    isControl c = true ∨ InRanges separatorRanges c.toNat := by
  simp only [inRanges_separator, isControl, isBlank, Bool.or_eq_true, Bool.and_eq_true,
    decide_eq_true_eq, beq_iff_eq]
  omega

theorem isNoncharacter_iff : IsNoncharacter c.toNat ↔
    Stray c ∨ (c.toNat = 0xFFFE ∨ c.toNat = 0xFFFF) ∨
      (0xF0000 ≤ c.toNat ∧ 0xFFFE ≤ c.toNat % 0x10000) := by
  unfold IsNoncharacter Stray
  omega

/-- No range holds a stray noncharacter. -/
theorem Stray.not_inRanges {ranges : List (Nat × Nat)} (hc : Stray c)
    (hclear : ∀ r ∈ ranges, r.2 < 0xFDD0 ∨ (0xFDEF < r.1 ∧ r.2 < 0x1FFFE) ∨ 0xF0000 ≤ r.1 ∨
      (0x10000 ≤ r.1 ∧ r.1 / 0x10000 = r.2 / 0x10000 ∧ r.2 % 0x10000 < 0xFFFE)) :
    ¬ InRanges ranges c.toNat := by
  rintro ⟨r, hr, hlow, hhigh⟩
  have := hclear r hr
  unfold Stray at hc
  omega

theorem Stray.ne_space (h : Stray c) : c ≠ ' ' := by
  rw [Ne, eq_space_iff]
  unfold Stray at h
  omega

theorem glyphless_iff : Glyphless c ↔ isControl c = true ∨ InRanges formatRanges c.toNat ∨
    InRanges separatorRanges c.toNat ∨ InRanges privateRanges c.toNat ∨
    IsNoncharacter c.toNat := by
  constructor
  · intro h
    cases h <;> simp_all
  · rintro (h | h | h | h | h)
    · exact .control h
    · exact .format h
    · exact .separator h
    · exact .privateUse h
    · exact .noncharacter h

theorem Stray.glyphless (h : Stray c) : Glyphless c :=
  .noncharacter (isNoncharacter_iff.mpr (.inl h))

theorem Stray.not_control (h : Stray c) : isControl c = false := by
  unfold Stray at h
  simp only [isControl, Bool.or_eq_false_iff, Bool.and_eq_false_iff, decide_eq_false_iff_not]
  omega

theorem isPrintable_eq_true_iff : isPrintable c = true ↔
    c = ' ' ∨ ¬ ((isControl c = true ∨ isBlank c = true) ∨ isInvisible c = true) := by
  simp [isPrintable, not_or]

/-- What is printable has a glyph, or it is a stray noncharacter. -/
theorem isPrintable_iff : isPrintable c = true ↔ c = ' ' ∨ ¬ Glyphless c ∨ Stray c := by
  rw [isPrintable_eq_true_iff, control_or_blank_iff, isInvisible_iff,
    inRanges_invisible (toNat_lt c), glyphless_iff, isNoncharacter_iff]
  by_cases hs : Stray c
  · have hlast : ¬ (c.toNat = 0xFFFE ∨ c.toNat = 0xFFFF) ∧
        ¬ (0xF0000 ≤ c.toNat ∧ 0xFFFE ≤ c.toNat % 0x10000) := by
      unfold Stray at hs
      omega
    have hformat : ¬ InRanges formatRanges c.toNat := hs.not_inRanges (by decide)
    have hseparator : ¬ InRanges separatorRanges c.toNat := hs.not_inRanges (by decide)
    have hprivate : ¬ InRanges privateRanges c.toNat := hs.not_inRanges (by decide)
    simp [hs, hs.not_control, hformat, hseparator, hprivate, hlast]
  · simp only [hs, false_or, or_false, or_assoc, or_left_comm]

end QueryServer.Text
