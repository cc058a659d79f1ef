import QueryServer.Proofs.Response
import QueryServer.Proofs.Text.Category
/-!
What a client sees of rows. All that is written around texts, and all that is escaped in them, is
plain ASCII; a character that a text shows as it is has a glyph or is a stray noncharacter.
-/

namespace QueryServer
namespace Text

/-- The visible ASCII characters and the space. -/
abbrev IsPlain (c : Char) : Prop :=
  0x20 ≤ c.toNat ∧ c.toNat ≤ 0x7E

theorem IsPlain.isPrintable {c : Char} (h : IsPlain c) : isPrintable c = true := by
  rw [isPrintable_eq_true_iff]
  by_cases hc : c = ' '
  · exact .inl hc
  have hne : c.toNat ≠ 0x20 := fun hn => hc (eq_space_iff.mpr hn)
  have hvisible : ¬ InRanges invisibleRanges c.toNat := by
    rintro ⟨r, hr, hlow, -⟩
    have hfirst : ∀ r ∈ invisibleRanges, 0xAD ≤ r.1 := by decide
    have := hfirst r hr
    omega
  refine .inr ?_
  rintro (h | h)
  · simp only [isControl, isBlank, Bool.or_eq_true, Bool.and_eq_true, decide_eq_true_eq,
      beq_iff_eq] at h
    omega
  · exact hvisible (isInvisible_iff.mp h)

theorem IsPlain.glyph {c : Char} (h : IsPlain c) : c = ' ' ∨ ¬ Glyphless c := by
  rcases isPrintable_iff.mp h.isPrintable with hspace | hglyph | hstray
  · exact .inl hspace
  · exact .inr hglyph
  · unfold Stray at hstray
    omega

theorem plain_of_isTokenChar {c : Char} (h : isTokenChar c) : IsPlain c := by
  simp only [isTokenChar, Char.isAlphanum] at h
  delta Char.isAlpha Char.isUpper Char.isLower Char.isDigit at h
  simp only [Bool.or_eq_true, Bool.and_eq_true, decide_eq_true_eq, beq_iff_eq,
    UInt32.le_iff_toNat_le, ge_iff_le] at h
  rcases h with ((((h | h) | h) | rfl) | rfl) | rfl
  · exact ⟨Nat.le_trans (by decide) h.1, Nat.le_trans h.2 (by decide)⟩
  · exact ⟨Nat.le_trans (by decide) h.1, Nat.le_trans h.2 (by decide)⟩
  · exact ⟨Nat.le_trans (by decide) h.1, Nat.le_trans h.2 (by decide)⟩
  · decide
  · decide
  · decide

theorem plain_of_word {word : List Char} {c : Char} (hword : word.all isTokenChar = true)
    (h : c ∈ word) : IsPlain c :=
  plain_of_isTokenChar (List.all_eq_true.mp hword c h)

namespace Literal

variable {quote c d : Char} {cs : List Char}

theorem plain_of_mem_hex {width n : Nat} (h : d ∈ hex width n) : IsPlain d := by
  have hdigit : ∀ k < 16, IsPlain (Nat.digitChar k) := by decide
  induction width generalizing n with
  | zero => cases h
  | succ width ih =>
    rcases List.mem_append.mp h with h | h
    · exact ih h
    · rw [List.mem_singleton.mp h]
      exact hdigit _ (Nat.mod_lt n (by decide))

theorem plain_of_mem_numeric (h : d ∈ numeric c) : IsPlain d := by
  have hmarked : ∀ mark width, IsPlain mark →
      d ∈ '\\' :: mark :: hex width c.toNat → IsPlain d := by
    intro mark width hmark hd
    rcases List.mem_cons.mp hd with rfl | hd
    · decide
    rcases List.mem_cons.mp hd with rfl | hd
    · exact hmark
    · exact plain_of_mem_hex hd
  unfold numeric at h
  dsimp only at h
  split at h
  · exact hmarked 'x' 2 (by decide) h
  split at h
  · exact hmarked 'u' 4 (by decide) h
  · exact hmarked 'U' 8 (by decide) h

theorem plain_of_isQuote (hq : IsQuote quote) : IsPlain quote := by
  rcases hq with rfl | rfl <;> decide

/-- What is written for a character is plain, or it is the character itself. -/
theorem mem_escapeUnless (hq : IsQuote quote) {shown : Bool}
    (h : d ∈ escapeUnless shown quote c) : IsPlain d ∨ (d = c ∧ shown = true) := by
  have hnamed : ∀ mark, IsPlain mark → d ∈ ['\\', mark] → IsPlain d := by
    intro mark hmark hd
    rcases List.mem_cons.mp hd with rfl | hd
    · decide
    · rwa [List.mem_singleton.mp hd]
  unfold escapeUnless at h
  split at h
  · exact .inl (hnamed _ (by decide) h)
  split at h
  · exact .inl (hnamed _ (by decide) h)
  split at h
  · exact .inl (hnamed _ (by decide) h)
  split at h
  · exact .inl (hnamed _ (by decide) h)
  split at h
  · subst c
    exact .inl (hnamed _ (plain_of_isQuote hq) h)
  split at h
  · exact .inr ⟨List.mem_singleton.mp h, ‹_›⟩
  · exact .inl (plain_of_mem_numeric h)

theorem mem_text (h : d ∈ text cs) : IsPlain d ∨ (d ∈ cs ∧ isPrintable d = true) := by
  have hq : IsQuote (textQuote cs) := isQuote_quoteFor _ _
  have hquote := plain_of_isQuote hq
  simp only [text, List.mem_append, List.mem_cons, List.not_mem_nil, or_false] at h
  rcases h with (rfl | h) | rfl
  · exact .inl hquote
  · obtain ⟨c, hc, hd⟩ := List.mem_flatMap.mp h
    rw [escapeChar_eq] at hd
    rcases mem_escapeUnless hq hd with hplain | ⟨rfl, hshown⟩
    · exact .inl hplain
    · exact .inr ⟨hc, hshown⟩
  · exact .inl hquote

theorem plain_of_mem_bytes {bs : List UInt8} (h : d ∈ bytes bs) : IsPlain d := by
  have hq : IsQuote (bytesQuote bs) := isQuote_quoteFor _ _
  have hquote := plain_of_isQuote hq
  simp only [bytes, List.mem_append, List.mem_cons, List.not_mem_nil, or_false] at h
  rcases h with (rfl | rfl | h) | rfl
  · decide
  · exact hquote
  · obtain ⟨b, -, hd⟩ := List.mem_flatMap.mp h
    rw [escapeByte_eq] at hd
    rcases mem_escapeUnless hq hd with hplain | ⟨rfl, hshown⟩
    · exact hplain
    · simp only [Bool.and_eq_true, decide_eq_true_eq, UInt8.le_iff_toNat_le] at hshown
      rwa [IsPlain, toNat_charOfByte]
  · exact hquote

theorem ne_of_printable (hc : isPrintable c = true) (hd : isPrintable d = false) : c ≠ d := by
  rintro rfl
  rw [hc] at hd
  cases hd

/-- A printable character stands for itself, after a backslash if it would end or blur the literal. -/
theorem escapeChar_printable (hc : isPrintable c = true) :
    escapeChar quote c = if c = '\\' ∨ c = quote then ['\\', c] else [c] := by
  by_cases hslash : c = '\\'
  · simp [escapeChar, hslash]
  rw [escapeChar, if_neg hslash, if_neg (ne_of_printable hc (by decide)),
    if_neg (ne_of_printable hc (by decide)), if_neg (ne_of_printable hc (by decide)), if_pos hc]
  simp [hslash]

theorem escapeChar_of_printable (hc : isPrintable c = true) (hslash : c ≠ '\\')
    (hquote : c ≠ quote) : escapeChar quote c = [c] := by
  rw [escapeChar_printable hc, if_neg (by simp [hslash, hquote])]

theorem mem_text_of_printable (hd : d ∈ cs) (hp : isPrintable d = true) : d ∈ text cs := by
  have hescape : d ∈ escapeChar (textQuote cs) d := by
    rw [escapeChar_printable hp]
    split <;> simp
  have hbody : d ∈ cs.flatMap (escapeChar (textQuote cs)) :=
    List.mem_flatMap.mpr ⟨d, hd, hescape⟩
  simp [text, hbody]

theorem mem_text_of_stray (hd : d ∈ cs) (hs : Stray d) : d ∈ text cs :=
  mem_text_of_printable hd (isPrintable_iff.mpr (.inr (.inr hs)))

end Literal
end Text

variable {c : Char}

theorem Value.mem_written {v : Value} (h : c ∈ v.written) :
    Text.IsPlain c ∨ ∃ s, v = .text s ∧ c ∈ s.toList ∧ Text.isPrintable c = true := by
  cases v with
  | null => exact .inl (Text.plain_of_word rfl h)
  | integer n => exact .inl (Text.plain_of_isTokenChar (isTokenChar_of_mem_writeInt h))
  | real x => exact .inl (Text.plain_of_isTokenChar (isTokenChar_of_mem_write h))
  | text s => exact (Text.Literal.mem_text h).imp_right fun hs => ⟨s, rfl, hs⟩
  | blob bs => exact .inl (Text.Literal.plain_of_mem_bytes h)

/-- Values with separators between them hold the characters of the values and of the separators. -/
theorem mem_intercalate_iff {sep : List Char} {css : List (List Char)} :
    c ∈ List.intercalate sep css ↔ (∃ cs ∈ css, c ∈ cs) ∨ (c ∈ sep ∧ 1 < css.length) := by
  induction css with
  | nil => simp
  | cons cs css ih =>
    cases css with
    | nil => simp
    | cons ds css =>
      rw [List.intercalate_cons_cons, List.mem_append, List.mem_append, ih]
      simp only [List.mem_cons, exists_eq_or_imp, List.length_cons]
      have hmore : 1 < css.length + 1 + 1 := by omega
      simp only [hmore, and_true]
      constructor
      · rintro ((h | h) | (h | h) | ⟨h, -⟩)
        · exact .inl (.inl h)
        · exact .inr h
        · exact .inl (.inr (.inl h))
        · exact .inl (.inr (.inr h))
        · exact .inr h
      · rintro ((h | h | h) | h)
        · exact .inl (.inl h)
        · exact .inr (.inl (.inl h))
        · exact .inr (.inl (.inr h))
        · exact .inl (.inr h)

namespace Row

variable {r : Row}

theorem mem_written (h : c ∈ r.written) : Text.IsPlain c ∨ ∃ v ∈ r, c ∈ v.written := by
  simp only [written, List.mem_append, List.mem_cons, List.not_mem_nil, or_false] at h
  rcases h with ((rfl | h) | h) | rfl
  · exact .inl (by decide)
  · rcases mem_intercalate_iff.mp h with ⟨cs, hcs, hc⟩ | ⟨hc, -⟩
    · obtain ⟨v, hv, rfl⟩ := List.mem_map.mp hcs
      exact .inr ⟨v, hv, hc⟩
    · simp only [List.mem_cons, List.not_mem_nil, or_false] at hc
      rcases hc with rfl | rfl <;> exact .inl (by decide)
  · split at h
    · rw [List.mem_singleton.mp h]
      exact .inl (by decide)
    · cases h
  · exact .inl (by decide)

theorem mem_written_of_value {v : Value} (hv : v ∈ r) (h : c ∈ v.written) : c ∈ r.written := by
  have hvalues : c ∈ List.intercalate [',', ' '] (r.map Value.written) :=
    mem_intercalate_iff.mpr (.inl ⟨v.written, List.mem_map_of_mem hv, h⟩)
  simp [written, hvalues]

end Row

namespace Response

variable {rs : List Row}

theorem mem_written_rows (h : c ∈ (rows rs).written) :
    Text.IsPlain c ∨ ∃ r ∈ rs, ∃ v ∈ r, c ∈ v.written := by
  rw [written_rows] at h
  rcases List.mem_append.mp h with h | h
  · exact .inl (Text.plain_of_word rfl h)
  obtain ⟨r, hr, h⟩ := List.mem_flatMap.mp h
  rcases List.mem_cons.mp h with rfl | h
  · exact .inl (by decide)
  · exact (Row.mem_written h).imp_right fun hv => ⟨r, hr, hv⟩

theorem mem_written_of_row {r : Row} (hr : r ∈ rs) (h : c ∈ r.written) :
    c ∈ (rows rs).written := by
  rw [written_rows]
  exact List.mem_append_right _ (List.mem_flatMap.mpr ⟨r, hr, List.mem_cons_of_mem _ h⟩)

/-- A character of the rows' text is a space or has a glyph, or one of their texts holds it and it
is a stray noncharacter. -/
theorem glyph_of_mem_rows (h : c ∈ (rows rs).written) :
    (c = ' ' ∨ ¬ Text.Glyphless c) ∨
      (Text.Stray c ∧ ∃ r ∈ rs, ∃ s, Value.text s ∈ r ∧ c ∈ s.toList) := by
  rcases mem_written_rows h with hplain | ⟨r, hr, v, hv, hc⟩
  · exact .inl hplain.glyph
  rcases Value.mem_written hc with hplain | ⟨s, rfl, hs, hprintable⟩
  · exact .inl hplain.glyph
  rcases Text.isPrintable_iff.mp hprintable with hspace | hglyph | hstray
  · exact .inl (.inl hspace)
  · exact .inl (.inr hglyph)
  · exact .inr ⟨hstray, r, hr, s, hv, hs⟩

theorem mem_rows_of_stray {r : Row} {s : String} (hr : r ∈ rs) (hs : Value.text s ∈ r)
    (hc : c ∈ s.toList) (hstray : Text.Stray c) : c ∈ (rows rs).written :=
  mem_written_of_row hr (Row.mem_written_of_value hs (Text.Literal.mem_text_of_stray hc hstray))

/-- The text of rows shows no character without a glyph but the space exactly if no text in them
holds a stray noncharacter, which are the only ones that are ever shown; and a character of a text
that has a glyph is shown as it is, at its place among the others, unless it is a backslash or the
quote. -/
theorem glyphs_only_iff (rs : List Row) :
    ((∀ c ∈ (rows rs).written, c = ' ' ∨ ¬ Text.Glyphless c) ↔
        ∀ r ∈ rs, ∀ s, Value.text s ∈ r → ∀ c ∈ s.toList, ¬ Text.Stray c) ∧
      (∀ c ∈ (rows rs).written, (c = ' ' ∨ ¬ Text.Glyphless c) ∨ Text.Stray c) ∧
      ∀ before c after quote, quote = Text.Literal.textQuote (before ++ c :: after) →
        ¬ Text.Glyphless c → c ≠ '\\' → c ≠ quote →
          (Value.text (String.ofList (before ++ c :: after))).written =
            quote :: before.flatMap (Text.Literal.escapeChar quote) ++
              c :: after.flatMap (Text.Literal.escapeChar quote) ++ [quote] := by
  refine ⟨⟨?_, ?_⟩, ?_, ?_⟩
  · intro hall r hr s hs c hc hstray
    rcases hall c (mem_rows_of_stray hr hs hc hstray) with hspace | hglyph
    · exact hstray.ne_space hspace
    · exact hglyph hstray.glyphless
  · intro hclear c hc
    refine (glyph_of_mem_rows hc).resolve_right ?_
    rintro ⟨hstray, r, hr, s, hs, hmem⟩
    exact hclear r hr s hs c hmem hstray
  · intro c hc
    exact (glyph_of_mem_rows hc).imp_right And.left
  · rintro before c after _ rfl hglyph hslash hquote
    have hescape := Text.Literal.escapeChar_of_printable
      (Text.isPrintable_iff.mpr (.inr (.inl hglyph))) hslash hquote
    simp [Value.written, Text.Literal.text, hescape]

/-- A noncharacter of the basic plane's block is shown as it is. -/
theorem noncharacter_shown :
    ¬ ∀ c ∈ (rows [[.text "\uFDD0"]]).written, c = ' ' ∨ ¬ Text.Glyphless c := by
  intro hall
  have hstray : Text.Stray '\uFDD0' := .inl (by decide)
  rcases hall '\uFDD0' (by decide) with hspace | hglyph
  · exact hstray.ne_space hspace
  · exact hglyph hstray.glyphless

end Response
end QueryServer
