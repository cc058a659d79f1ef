import QueryServer.Proofs.Value
/-!
The text of a double. It is positional or has an exponent, as the magnitude says, and the decimal
that it shows is the shortest one that is rounded to the double.
-/

namespace QueryServer

namespace Binary64

/-- Digits on both sides of a point. -/
def IsPositional (cs : List Char) : Prop :=
  ∃ whole fraction, cs = whole ++ '.' :: fraction ∧ IsDigits whole ∧ IsDigits fraction

/-- A digit, a point and more digits if there are any, and an exponent with a sign and at least so
many digits. -/
def IsScientific (width : Nat) (cs : List Char) : Prop :=
  ∃ first others sign power, cs = first :: others ++ 'e' :: sign :: power ∧ first.isDigit ∧
    (others = [] ∨ ∃ fraction, others = '.' :: fraction ∧ IsDigits fraction) ∧
    (sign = '+' ∨ sign = '-') ∧ width ≤ power.length ∧ ∀ c ∈ power, c.isDigit

section Form

variable {cs : List Char} {width m : Nat} {x : Decimal}

theorem IsPositional.point_mem (h : IsPositional cs) : '.' ∈ cs := by
  obtain ⟨whole, fraction, rfl, -, -⟩ := h
  simp

theorem IsScientific.mark_mem (h : IsScientific width cs) : 'e' ∈ cs := by
  obtain ⟨first, others, sign, power, rfl, -⟩ := h
  simp

theorem IsScientific.not_isPositional (h : IsScientific width cs) : ¬ IsPositional cs := by
  rintro ⟨whole, fraction, rfl, hwhole, hfraction⟩
  have hletter : ¬ Char.isDigit 'e' = true := by decide
  rcases List.mem_append.mp h.mark_mem with hmem | hmem
  · exact hletter (hwhole.2 _ hmem)
  · rcases List.mem_cons.mp hmem with he | hmem
    · exact absurd he (by decide)
    · exact hletter (hfraction.2 _ hmem)

theorem isPositional_positional (x : Decimal) : IsPositional (positional x) := by
  obtain ⟨whole, fraction, -, htext, hwhole, hfraction, -⟩ := exists_places x
  exact ⟨whole, fraction, htext, hwhole, hfraction⟩

theorem isScientific_scientific (width : Nat) (x : Decimal) :
    IsScientific width (scientific width x) := by
  unfold scientific
  dsimp only
  generalize x.exponent + ((digitsOf x.digits).length - 1 : Nat) = e
  have hdigits : ∀ c ∈ digitsOf x.digits, c.isDigit := fun _ => isDigit_of_mem_digitsOf
  obtain ⟨first, rest, hds⟩ : ∃ first rest, digitsOf x.digits = first :: rest :=
    List.exists_cons_of_ne_nil Nat.toDigits_ne_nil
  rw [hds] at hdigits ⊢
  rw [List.append_assoc]
  refine ⟨first, _, _,
    List.replicate (width - (digitsOf e.natAbs).length) '0' ++ digitsOf e.natAbs, rfl,
    hdigits first List.mem_cons_self, ?_, ?_, ?_, ?_⟩
  · split
    · exact .inl rfl
    · rename_i hlength
      refine .inr ⟨rest, rfl, ?_, fun c hc => hdigits c (List.mem_cons_of_mem _ hc)⟩
      rintro rfl
      exact hlength (Nat.le_refl _)
  · split
    · exact .inr rfl
    · exact .inl rfl
  · rw [List.length_append, List.length_replicate]
    omega
  · intro c hc
    rcases List.mem_append.mp hc with h | h
    · exact isDigit_of_mem_zeros h
    · exact isDigit_of_mem_digitsOf h

end Form

section Bounds

variable {m : Nat}

theorem scaled_powerOfTen {e : Int} (he : 0 ≤ e + finest) : scaled (powerOfTen e) = 10 ^ e := by
  have hexponent : (((e + finest).toNat : Nat) : Int) - finest = e := by omega
  rw [powerOfTen, scaled_gridPoint, hexponent, Decimal.toRat, Nat.cast_one, one_mul]

theorem powerOfTen_le_exactly_iff {e : Int} (he : 0 ≤ e + finest) :
    powerOfTen e ≤ exactly m ↔ 10 ^ e ≤ size m := by
  rw [← Nat.not_lt, ← scaled_lt_iff, not_lt, scaled_powerOfTen he, scaled_exactly]

/-- Magnitudes are positional from 10^-4 up to, not including, 10^16. -/
def InPositionalRange (m : Nat) : Prop :=
  1 / 10 ^ 4 ≤ size m ∧ size m < 10 ^ 16

theorem writeMagnitude_eq (hm : m ≠ 0) (hfinite : m ≠ infinite) [Decidable (InPositionalRange m)] :
    writeMagnitude .wire m =
      if InPositionalRange m then positional (shortest m) else scientific 2 (shortest m) := by
  have hrange : (powerOfTen Layout.wire.positionalFrom ≤ exactly m &&
      exactly m < powerOfTen Layout.wire.positionalBelow) = true ↔ InPositionalRange m := by
    have hlow : (10 : ℚ) ^ Layout.wire.positionalFrom = 1 / 10 ^ 4 := by
      norm_num [Layout.wire]
    have hhigh : (10 : ℚ) ^ Layout.wire.positionalBelow = 10 ^ 16 := by
      norm_num [Layout.wire]
    rw [Bool.and_eq_true, decide_eq_true_iff, decide_eq_true_iff, ← Nat.not_le,
      powerOfTen_le_exactly_iff (by decide), powerOfTen_le_exactly_iff (by decide), not_le, hlow,
      hhigh, InPositionalRange]
  rw [writeMagnitude, if_neg (by simpa using hm), if_neg (by simpa using hfinite)]
  by_cases h : InPositionalRange m
  · rw [if_pos (hrange.mpr h), if_pos h]
  · rw [if_neg (mt hrange.mp h), if_neg h]
    rfl

theorem isPositional_writeMagnitude_iff (hfinite : m < infinite) :
    IsPositional (writeMagnitude .wire m) ↔ m = 0 ∨ InPositionalRange m := by
  classical
  by_cases hm : m = 0
  · subst hm
    exact iff_of_true ⟨['0'], ['0'], rfl, isDigits_zero, isDigits_zero⟩ (.inl rfl)
  rw [writeMagnitude_eq hm hfinite.ne, or_iff_right hm]
  split
  · rename_i hrange
    exact iff_of_true (isPositional_positional _) hrange
  · rename_i hrange
    exact iff_of_false (isScientific_scientific 2 _).not_isPositional hrange

theorem isScientific_writeMagnitude (hfinite : m < infinite)
    (h : ¬ IsPositional (writeMagnitude .wire m)) : IsScientific 2 (writeMagnitude .wire m) := by
  classical
  rw [isPositional_writeMagnitude_iff hfinite, not_or] at h
  rw [writeMagnitude_eq h.1 hfinite.ne, if_neg h.2]
  exact isScientific_scientific 2 _

end Bounds

theorem Decimal.toRat_zero (e : Int) : Decimal.toRat ⟨0, e⟩ = 0 := by
  rw [Decimal.toRat, Nat.cast_zero, zero_mul]

theorem nearest_zero_zero : Nearest 0 0 := by
  have hnearest := nearest_isNearest 0 Nat.one_pos
  rwa [nearest_zero, Nat.cast_zero, zero_div] at hnearest

/-- The decimal that is read from the text of a finite magnitude is rounded to it, and none with
fewer significant digits is. -/
theorem readDecimal?_written {m : Nat} (hfinite : m < infinite) :
    ∃ d, readDecimal? (writeMagnitude .wire m) = some d ∧ Nearest d.toRat m ∧
      ∀ x : Decimal, Nearest x.toRat m → d.significant ≤ x.significant := by
  rcases Nat.eq_zero_or_pos m with rfl | hm
  · have hread : readDecimal? (writeMagnitude .wire 0) = some ⟨0, -1⟩ := by decide
    refine ⟨_, hread, ?_, fun _ _ => Nat.zero_le _⟩
    rw [Decimal.toRat_zero]
    exact nearest_zero_zero
  · obtain ⟨zeros, hread⟩ := readDecimal?_writeMagnitude hm.ne' hfinite.ne
    exact ⟨_, hread, shortest_padded_isNearest hm hfinite zeros,
      fun x hx => significant_shortest_le hm hfinite zeros _ hx⟩

end Binary64

namespace Value

/-- What is never part of the text of an integer. -/
theorem not_mem_written_integer (n : Int64) {c : Char} (hc : c = '.' ∨ c = 'e') :
    c ∉ (integer n).written := by
  intro hmem
  have hdigits : ∀ c ∈ (integer n).written, c.isDigit ∨ c = '-' := by
    intro c hc
    simp only [written, writeInt] at hc
    split at hc
    · rcases List.mem_cons.mp hc with rfl | hc
      · exact .inr rfl
      · exact .inl (isDigit_of_mem_digitsOf hc)
    · exact .inl (isDigit_of_mem_digitsOf hc)
  rcases hc with rfl | rfl <;> exact absurd (hdigits _ hmem) (by decide)

/-- The text of a finite double shows a sign and a decimal that is rounded to this double and to no
other, with as few digits as any such decimal. -/
theorem written_real_exact_and_shortest (x : Binary64) (hx : x.isFinite) :
    ∃ body d, (real x).written = (if x.isNegative then '-' :: body else body) ∧
      Binary64.readDecimal? body = some d ∧
      (∀ y, Binary64.Rounds x.isNegative d.toRat y ↔ y = x) ∧
      (∀ negative other, Binary64.Rounds negative (Binary64.Decimal.toRat other) x →
        d.significant ≤ other.significant) ∧
      ('.' ∈ body ∨ 'e' ∈ body) ∧ (∀ n, (real x).written ≠ (integer n).written) ∧
      (Binary64.IsPositional body ↔ x.isZero ∨
        1 / 10 ^ 4 ≤ Binary64.size x.magnitude ∧ Binary64.size x.magnitude < 10 ^ 16) ∧
      (¬ Binary64.IsPositional body → Binary64.IsScientific 2 body) := by
  have hfinite : x.magnitude < Binary64.infinite := of_decide_eq_true hx
  obtain ⟨d, hread, hnearest, hfewest⟩ := Binary64.readDecimal?_written hfinite
  have hrounds : Binary64.Rounds x.isNegative d.toRat x := ⟨rfl, hnearest⟩
  have hnumber : ¬ x.isNaN := by
    rw [Binary64.isNaN, decide_eq_true_iff]
    omega
  have hwritten : (real x).written = if x.isNegative then
      '-' :: Binary64.writeMagnitude .wire x.magnitude
      else Binary64.writeMagnitude .wire x.magnitude := by
    rw [written, Binary64.write, if_neg hnumber]
  have hmark : '.' ∈ Binary64.writeMagnitude .wire x.magnitude ∨
      'e' ∈ Binary64.writeMagnitude .wire x.magnitude := by
    by_cases hform : Binary64.IsPositional (Binary64.writeMagnitude .wire x.magnitude)
    · exact .inl hform.point_mem
    · exact .inr (Binary64.isScientific_writeMagnitude hfinite hform).mark_mem
  refine ⟨_, d, hwritten, hread, ?_, ?_, hmark, ?_, ?_, ?_⟩
  · intro y
    constructor
    · intro hy
      exact hy.unique hrounds
    · rintro rfl
      exact hrounds
  · intro negative other hother
    exact hfewest other hother.nearest
  · intro n hsame
    have hmem : ∀ c ∈ Binary64.writeMagnitude .wire x.magnitude, c ∈ (integer n).written := by
      intro c hc
      rw [← hsame, hwritten]
      split
      · exact List.mem_cons_of_mem _ hc
      · exact hc
    rcases hmark with hpoint | hletter
    · exact not_mem_written_integer n (.inl rfl) (hmem _ hpoint)
    · exact not_mem_written_integer n (.inr rfl) (hmem _ hletter)
  · rw [Binary64.isPositional_writeMagnitude_iff hfinite, Binary64.isZero, beq_iff_eq]
    rfl
  · exact Binary64.isScientific_writeMagnitude hfinite

/-- The least positive double shows one digit, which is not its exact value. -/
theorem written_real_exact_and_shortest_least :
    (⟨1⟩ : Binary64).isFinite ∧ (real ⟨1⟩).written = "5e-324".toList ∧
      (∀ y, Binary64.Rounds false (Binary64.Decimal.toRat ⟨5, -324⟩) y ↔ y = ⟨1⟩) ∧
      Binary64.IsScientific 2 "5e-324".toList := by
  have hfinite : (⟨1⟩ : Binary64).isFinite := by decide
  have htext : (real ⟨1⟩).written = "5e-324".toList := by decide +kernel
  obtain ⟨body, d, hwritten, hread, hrounds, -, -, -, hform, hotherwise⟩ :=
    written_real_exact_and_shortest ⟨1⟩ hfinite
  have hpositive : (⟨1⟩ : Binary64).isNegative = false := by decide
  rw [hpositive, if_neg Bool.false_ne_true, htext] at hwritten
  subst hwritten
  have hd : Binary64.readDecimal? "5e-324".toList = some ⟨5, -324⟩ := by decide
  obtain rfl := Option.some.inj (hread.symm.trans hd)
  rw [hpositive] at hrounds
  refine ⟨hfinite, htext, hrounds, hotherwise ?_⟩
  rintro hpositional
  exact absurd hpositional.point_mem (by decide)

end Value
end QueryServer
