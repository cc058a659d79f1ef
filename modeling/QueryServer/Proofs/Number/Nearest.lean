import QueryServer.Number.Binary64
/-!
Rounding to a pattern. Patterns grow with the numbers they stand for. Of the two patterns around a
quotient, the middle between them decides which one is nearest; on the middle it is the even one.
-/

namespace QueryServer.Binary64

theorem one_shiftLeft_52 : 1 <<< 52 = 4503599627370496 :=
  rfl

/-- Every pattern is a binade above a significand of at most fifty-three bits. -/
theorem exists_binade (m : Nat) :
    ∃ s q, m = (s <<< 52) + q ∧ q < 1 <<< 53 ∧ (0 < s → 1 <<< 52 ≤ q) := by
  refine ⟨scale m, significand m, ?_⟩
  simp only [scale, significand, one_shiftLeft_52]
  split <;> omega

/-- A significand counts the steps of its binade; the one after the last opens the next binade. -/
theorem steps_binade {s q : Nat} (hq : q ≤ 1 <<< 53) (hs : 0 < s → 1 <<< 52 ≤ q) :
    steps ((s <<< 52) + q) = q <<< s := by
  have hcases : q < 1 <<< 52 ∨ (1 <<< 52 ≤ q ∧ q < 1 <<< 53) ∨ q = 1 <<< 53 := by omega
  simp only [steps, scale, significand, one_shiftLeft_52] at hcases ⊢
  rcases hcases with h | h | h
  · have h0 : s = 0 := by omega
    subst h0
    rw [if_pos (by omega), show 0 <<< 52 + q = q by omega, show q >>> 52 - 1 = 0 by omega]
  · rw [if_neg (by omega), show 4503599627370496 + (s <<< 52 + q) % 4503599627370496 = q by omega,
      show (s <<< 52 + q) >>> 52 - 1 = s by omega]
  · have hrest : (s <<< 52 + q) % 4503599627370496 = 0 := by omega
    rw [if_neg (by omega), hrest, show (s <<< 52 + q) >>> 52 - 1 = 1 + s by omega,
      Nat.shiftLeft_add, h]
    rfl

theorem steps_lt_succ (m : Nat) : steps m < steps (m + 1) := by
  obtain ⟨s, q, rfl, hq, hs⟩ := exists_binade m
  rw [Nat.add_assoc, steps_binade (by omega) hs, steps_binade (by omega) (by omega),
    Nat.shiftLeft_eq, Nat.shiftLeft_eq]
  exact Nat.mul_lt_mul_of_pos_right (Nat.lt_succ_self q) (Nat.two_pow_pos s)

/-- Greater patterns are greater numbers. -/
theorem steps_strictMono {a b : Nat} (h : a < b) : steps a < steps b := by
  induction h with
  | refl => exact steps_lt_succ a
  | step _ ih => exact Nat.lt_trans ih (steps_lt_succ _)

theorem steps_mono {a b : Nat} (h : a ≤ b) : steps a ≤ steps b := by
  rcases Nat.lt_or_eq_of_le h with h | rfl
  · exact Nat.le_of_lt (steps_strictMono h)
  · exact Nat.le_refl _

/-- The binade of a whole number of steps, and its significand there. -/
theorem significand_bounds (t : Nat) :
    t / (1 <<< (t.log2 - 52)) < 1 <<< 53 ∧
      (0 < t.log2 - 52 → 1 <<< 52 ≤ t / (1 <<< (t.log2 - 52))) := by
  have hpos : 0 < 1 <<< (t.log2 - 52) := by
    rw [Nat.one_shiftLeft]
    exact Nat.two_pow_pos _
  constructor
  · refine Nat.div_lt_of_lt_mul (Nat.lt_of_lt_of_le Nat.lt_log2_self ?_)
    rw [Nat.one_shiftLeft, Nat.one_shiftLeft, ← Nat.pow_add]
    exact Nat.pow_le_pow_right (by decide) (by omega)
  · intro h
    have ht : t ≠ 0 := by
      rintro rfl
      exact absurd h (by decide)
    rw [Nat.le_div_iff_mul_le hpos, Nat.one_shiftLeft, Nat.one_shiftLeft, ← Nat.pow_add]
    exact Nat.le_trans (Nat.pow_le_pow_right (by decide) (by omega)) (Nat.log2_self_le ht)

/-- The quotient lies at or above some pattern and below the next; the middle between the two
decides, and exactly in the middle the even one is taken. -/
theorem nearest_between (num : Nat) {den : Nat} (hden : 0 < den) :
    ∃ k, steps k * den ≤ num <<< 1074 ∧ num <<< 1074 < steps (k + 1) * den ∧
      nearest num den = min infinite
        (if (steps k + steps (k + 1)) * den < 2 * num <<< 1074 ∨
            (steps k + steps (k + 1)) * den = 2 * num <<< 1074 ∧ k % 2 = 1
          then k + 1 else k) := by
  unfold nearest
  generalize num <<< 1074 = total
  obtain ⟨hq, hs⟩ := significand_bounds (total / den)
  generalize hshift : (total / den).log2 - 52 = s at hq hs
  have hunit : den <<< s = den * 1 <<< s := by
    rw [Nat.shiftLeft_eq, Nat.one_shiftLeft]
  rw [Nat.div_div_eq_div_mul, ← hunit] at hq hs
  have hpos : 0 < den <<< s := by
    rw [Nat.shiftLeft_eq]
    exact Nat.mul_pos hden (Nat.two_pow_pos s)
  have hsplit := Nat.div_add_mod total (den <<< s)
  have hrest := Nat.mod_lt total hpos
  refine ⟨(s <<< 52) + total / (den <<< s), ?_⟩
  have hcount : ∀ q, q <<< s * den = den <<< s * q := by
    intro q
    rw [Nat.shiftLeft_eq, Nat.shiftLeft_eq, Nat.mul_comm q, Nat.mul_right_comm,
      Nat.mul_comm den]
  rw [Nat.add_assoc, steps_binade (Nat.le_of_lt hq) hs, steps_binade hq (by omega), Nat.add_mul,
    hcount, hcount, Nat.mul_succ]
  dsimp only
  rw [hshift]
  generalize den <<< s = unit at *
  generalize total / unit = q at *
  generalize total % unit = r at *
  generalize unit * q = whole at *
  have hup : (unit < 2 * r || (2 * r == unit && q % 2 == 1)) = true ↔
      whole + (whole + unit) < 2 * total ∨
        whole + (whole + unit) = 2 * total ∧ (s <<< 52 + q) % 2 = 1 := by
    simp only [Bool.or_eq_true, Bool.and_eq_true, decide_eq_true_eq, beq_iff_eq]
    omega
  refine ⟨by omega, by omega, ?_⟩
  by_cases h : whole + (whole + unit) < 2 * total ∨
      whole + (whole + unit) = 2 * total ∧ (s <<< 52 + q) % 2 = 1
  · rw [if_pos h, if_pos (hup.mpr h)]
  · rw [if_neg h, if_neg (mt hup.mp h)]

theorem nearest_zero (den : Nat) : nearest 0 den = 0 := by
  simp [nearest]

end QueryServer.Binary64
