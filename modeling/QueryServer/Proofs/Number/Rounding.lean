import Mathlib.Algebra.Order.Field.Rat
import Mathlib.Tactic.Linarith
import Mathlib.Tactic.Positivity
import QueryServer.Proofs.Number.Shortest
/-!
Rounding of rational numbers to doubles. What is nearest is said without any arithmetic on patterns;
decimals are rounded in just this way.
-/

namespace QueryServer.Binary64

/-- The number of a pattern. Infinity counts as the number after the greatest finite one. -/
def size (m : Nat) : ℚ :=
  steps m / 2 ^ 1074

/-- No pattern is nearer to a number, and one at the same distance is odd while this one is even. -/
structure Nearest (q : ℚ) (m : Nat) : Prop where
  le_infinite : m ≤ infinite
  closest : ∀ k ≤ infinite, k ≠ m →
    |size m - q| < |size k - q| ∨ |size m - q| = |size k - q| ∧ m % 2 = 0

/-- A number with a sign, which zero has too, is rounded to a double. -/
structure Rounds (negative : Bool) (q : ℚ) (y : Binary64) : Prop where
  sign : y.isNegative = negative
  nearest : Nearest q y.magnitude

/-- The number that a decimal is. -/
def Decimal.toRat (x : Decimal) : ℚ :=
  x.digits * 10 ^ x.exponent

/-- The middle between a pattern and the next. -/
def middle (m : Nat) : ℚ :=
  (size m + size (m + 1)) / 2

section Order

variable {a b : Nat} {p q r : ℚ} {m k : Nat}

theorem size_nonneg (m : Nat) : 0 ≤ size m := by
  unfold size
  positivity

theorem size_lt (h : a < b) : size a < size b :=
  div_lt_div_of_pos_right (Nat.cast_lt.mpr (steps_strictMono h)) (by positivity)

theorem size_le (h : a ≤ b) : size a ≤ size b :=
  div_le_div_of_nonneg_right (Nat.cast_le.mpr (steps_mono h)) (by positivity)

theorem size_lt_middle (m : Nat) : size m < middle m := by
  have := size_lt (Nat.lt_succ_self m)
  unfold middle
  linarith

theorem middle_lt_size (m : Nat) : middle m < size (m + 1) := by
  have := size_lt (Nat.lt_succ_self m)
  unfold middle
  linarith

theorem middle_lt (h : a < b) : middle a < middle b :=
  (middle_lt_size a).trans_le ((size_le h).trans (size_lt_middle b).le)

theorem middle_le (h : a ≤ b) : middle a ≤ middle b := by
  rcases Nat.lt_or_eq_of_le h with h | rfl
  · exact (middle_lt h).le
  · exact le_refl _

/-- Of two numbers the smaller is nearer to what is below their middle. -/
theorem abs_sub_lt_iff_lt_middle {x y : ℚ} (h : x < y) : |x - q| < |y - q| ↔ q < (x + y) / 2 := by
  rcases abs_cases (x - q) with ⟨hx, _⟩ | ⟨hx, _⟩ <;>
    rcases abs_cases (y - q) with ⟨hy, _⟩ | ⟨hy, _⟩ <;>
    rw [hx, hy] <;> constructor <;> intro <;> linarith

theorem abs_sub_lt_iff_middle_lt {x y : ℚ} (h : x < y) : |y - q| < |x - q| ↔ (x + y) / 2 < q := by
  rcases abs_cases (x - q) with ⟨hx, _⟩ | ⟨hx, _⟩ <;>
    rcases abs_cases (y - q) with ⟨hy, _⟩ | ⟨hy, _⟩ <;>
    rw [hx, hy] <;> constructor <;> intro <;> linarith

theorem abs_sub_eq_iff {x y : ℚ} (h : x < y) : |x - q| = |y - q| ↔ (x + y) / 2 = q := by
  rw [le_antisymm_iff, ← not_lt, ← not_lt, abs_sub_lt_iff_lt_middle h, abs_sub_lt_iff_middle_lt h,
    not_lt, not_lt, le_antisymm_iff, and_comm]

/-- The numbers that a pattern takes: those between the middles to its neighbours, and the middles
too if it is even. -/
structure Takes (m : Nat) (q : ℚ) : Prop where
  le_infinite : m ≤ infinite
  above : 0 < m → middle (m - 1) < q ∨ middle (m - 1) = q ∧ m % 2 = 0
  below : m < infinite → q < middle m ∨ middle m = q ∧ m % 2 = 0

theorem Nearest.takes (h : Nearest q m) : Takes m q where
  le_infinite := h.le_infinite
  above := by
    intro hm
    have hlt := size_lt (show m - 1 < m by omega)
    have hmiddle : middle (m - 1) = (size (m - 1) + size m) / 2 := by
      rw [middle, Nat.sub_add_cancel hm]
    rw [hmiddle, ← abs_sub_lt_iff_middle_lt hlt, ← abs_sub_eq_iff hlt, eq_comm]
    exact h.closest (m - 1) (by have := h.le_infinite; omega) (by omega)
  below := by
    intro hm
    have hlt := size_lt (Nat.lt_succ_self m)
    rw [middle, ← abs_sub_lt_iff_lt_middle hlt, ← abs_sub_eq_iff hlt]
    exact h.closest (m + 1) hm (by omega)

theorem Takes.nearest (h : Takes m q) : Nearest q m where
  le_infinite := h.le_infinite
  closest := by
    intro k hk hne
    rcases Nat.lt_or_gt_of_ne hne with hlt | hgt
    · have hfar : (size k + size m) / 2 ≤ middle (m - 1) := by
        have := size_le (show k ≤ m - 1 by omega)
        rw [middle, Nat.sub_add_cancel (by omega)]
        linarith
      have hsize := size_lt hlt
      rw [abs_sub_lt_iff_middle_lt hsize, eq_comm, abs_sub_eq_iff hsize]
      rcases h.above (by omega) with hq | ⟨rfl, heven⟩
      · exact .inl (hfar.trans_lt hq)
      · exact hfar.lt_or_eq.imp_right fun he => ⟨he, heven⟩
    · have hfar : middle m ≤ (size m + size k) / 2 := by
        have := size_le (show m + 1 ≤ k by omega)
        rw [middle]
        linarith
      have hsize := size_lt hgt
      rw [abs_sub_lt_iff_lt_middle hsize, abs_sub_eq_iff hsize]
      rcases h.below (by omega) with hq | ⟨rfl, heven⟩
      · exact .inl (hq.trans_le hfar)
      · exact hfar.lt_or_eq.imp_right fun he => ⟨he.symm, heven⟩

/-- The nearest pattern is the one that takes the number. -/
theorem nearest_iff_takes : Nearest q m ↔ Takes m q :=
  ⟨Nearest.takes, Takes.nearest⟩

theorem Takes.not_lt (hm : Takes m q) (hk : Takes k q) : ¬ m < k := by
  intro hlt
  have hbetween : middle m ≤ middle (k - 1) := middle_le (by omega)
  -- both middles would be the number, so the patterns would be neighbours and both even
  rcases hm.below (by have := hk.le_infinite; omega) with hq | ⟨hq, heven⟩
  · rcases hk.above (by omega) with hq' | ⟨hq', -⟩ <;> linarith
  · rcases hk.above (by omega) with hq' | ⟨hq', heven'⟩
    · linarith
    · have hnext : ¬ m < k - 1 := fun h => absurd (middle_lt h) (by linarith)
      omega

theorem Nearest.unique (hm : Nearest q m) (hk : Nearest q k) : m = k :=
  Nat.le_antisymm (Nat.not_lt.mp (hk.takes.not_lt hm.takes))
    (Nat.not_lt.mp (hm.takes.not_lt hk.takes))

/-- Between two numbers that a pattern takes it takes all. -/
theorem Nearest.between (hp : Nearest p m) (hq : Nearest q m) (hpr : p ≤ r) (hrq : r ≤ q) :
    Nearest r m := by
  refine Takes.nearest ⟨hp.le_infinite, ?_, ?_⟩
  · intro hm
    rcases hp.takes.above hm with h | ⟨rfl, heven⟩
    · exact .inl (h.trans_le hpr)
    · exact hpr.lt_or_eq.imp_right fun he => ⟨he, heven⟩
  · intro hm
    rcases hq.takes.below hm with h | ⟨rfl, heven⟩
    · exact .inl (hrq.trans_lt h)
    · exact hrq.lt_or_eq.imp_right fun he => ⟨he.symm, heven⟩

/-- What is not rounded to zero is greater than zero. -/
theorem Nearest.pos (h : Nearest q m) (hm : 0 < m) : 0 < q := by
  have hlow : 0 < middle (m - 1) := (size_nonneg _).trans_lt (size_lt_middle _)
  rcases h.takes.above hm with hq | ⟨hq, -⟩ <;> linarith

end Order

section Quotient

variable {num den k m : Nat}

theorem div_two_pow_le_iff (hden : 0 < den) (a num s : Nat) :
    (a : ℚ) / 2 ^ s ≤ num / den ↔ a * den ≤ num <<< s := by
  rw [div_le_div_iff₀ (by positivity) (Nat.cast_pos.mpr hden), Nat.shiftLeft_eq]
  exact_mod_cast Iff.rfl

theorem div_le_div_two_pow_iff (hden : 0 < den) (a num s : Nat) :
    (num : ℚ) / den ≤ a / 2 ^ s ↔ num <<< s ≤ a * den := by
  rw [div_le_div_iff₀ (Nat.cast_pos.mpr hden) (by positivity), Nat.shiftLeft_eq]
  exact_mod_cast Iff.rfl

theorem size_le_div_iff (hden : 0 < den) : size k ≤ num / den ↔ steps k * den ≤ num <<< 1074 :=
  div_two_pow_le_iff hden _ _ _

theorem div_lt_size_iff (hden : 0 < den) : num / den < size k ↔ num <<< 1074 < steps k * den := by
  rw [← not_le, size_le_div_iff hden, Nat.not_le]

theorem two_mul_shiftLeft (n s : Nat) : 2 * n <<< s = (2 * n) <<< s := by
  rw [Nat.shiftLeft_eq, Nat.shiftLeft_eq, Nat.mul_assoc]

theorem middle_le_div_iff (hden : 0 < den) :
    middle k ≤ num / den ↔ (steps k + steps (k + 1)) * den ≤ 2 * num <<< 1074 := by
  rw [two_mul_shiftLeft, ← div_two_pow_le_iff hden, middle, size, size, div_le_iff₀ two_pos,
    Nat.cast_add, Nat.cast_mul, Nat.cast_two, add_div, mul_div_assoc, mul_comm (2 : ℚ)]

theorem div_le_middle_iff (hden : 0 < den) :
    num / den ≤ middle k ↔ 2 * num <<< 1074 ≤ (steps k + steps (k + 1)) * den := by
  rw [two_mul_shiftLeft, ← div_le_div_two_pow_iff hden, middle, size, size, le_div_iff₀ two_pos,
    Nat.cast_add, Nat.cast_mul, Nat.cast_two, add_div, mul_div_assoc, mul_comm (2 : ℚ)]

/-- A pattern at or above infinity is infinity. -/
theorem takes_infinite {q : ℚ} (h : size infinite ≤ q) : Takes infinite q where
  le_infinite := Nat.le_refl _
  above := fun hm => .inl ((middle_lt_size _).trans_le (by rwa [Nat.sub_add_cancel hm]))
  below := fun hm => absurd hm (Nat.lt_irrefl _)

/-- A quotient is rounded to the nearest pattern. -/
theorem nearest_isNearest (num : Nat) (hden : 0 < den) : Nearest (num / den) (nearest num den) := by
  obtain ⟨k, hlow, hhigh, hnearest⟩ := nearest_between num hden
  rw [← size_le_div_iff hden] at hlow
  rw [← div_lt_size_iff hden] at hhigh
  rw [hnearest]
  apply Takes.nearest
  -- from infinity on every quotient is cut down to it, wherever it lies between two patterns
  by_cases hk : infinite ≤ k
  · rw [min_eq_left (by split <;> omega)]
    exact takes_infinite ((size_le hk).trans hlow)
  rw [min_eq_right (by split <;> omega)]
  have hup : (steps k + steps (k + 1)) * den < 2 * num <<< 1074 ∨
      (steps k + steps (k + 1)) * den = 2 * num <<< 1074 ∧ k % 2 = 1 ↔
        middle k < num / den ∨ middle k = num / den ∧ k % 2 = 1 := by
    rw [← Nat.not_le, ← div_le_middle_iff hden, not_le, Nat.le_antisymm_iff,
      ← middle_le_div_iff hden, ← div_le_middle_iff hden, ← le_antisymm_iff]
  split
  · rename_i hmore
    refine ⟨by omega, fun _ => ?_, fun _ => .inl (hhigh.trans (size_lt_middle _))⟩
    rw [Nat.add_sub_cancel]
    exact (hup.mp hmore).imp_right fun ⟨he, hodd⟩ => ⟨he, by omega⟩
  · rename_i hless
    rw [hup, not_or, not_and, not_lt] at hless
    refine ⟨by omega, fun hm => .inl ?_, fun _ => ?_⟩
    · have hbelow := middle_lt_size (k - 1)
      rw [Nat.sub_add_cancel hm] at hbelow
      exact hbelow.trans_le hlow
    · refine hless.1.lt_or_eq.imp_right fun he => ⟨he.symm, ?_⟩
      have := hless.2 he.symm
      omega

end Quotient

section Sign

variable {negative : Bool} {m : Nat}

theorem bits_ofMagnitude (hm : m < signPlace) (negative : Bool) :
    (ofMagnitude negative m).bits.toNat = if negative then signPlace + m else m := by
  have hplace : signPlace = 9223372036854775808 := rfl
  rw [ofMagnitude, UInt64.toNat_ofNat_of_lt']
  rw [hplace] at hm ⊢
  split <;> rw [UInt64.size] <;> omega

theorem isNegative_ofMagnitude (hm : m < signPlace) (negative : Bool) :
    (ofMagnitude negative m).isNegative = negative := by
  rw [isNegative, bits_ofMagnitude hm]
  cases negative <;> simp [hm]

theorem magnitude_ofMagnitude (hm : m < signPlace) (negative : Bool) :
    (ofMagnitude negative m).magnitude = m := by
  rw [magnitude, bits_ofMagnitude hm]
  cases negative <;> simp [Nat.mod_eq_of_lt hm]

theorem Nearest.rounds {q : ℚ} (h : Nearest q m) (negative : Bool) :
    Rounds negative q (ofMagnitude negative m) := by
  have hm : m < signPlace := Nat.lt_of_le_of_lt h.le_infinite (by decide)
  exact ⟨isNegative_ofMagnitude hm negative, by rwa [magnitude_ofMagnitude hm]⟩

theorem Rounds.unique {q : ℚ} {x y : Binary64} (hx : Rounds negative q x)
    (hy : Rounds negative q y) : x = y := by
  rw [← ofMagnitude_magnitude x, ← ofMagnitude_magnitude y, hx.sign, hy.sign,
    hx.nearest.unique hy.nearest]

end Sign

/-- A decimal is rounded to the nearest double. -/
theorem rounds_ofDecimal (negative : Bool) (x : Decimal) :
    Rounds negative x.toRat (ofDecimal negative x.digits x.exponent) := by
  have hpower : ∀ n : Nat, ((Nat.pow 10 n : Nat) : ℚ) = 10 ^ n := fun n => Nat.cast_pow 10 n
  unfold ofDecimal
  split
  · rename_i he
    apply Nearest.rounds
    have hq : x.toRat = (x.digits : ℚ) / (Nat.pow 10 x.exponent.natAbs : Nat) := by
      rw [Decimal.toRat, hpower, show x.exponent = -(x.exponent.natAbs : Int) by omega, zpow_neg,
        zpow_natCast, div_eq_mul_inv, Int.natAbs_neg, Int.natAbs_natCast]
    rw [hq]
    exact nearest_isNearest _ (pow_ten_pos _)
  · rename_i he
    apply Nearest.rounds
    have hq : x.toRat = ((x.digits * Nat.pow 10 x.exponent.natAbs : Nat) : ℚ) / (1 : Nat) := by
      rw [Decimal.toRat, Nat.cast_mul, hpower, Nat.cast_one, div_one, ← zpow_natCast,
        show (x.exponent.natAbs : Int) = x.exponent by omega]
    rw [hq]
    exact nearest_isNearest _ Nat.one_pos

/-- Rounding a decimal gives one double. -/
theorem rounds_iff {negative : Bool} {x : Decimal} {y : Binary64} :
    Rounds negative x.toRat y ↔ ofDecimal negative x.digits x.exponent = y :=
  ⟨(rounds_ofDecimal negative x).unique, fun h => h ▸ rounds_ofDecimal negative x⟩

end QueryServer.Binary64
