import Mathlib.Data.Nat.Digits.Lemmas
import QueryServer.Proofs.Number.Rounding
/-!
The shortest decimal of a double is read back as the double, and it has the fewest digits of all
decimals that are. None of these lies on a coarser grid, and if one had fewer digits, a power of ten
that does would lie between the two.
-/

namespace QueryServer.Binary64

/-- The count of digits without the zeros before and after them. -/
def Decimal.significant (x : Decimal) : Nat :=
  ((Nat.digits 10 x.digits).dropWhile (· = 0)).length

section Grid

variable {m n d x y : Nat}

theorem lowest_lt_exactly (hm : 0 < m) : lowest m < exactly m := by
  have hlow := steps_lt_succ (m - 1)
  rw [Nat.sub_add_cancel hm] at hlow
  exact Nat.mul_lt_mul_of_pos_right (by omega) (pow_ten_pos finest)

theorem exactly_lt_highest (m : Nat) : exactly m < highest m := by
  have hhigh := steps_lt_succ m
  exact Nat.mul_lt_mul_of_pos_right (by omega) (pow_ten_pos finest)

theorem roundsTo_iff :
    roundsTo m x = true ↔ (lowest m < x ∨ lowest m = x ∧ m % 2 = 0) ∧
      (x < highest m ∨ highest m = x ∧ m % 2 = 0) := by
  unfold roundsTo
  split <;> rename_i hlast <;> simp only [beq_iff_eq] at hlast <;>
    simp only [Bool.and_eq_true, decide_eq_true_eq] <;> omega

/-- What lies between the double and what rounds to it rounds to it too. -/
theorem roundsTo_above (h : roundsTo m x = true) (hxy : x ≤ y) (hy : y ≤ exactly m) :
    roundsTo m y = true := by
  have hhigh := exactly_lt_highest m
  rw [roundsTo_iff] at h ⊢
  omega

theorem roundsTo_below (hm : 0 < m) (h : roundsTo m x = true) (hyx : y ≤ x) (hy : exactly m ≤ y) :
    roundsTo m y = true := by
  have hlow := lowest_lt_exactly hm
  rw [roundsTo_iff] at h ⊢
  omega

theorem gridPoint_pos (n : Nat) : 0 < gridPoint n 1 := by
  unfold gridPoint
  rw [Nat.one_mul]
  exact Nat.lt_of_lt_of_le (pow_ten_pos n) Nat.le_shiftLeft

theorem shiftLeft_mono {a b : Nat} (h : a ≤ b) (s : Nat) : a <<< s ≤ b <<< s := by
  rw [Nat.shiftLeft_eq, Nat.shiftLeft_eq]
  exact Nat.mul_le_mul_right _ h

theorem gridPoint_mono {c d : Nat} (n : Nat) (h : c ≤ d) : gridPoint n c ≤ gridPoint n d := by
  rw [gridPoint_eq n c, gridPoint_eq n d]
  exact Nat.mul_le_mul_right _ h

theorem gridPoint_coarser {j n : Nat} (h : j ≤ n) : gridPoint j 1 ≤ gridPoint n 1 := by
  unfold gridPoint
  rw [Nat.one_mul, Nat.one_mul]
  exact shiftLeft_mono (Nat.pow_le_pow_right (by decide) h) 1075

/-- A grid with a point that rounds to the double has one next to it. -/
theorem onGrid?_ne_none (hm : 0 < m) (h : roundsTo m (gridPoint n d) = true) :
    onGrid? m n ≠ none := by
  have hpos := gridPoint_pos n
  have hbelow : gridPoint n (exactly m / gridPoint n 1) ≤ exactly m := by
    rw [gridPoint_eq]
    exact Nat.div_mul_le_self _ _
  have habove : exactly m ≤ gridPoint n (exactly m / gridPoint n 1 + 1) := by
    rw [gridPoint_eq, Nat.succ_mul]
    exact Nat.le_of_lt (Nat.lt_div_mul_add hpos)
  unfold onGrid?
  dsimp only
  -- the point is above the double or not; the point next to the double on that side is no farther
  rcases Nat.lt_or_ge (exactly m / gridPoint n 1) d with hd | hd
  · have hnext := roundsTo_below hm h (gridPoint_mono n hd) habove
    rw [hnext]
    split
    · nofun
    · rename_i hfar
      have hlast : roundsTo m (gridPoint n (exactly m / gridPoint n 1)) = true := by
        by_contra hno
        exact hfar (by simp [hno])
      rw [if_pos hlast]
      nofun
  · have hlast := roundsTo_above h (gridPoint_mono n hd) hbelow
    rw [hlast]
    split <;> nofun

theorem steps_lt_of_finite (hm : m < infinite) : steps m + steps (m + 1) < 2 * steps infinite := by
  have hfirst := steps_lt_succ m
  have hlast : steps (m + 1) ≤ steps infinite := steps_mono hm
  omega

/-- All doubles lie below the grids that are not tried. -/
theorem highest_lt_gridPoint (hm : m < infinite) (hn : 633 ≤ n) (hd : 0 < d) :
    highest m < gridPoint n d := by
  have hgreatest : 2 * steps infinite * Nat.pow 10 finest ≤ gridPoint 633 1 := by decide +kernel
  have hfinite : highest m < 2 * steps infinite * Nat.pow 10 finest :=
    Nat.mul_lt_mul_of_pos_right (steps_lt_of_finite hm) (pow_ten_pos finest)
  exact (hfinite.trans_le hgreatest).trans_le ((gridPoint_coarser hn).trans (gridPoint_mono n hd))

/-- The digits are a point of their grid, and no coarser grid has a point that rounds to the
double. -/
theorem shortest_coarsest (hm : 0 < m) (hfinite : m < infinite) :
    ∃ k d : Nat, shortest m = ⟨d, (k : Int) - finest⟩ ∧ roundsTo m (gridPoint k d) = true ∧
      ∀ n c, roundsTo m (gridPoint n c) = true → n ≤ k := by
  obtain ⟨k, d, hshortest, hround, hcoarser⟩ := shortestFrom_roundsTo hm 633
  refine ⟨k, d, hshortest, hround, ?_⟩
  intro n c hc
  by_contra hn
  have hnone := mt (hcoarser n (Nat.not_le.mp hn)) (onGrid?_ne_none hm hc)
  rcases Nat.eq_zero_or_pos c with rfl | hpos
  · rw [gridPoint_eq, Nat.zero_mul, roundsTo_iff] at hc
    have hlow : 0 < lowest m :=
      Nat.mul_pos (Nat.add_pos_right _ (Nat.zero_lt_of_lt (steps_strictMono hm)))
        (pow_ten_pos finest)
    omega
  · have hlarge := highest_lt_gridPoint hfinite (by omega : 633 ≤ n) hpos
    rw [roundsTo_iff] at hc
    omega

end Grid

section Scale

variable {m n d x y : Nat}

/-- The numbers that are compared as multiples of 10^-324 times 2^-1075. -/
def scaled (x : Nat) : ℚ :=
  x / 2 ^ 1075 / 10 ^ finest

theorem cast_pow_ten (n : Nat) : ((Nat.pow 10 n : Nat) : ℚ) = 10 ^ n :=
  Nat.cast_pow 10 n

theorem cast_shiftLeft (a s : Nat) : ((a <<< s : Nat) : ℚ) = a * 2 ^ s := by
  rw [Nat.shiftLeft_eq]
  push_cast
  rfl

theorem scaled_lt_iff : scaled x < scaled y ↔ x < y := by
  rw [scaled, scaled, div_lt_div_iff_of_pos_right (by positivity),
    div_lt_div_iff_of_pos_right (by positivity), Nat.cast_lt]

theorem scaled_inj : scaled x = scaled y ↔ x = y := by
  rw [scaled, scaled, div_left_inj' (by positivity), div_left_inj' (by positivity), Nat.cast_inj]

theorem scaled_mul (a : Nat) : scaled (a * Nat.pow 10 finest) = a / 2 ^ 1074 / 2 := by
  rw [scaled, Nat.cast_mul, cast_pow_ten, div_div, mul_comm (2 ^ 1075), ← div_div,
    mul_div_cancel_right₀ _ (by positivity), pow_succ, div_div]

theorem scaled_exactly (m : Nat) : scaled (exactly m) = size m := by
  rw [exactly, scaled_mul, size, Nat.cast_mul, Nat.cast_two, mul_div_assoc,
    mul_div_cancel_left₀ _ two_ne_zero]

theorem scaled_highest (m : Nat) : scaled (highest m) = middle m := by
  rw [highest, scaled_mul, middle, size, size, Nat.cast_add, add_div]

theorem scaled_lowest (hm : 0 < m) : scaled (lowest m) = middle (m - 1) := by
  rw [← scaled_highest, lowest, highest, Nat.sub_add_cancel hm]

theorem cast_mul_pow_shiftLeft (d n s f : Nat) :
    ((d * Nat.pow 10 n <<< s : Nat) : ℚ) / 2 ^ s / 10 ^ f = d * 10 ^ ((n : Int) - f) := by
  rw [Nat.cast_mul, cast_shiftLeft, cast_pow_ten, ← mul_assoc,
    mul_div_cancel_right₀ _ (pow_ne_zero _ two_ne_zero), zpow_sub₀ (by norm_num), zpow_natCast,
    zpow_natCast, mul_div_assoc]

theorem scaled_gridPoint (n d : Nat) :
    scaled (gridPoint n d) = Decimal.toRat ⟨d, (n : Int) - finest⟩ :=
  cast_mul_pow_shiftLeft d n 1075 finest

/-- Between the ends of its interval lies what is rounded to a double. -/
theorem roundsTo_iff_nearest (hm : 0 < m) (hfinite : m < infinite) :
    roundsTo m x = true ↔ Nearest (scaled x) m := by
  rw [roundsTo_iff, nearest_iff_takes, ← scaled_lt_iff, ← scaled_lt_iff,
    ← scaled_inj (x := lowest m), ← scaled_inj (x := highest m), scaled_lowest hm, scaled_highest]
  exact ⟨fun ⟨habove, hbelow⟩ => ⟨hfinite.le, fun _ => habove, fun _ => hbelow⟩,
    fun h => ⟨h.above hm, h.below hfinite⟩⟩

/-- The exponent of the shortest decimal is the greatest of all that are rounded to the double. -/
theorem exponent_le_shortest (hm : 0 < m) (hfinite : m < infinite) {x : Decimal}
    (hx : Nearest x.toRat m) : x.exponent ≤ (shortest m).exponent := by
  obtain ⟨k, d, hshortest, -, hcoarsest⟩ := shortest_coarsest hm hfinite
  rw [hshortest]
  by_contra hlarge
  dsimp only at hlarge
  obtain ⟨n, hn⟩ : ∃ n : Nat, (n : Int) - finest = x.exponent :=
    ⟨(x.exponent + finest).toNat, by omega⟩
  have hround : roundsTo m (gridPoint n x.digits) = true := by
    rw [roundsTo_iff_nearest hm hfinite, scaled_gridPoint, hn]
    exact hx
  have := hcoarsest n x.digits hround
  omega

theorem shortest_isNearest (hm : 0 < m) (hfinite : m < infinite) :
    Nearest (shortest m).toRat m := by
  obtain ⟨k, d, hshortest, hround, -⟩ := shortest_coarsest hm hfinite
  rwa [roundsTo_iff_nearest hm hfinite, scaled_gridPoint, ← hshortest] at hround

end Scale

section Digits

variable {m n : Nat} {x : Decimal}

theorem ten_zpow_pos (e : Int) : (0 : ℚ) < 10 ^ e :=
  zpow_pos (by norm_num) e

/-- Zeros after the digits may be taken into the exponent. -/
theorem Decimal.toRat_mul_pow (n zeros : Nat) (e : Int) :
    Decimal.toRat ⟨n * Nat.pow 10 zeros, e⟩ = Decimal.toRat ⟨n, e + zeros⟩ := by
  rw [Decimal.toRat, Decimal.toRat, Nat.cast_mul, cast_pow_ten, zpow_add₀ (by norm_num),
    zpow_natCast, mul_assoc, mul_comm (10 ^ zeros)]

theorem Decimal.toRat_lt {x y : Decimal} {n : Nat} (hx : x.digits < Nat.pow 10 n)
    (hy : Nat.pow 10 n ≤ y.digits) (he : x.exponent ≤ y.exponent) :
    x.toRat < Decimal.toRat ⟨1, y.exponent + n⟩ ∧ Decimal.toRat ⟨1, y.exponent + n⟩ ≤ y.toRat := by
  have hpower : Decimal.toRat ⟨1, y.exponent + n⟩ = (Nat.pow 10 n : Nat) * 10 ^ y.exponent := by
    rw [← Decimal.toRat_mul_pow, Nat.one_mul, Decimal.toRat]
  rw [hpower]
  constructor
  · calc x.toRat ≤ x.digits * 10 ^ y.exponent :=
          mul_le_mul_of_nonneg_left (zpow_le_zpow_right₀ (by norm_num) he) (Nat.cast_nonneg _)
      _ < (Nat.pow 10 n : Nat) * 10 ^ y.exponent :=
          mul_lt_mul_of_pos_right (Nat.cast_lt.mpr hx) (ten_zpow_pos _)
  · exact mul_le_mul_of_nonneg_right (Nat.cast_le.mpr hy) (ten_zpow_pos _).le

/-- With fewer digits there would be a power of ten between the two, which lies on a coarser grid
unless it is one. -/
theorem length_shortest_le (hm : 0 < m) (hfinite : m < infinite) (hx : Nearest x.toRat m) :
    (Nat.digits 10 (shortest m).digits).length ≤ (Nat.digits 10 x.digits).length := by
  by_contra hfewer
  rw [Nat.not_le, Nat.lt_digits_length_iff (by decide)] at hfewer
  have hlength : x.digits < 10 ^ (Nat.digits 10 x.digits).length :=
    Nat.lt_base_pow_length_digits (by decide)
  obtain ⟨hlow, hhigh⟩ :=
    Decimal.toRat_lt hlength hfewer (exponent_le_shortest hm hfinite hx)
  have hpower := hx.between (shortest_isNearest hm hfinite) hlow.le hhigh
  have hcoarse := exponent_le_shortest hm hfinite hpower
  have hnone : (Nat.digits 10 x.digits).length = 0 := by
    dsimp only at hcoarse
    omega
  rw [hnone, pow_zero, Nat.lt_one_iff] at hlength
  have hzero : x.toRat = 0 := by rw [Decimal.toRat, hlength, Nat.cast_zero, zero_mul]
  have := hx.pos hm
  exact absurd hzero this.ne'

/-- The digits that are left without the zeros after them. -/
theorem exists_stripped (n : Nat) :
    ∃ c zeros, n = c * Nat.pow 10 zeros ∧
      ((Nat.digits 10 n).dropWhile (· = 0)).length = (Nat.digits 10 c).length := by
  induction n using Nat.strongRecOn with
  | ind n ih =>
    rcases Nat.eq_zero_or_pos n with rfl | hpos
    · exact ⟨0, 0, rfl, rfl⟩
    have hdigits := Nat.digits_def' (by decide : 1 < 10) hpos
    by_cases hlast : n % 10 = 0
    · obtain ⟨c, zeros, hn, hlength⟩ := ih (n / 10) (Nat.div_lt_self hpos (by decide))
      refine ⟨c, zeros + 1, ?_, ?_⟩
      · have hpower : Nat.pow 10 (zeros + 1) = Nat.pow 10 zeros * 10 := rfl
        rw [hpower, ← Nat.mul_assoc, ← hn]
        omega
      · rw [hdigits, hlast, List.dropWhile_cons_of_pos (by decide), hlength]
    · refine ⟨n, 0, (Nat.mul_one n).symm, ?_⟩
      rw [hdigits, List.dropWhile_cons_of_neg (by simpa using hlast)]

/-- Zeros after the digits are not significant. -/
theorem significant_le_length (n zeros : Nat) (e : Int) :
    Decimal.significant ⟨n * Nat.pow 10 zeros, e⟩ ≤ (Nat.digits 10 n).length := by
  rcases Nat.eq_zero_or_pos n with rfl | hpos
  · rw [Nat.zero_mul]
    exact Nat.le_refl _
  · have hzeros : ∀ d ∈ List.replicate zeros 0, decide (d = 0) = true := fun d hd =>
      decide_eq_true (List.eq_of_mem_replicate hd)
    have hdigits : Nat.digits 10 (n * Nat.pow 10 zeros) =
        List.replicate zeros 0 ++ Nat.digits 10 n := by
      rw [Nat.mul_comm]
      exact Nat.digits_base_pow_mul (by decide) hpos
    rw [Decimal.significant, hdigits, List.dropWhile_append_of_pos hzeros]
    exact (List.dropWhile_sublist _).length_le

/-- No decimal with fewer significant digits is rounded to the double. -/
theorem significant_shortest_le (hm : 0 < m) (hfinite : m < infinite) (zeros : Nat) (e : Int)
    (hx : Nearest x.toRat m) :
    Decimal.significant ⟨(shortest m).digits * Nat.pow 10 zeros, e⟩ ≤ x.significant := by
  obtain ⟨c, dropped, hdigits, hlength⟩ := exists_stripped x.digits
  have hstripped : Decimal.toRat ⟨c, x.exponent + dropped⟩ = x.toRat := by
    rw [← Decimal.toRat_mul_pow, ← hdigits]
  calc Decimal.significant ⟨(shortest m).digits * Nat.pow 10 zeros, e⟩
      ≤ (Nat.digits 10 (shortest m).digits).length := significant_le_length _ zeros e
    _ ≤ (Nat.digits 10 c).length := length_shortest_le hm hfinite (hstripped ▸ hx)
    _ = x.significant := hlength.symm

/-- Any count of zeros may follow the digits if the exponent is lowered for them. -/
theorem shortest_padded_isNearest (hm : 0 < m) (hfinite : m < infinite) (zeros : Nat) :
    Nearest (Decimal.toRat
      ⟨(shortest m).digits * Nat.pow 10 zeros, (shortest m).exponent - zeros⟩) m := by
  rw [Decimal.toRat_mul_pow, Int.sub_add_cancel]
  exact shortest_isNearest hm hfinite

theorem ofDecimal_shortest (hm : 0 < m) (hfinite : m < infinite) (negative : Bool) (zeros : Nat) :
    ofDecimal negative ((shortest m).digits * Nat.pow 10 zeros) ((shortest m).exponent - zeros) =
      ofMagnitude negative m := by
  have hrounds := (shortest_padded_isNearest hm hfinite zeros).rounds negative
  -- read off first: against the goal the decimal would be found by unfolding the rounding
  have hread := rounds_iff.mp hrounds
  exact hread

end Digits

end QueryServer.Binary64
