import QueryServer.Number.Shortest
import QueryServer.Proofs.Number.Nearest
/-!
The search for the shortest decimal of a double. It always ends in a point that rounds to the
double, at the latest on the finest grid.
-/

namespace QueryServer.Binary64

theorem roundsTo_of_onGrid? {m n d : Nat} (h : onGrid? m n = some d) :
    roundsTo m (gridPoint n d) = true := by
  simp only [onGrid?] at h
  split at h
  · rename_i hup
    simp only [Bool.and_eq_true] at hup
    obtain rfl := Option.some.inj h
    exact hup.1
  split at h
  · rename_i hbelow
    obtain rfl := Option.some.inj h
    exact hbelow
  · exact absurd h (by simp)

theorem pow_ten_pos (n : Nat) : 0 < Nat.pow 10 n :=
  Nat.pow_pos (by decide)

theorem gridPoint_eq (n d : Nat) : gridPoint n d = d * gridPoint n 1 := by
  unfold gridPoint
  generalize Nat.pow 10 n <<< 1075 = spacing
  rw [Nat.one_mul]

/-- The finest grid is finer than the steps between doubles. -/
theorem onGrid?_zero {m : Nat} (hm : 0 < m) : ∃ d, onGrid? m 0 = some d := by
  have hfine : gridPoint 0 1 < Nat.pow 10 finest := by decide +kernel
  have hpos : 0 < gridPoint 0 1 := by decide +kernel
  have hbelow : roundsTo m (gridPoint 0 (exactly m / gridPoint 0 1)) = true := by
    have hlow := steps_lt_succ (m - 1)
    have hhigh := steps_lt_succ m
    rw [Nat.sub_add_cancel hm] at hlow
    rw [gridPoint_eq]
    unfold roundsTo lowest highest exactly
    generalize Nat.pow 10 finest = unit at hfine ⊢
    generalize gridPoint 0 1 = spacing at hfine hpos ⊢
    have hlowest : (steps (m - 1) + steps m) * unit + unit ≤ 2 * steps m * unit := by
      rw [← Nat.succ_mul]
      exact Nat.mul_le_mul_right unit (by omega)
    have hhighest : 2 * steps m * unit + unit ≤ (steps m + steps (m + 1)) * unit := by
      rw [← Nat.succ_mul]
      exact Nat.mul_le_mul_right unit (by omega)
    have hsplit := Nat.div_add_mod' (2 * steps m * unit) spacing
    have hrest := Nat.mod_lt (2 * steps m * unit) hpos
    split <;> simp only [Bool.and_eq_true, decide_eq_true_eq] <;> omega
  unfold onGrid?
  dsimp only
  rw [hbelow]
  split
  · exact ⟨_, rfl⟩
  · exact ⟨_, rfl⟩

/-- The digits are a point of their grid that rounds to the magnitude, and no coarser grid that was
tried has such a point. -/
theorem shortestFrom_roundsTo {m : Nat} (hm : 0 < m) (n : Nat) :
    ∃ k d : Nat, shortestFrom m n = ⟨d, (k : Int) - finest⟩ ∧
      roundsTo m (gridPoint k d) = true ∧ ∀ j, k < j → j ≤ n → onGrid? m j = none := by
  induction n with
  | zero =>
    obtain ⟨d, hd⟩ := onGrid?_zero hm
    refine ⟨0, d, ?_, roundsTo_of_onGrid? hd, fun j hj hj' => absurd hj' (Nat.not_le.mpr hj)⟩
    rw [shortestFrom, hd, Int.natCast_zero, Int.zero_sub]
    rfl
  | succ n ih =>
    unfold shortestFrom
    split
    · rename_i d hd
      exact ⟨n + 1, d, rfl, roundsTo_of_onGrid? hd, fun j hj hj' => absurd hj' (Nat.not_le.mpr hj)⟩
    · rename_i hnone
      obtain ⟨k, d, heq, hround, hcoarser⟩ := ih
      refine ⟨k, d, heq, hround, ?_⟩
      intro j hj hj'
      rcases Nat.lt_or_eq_of_le hj' with hlt | rfl
      · exact hcoarser j hj (Nat.le_of_lt_succ hlt)
      · exact hnone

theorem ofMagnitude_magnitude (x : Binary64) : ofMagnitude x.isNegative x.magnitude = x := by
  have hplace : signPlace = 9223372036854775808 := rfl
  have hx : x.bits.toNat < 18446744073709551616 := x.bits.toNat_lt
  have hbits : (if x.isNegative = true then signPlace + x.magnitude else x.magnitude) =
      x.bits.toNat := by
    unfold isNegative magnitude
    rw [hplace]
    split <;> simp only [decide_eq_true_eq] at * <;> omega
  rw [ofMagnitude, hbits, UInt64.ofNat_toNat]

end QueryServer.Binary64
