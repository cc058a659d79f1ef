import QueryServer.Number.Numeral
import QueryServer.Proofs.Number.Reading
import QueryServer.Proofs.Sequence
/-!
Numerals of bounded size. The bound is watched at every digit, and what is read is the exact number
that the digits stand for, however many there are; only a number above the bound is refused.
-/

namespace QueryServer.Numeral

/-- The text of a number of any size: ASCII digits, and one plus sign before them or none. -/
def Denotes (cs : List Char) (n : Nat) : Prop :=
  ∃ sign digits, cs = sign ++ digits ∧ (sign = [] ∨ sign = ['+']) ∧ digits ≠ [] ∧
    (∀ d ∈ digits, d.isDigit) ∧ valueOf digits = n

variable {bound m n : Nat} {c : Char} {ds cs : List Char}

theorem push_eq_ok_iff :
    push bound m c = .ok n ↔ c.isDigit ∧ 10 * m + (c.toNat - '0'.toNat) = n ∧ n ≤ bound := by
  unfold push
  rw [Nat.mul_comm m 10]
  by_cases hdigit : c.isDigit = true
  · by_cases hsmall : 10 * m + (c.toNat - '0'.toNat) ≤ bound
    · simp only [hdigit, Bool.not_true, Bool.false_eq_true, if_false, if_pos hsmall, true_and]
      constructor
      · intro h
        cases h
        exact ⟨rfl, hsmall⟩
      · rintro ⟨rfl, -⟩
        rfl
    · simp only [hdigit, Bool.not_true, Bool.false_eq_true, if_false, if_neg hsmall, true_and]
      refine iff_of_false nofun ?_
      rintro ⟨rfl, hn⟩
      exact hsmall hn
  · simp [hdigit]

theorem le_ofDigitChars (ds : List Char) (m : Nat) : m ≤ Nat.ofDigitChars 10 ds m := by
  induction ds generalizing m with
  | nil => exact Nat.le_refl m
  | cons d ds ih =>
    rw [Nat.ofDigitChars_cons]
    exact Nat.le_trans (by omega) (ih _)

/-- Digits after a number are taken up exactly, unless what they make of it is above the bound. -/
theorem foldlM_push_eq_ok_iff (hm : m ≤ bound) :
    ds.foldlM (push bound) m = .ok n ↔
      (∀ d ∈ ds, d.isDigit) ∧ Nat.ofDigitChars 10 ds m = n ∧ n ≤ bound := by
  induction ds generalizing m with
  | nil =>
    simp only [List.foldlM_nil, List.not_mem_nil, false_implies, implies_true, true_and]
    constructor
    · intro h
      cases h
      exact ⟨rfl, hm⟩
    · rintro ⟨rfl, -⟩
      rfl
  | cons d ds ih =>
    rw [List.foldlM_cons, except_bind_eq_ok, List.forall_mem_cons, Nat.ofDigitChars_cons]
    constructor
    · rintro ⟨next, hpush, hrest⟩
      obtain ⟨hd, rfl, hnext⟩ := push_eq_ok_iff.mp hpush
      obtain ⟨hds, hvalue, hn⟩ := (ih hnext).mp hrest
      exact ⟨⟨hd, hds⟩, hvalue, hn⟩
    · rintro ⟨⟨hd, hds⟩, hvalue, hn⟩
      -- no number on the way to the last one is larger than it
      have hnext : 10 * m + (d.toNat - '0'.toNat) ≤ bound := by
        refine Nat.le_trans (le_ofDigitChars ds _) ?_
        rw [hvalue]
        exact hn
      exact ⟨_, push_eq_ok_iff.mpr ⟨hd, rfl, hnext⟩, (ih hnext).mpr ⟨hds, hvalue, hn⟩⟩

/-- What is read is exactly a text of a number up to the bound. -/
theorem read_eq_ok_iff : read bound cs = .ok n ↔ Denotes cs n ∧ n ≤ bound := by
  constructor
  · intro h
    unfold read at h
    split at h
    · cases h
    · cases h
    · rename_i ds hds
      obtain ⟨hdigits, hvalue, hn⟩ := (foldlM_push_eq_ok_iff (Nat.zero_le bound)).mp h
      refine ⟨⟨['+'], ds, rfl, .inr rfl, ?_, hdigits, hvalue⟩, hn⟩
      intro hnil
      exact hds hnil
    · rename_i hnil _ _
      obtain ⟨hdigits, hvalue, hn⟩ := (foldlM_push_eq_ok_iff (Nat.zero_le bound)).mp h
      exact ⟨⟨[], cs, rfl, .inl rfl, hnil, hdigits, hvalue⟩, hn⟩
  · rintro ⟨⟨sign, digits, rfl, hsign, hne, hdigits, hvalue⟩, hn⟩
    have hfold : digits.foldlM (push bound) 0 = .ok n :=
      (foldlM_push_eq_ok_iff (Nat.zero_le bound)).mpr ⟨hdigits, hvalue, hn⟩
    obtain ⟨d, ds, rfl⟩ := List.exists_cons_of_ne_nil hne
    rcases hsign with rfl | rfl
    · have hd : d ≠ '+' := by
        rintro rfl
        exact absurd (hdigits '+' List.mem_cons_self) nofun
      rw [List.nil_append]
      unfold read
      split
      · contradiction
      · rename_i hplus
        exact absurd (List.cons.inj hplus).1 hd
      · rename_i hplus
        exact absurd (List.cons.inj hplus).1 hd
      · exact hfold
    · exact hfold

theorem read_le (h : read bound cs = .ok n) : n ≤ bound :=
  (read_eq_ok_iff.mp h).2

theorem denotes_digitsOf (n : Nat) : Denotes (digitsOf n) n :=
  ⟨[], digitsOf n, rfl, .inl rfl, Nat.toDigits_ne_nil, fun _ => isDigit_of_mem_digitsOf,
    valueOf_digitsOf n⟩

/-- A text stands for one number. -/
theorem Denotes.unique (hm : Denotes cs m) (hn : Denotes cs n) : m = n := by
  have hread := read_eq_ok_iff.mpr ⟨hm, Nat.le_max_left m n⟩
  have hread' := read_eq_ok_iff.mpr ⟨hn, Nat.le_max_right m n⟩
  exact Except.ok.inj (hread.symm.trans hread')

end QueryServer.Numeral
