import Mathlib.Data.List.TakeWhile
import QueryServer.Text.Blank
/-!
Trimming. Only blanks are cut off, and what is left neither begins nor ends with one.
-/

namespace QueryServer.Text

/-- A text of blanks only, or of nothing. -/
def Blanks (cs : List Char) : Prop :=
  ∀ c ∈ cs, isBlank c

instance (cs : List Char) : Decidable (Blanks cs) :=
  decidable_of_decidable_of_iff (p := cs.all isBlank = true) List.all_eq_true

variable {before cs after : List Char}

/-- Among the ASCII characters after the space there is no blank. -/
theorem not_blank_of_visible {c : Char} (hlow : 0x20 < c.toNat) (hhigh : c.toNat < 0x80) :
    isBlank c = false := by
  rw [Bool.eq_false_iff]
  intro hblank
  simp only [isBlank, Bool.or_eq_true, Bool.and_eq_true, decide_eq_true_eq, beq_iff_eq] at hblank
  omega

theorem Blanks.append (hb : Blanks before) (ha : Blanks after) : Blanks (before ++ after) := by
  intro c hc
  rcases List.mem_append.mp hc with h | h
  · exact hb c h
  · exact ha c h

theorem trimStart_append (h : Blanks before) (cs : List Char) :
    trimStart (before ++ cs) = trimStart cs :=
  List.dropWhile_append_of_pos h

theorem trimStart_eq_nil_iff : trimStart cs = [] ↔ Blanks cs :=
  List.dropWhile_eq_nil_iff

theorem trimStart_of_head (h : ∀ c, cs.head? = some c → isBlank c = false) :
    trimStart cs = cs := by
  cases cs with
  | nil => rfl
  | cons c cs => exact List.dropWhile_cons_of_neg (by simp [h c rfl])

/-- What is cut off at the front are blanks. -/
theorem exists_trimStart (cs : List Char) : ∃ before, Blanks before ∧ cs = before ++ trimStart cs := by
  refine ⟨cs.takeWhile isBlank, ?_, List.takeWhile_append_dropWhile.symm⟩
  intro c hc
  exact List.all_eq_true.mp List.all_takeWhile c hc

/-- What is cut off at both ends are blanks. -/
theorem exists_trim (cs : List Char) :
    ∃ before after, Blanks before ∧ Blanks after ∧ cs = before ++ trim cs ++ after := by
  obtain ⟨before, hbefore, hcs⟩ := exists_trimStart cs
  obtain ⟨after, hafter, hrest⟩ := exists_trimStart (trimStart cs).reverse
  refine ⟨before, after.reverse, hbefore, ?_, ?_⟩
  · intro c hc
    exact hafter c (List.mem_reverse.mp hc)
  · have hback := congrArg List.reverse hrest
    rw [List.reverse_reverse, List.reverse_append] at hback
    rw [List.append_assoc, trim, ← hback, ← hcs]

/-- Blanks around a text that has none at its ends are all that is cut off. -/
theorem trim_surrounded (hb : Blanks before) (ha : Blanks after)
    (hfirst : ∀ c, cs.head? = some c → isBlank c = false)
    (hlast : ∀ c, cs.getLast? = some c → isBlank c = false) :
    trim (before ++ cs ++ after) = cs := by
  have hback : Blanks after.reverse := by
    intro c hc
    exact ha c (List.mem_reverse.mp hc)
  rw [trim, List.append_assoc, trimStart_append hb]
  cases cs with
  | nil =>
    rw [List.nil_append, trimStart_eq_nil_iff.mpr ha]
    rfl
  | cons c cs =>
    have hstart : trimStart (c :: cs ++ after) = c :: cs ++ after :=
      trimStart_of_head (by simpa using hfirst)
    have hend : trimStart (c :: cs).reverse = (c :: cs).reverse :=
      trimStart_of_head fun d hd => hlast d (by rwa [List.head?_reverse] at hd)
    rw [hstart, List.reverse_append, trimStart_append hback, hend, List.reverse_reverse]

theorem trim_eq_nil_iff : trim cs = [] ↔ Blanks cs := by
  constructor
  · intro h
    obtain ⟨before, after, hb, ha, hcs⟩ := exists_trim cs
    rw [h, List.append_nil] at hcs
    rw [hcs]
    exact hb.append ha
  · intro h
    rw [trim, trimStart_eq_nil_iff.mpr h]
    rfl

end QueryServer.Text
