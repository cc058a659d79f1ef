import QueryServer.Number.Written
import QueryServer.Proofs.Number.Fewest
/-!
Reading numbers. Integers and doubles survive the way through their text, all that are no numbers
as one of them, and no text is that of an integer and of a double.
-/

namespace QueryServer

def valueOf (ds : List Char) : Nat :=
  Nat.ofDigitChars 10 ds 0

def readNat? (cs : List Char) : Option Nat :=
  if cs ≠ [] ∧ cs.all Char.isDigit then some (valueOf cs) else none

/-- An integer with a minus sign or without a sign. -/
def readInt? (cs : List Char) : Option Int :=
  match readNat? cs, cs with
  | some n, _ => some n
  | none, '-' :: ds => (readNat? ds).map fun n : Nat => -(n : Int)
  | none, _ => none

/-- At least one digit and nothing else. -/
def IsDigits (ds : List Char) : Prop :=
  ds ≠ [] ∧ ∀ c ∈ ds, c.isDigit

theorem isDigits_zero : IsDigits ['0'] :=
  ⟨nofun, List.all_eq_true.mp rfl⟩

theorem isDigit_of_mem_digitsOf {c : Char} {n : Nat} (h : c ∈ digitsOf n) : c.isDigit :=
  Nat.isDigit_of_mem_toDigits (by decide) (by decide) h

theorem valueOf_digitsOf (n : Nat) : valueOf (digitsOf n) = n :=
  Nat.ofDigitChars_ten_toDigits

theorem valueOf_zeros_append (n : Nat) (ds : List Char) :
    valueOf (List.replicate n '0' ++ ds) = valueOf ds := by
  simp [valueOf, Nat.ofDigitChars_append]

theorem valueOf_append_zeros (ds : List Char) (n : Nat) :
    valueOf (ds ++ List.replicate n '0') = valueOf ds * Nat.pow 10 n := by
  rw [valueOf, Nat.ofDigitChars_append, Nat.ofDigitChars_replicate_zero, Nat.mul_comm]
  rfl

theorem readNat?_digitsOf (n : Nat) : readNat? (digitsOf n) = some n := by
  have hne : digitsOf n ≠ [] := Nat.toDigits_ne_nil
  have hall : (digitsOf n).all Char.isDigit = true :=
    List.all_eq_true.mpr fun _ h => isDigit_of_mem_digitsOf h
  rw [readNat?, if_pos ⟨hne, hall⟩, valueOf_digitsOf]

theorem readInt?_writeInt (n : Int) : readInt? (writeInt n) = some n := by
  unfold writeInt
  split
  · have hminus : readNat? ('-' :: digitsOf n.natAbs) = none := by simp [readNat?]
    have hn : -(n.natAbs : Int) = n := by omega
    unfold readInt?
    rw [hminus]
    simp only [readNat?_digitsOf, Option.map_some, hn]
  · have hn : (n.natAbs : Int) = n := by omega
    unfold readInt?
    rw [readNat?_digitsOf]
    dsimp only
    rw [hn]

namespace Binary64

/-- The power of ten that may follow digits. -/
def readPower? : List Char → Option Int
  | [] => some 0
  | 'e' :: '+' :: ds => some (valueOf ds)
  | 'e' :: '-' :: ds => some (-(valueOf ds : Int))
  | _ => none

/-- Digits with a point among them, a power of ten after them, or both. -/
def readDecimal? (cs : List Char) : Option Decimal :=
  let whole := cs.takeWhile Char.isDigit
  match cs.dropWhile Char.isDigit with
  | [] => none
  | '.' :: cs =>
    let fraction := cs.takeWhile Char.isDigit
    (readPower? (cs.dropWhile Char.isDigit)).map fun e =>
      ⟨valueOf (whole ++ fraction), e - fraction.length⟩
  | cs => (readPower? cs).map fun e => ⟨valueOf whole, e⟩

def readMagnitude? (negative : Bool) (cs : List Char) : Option Binary64 :=
  if cs = "inf".toList then some (ofMagnitude negative infinite)
  else (readDecimal? cs).map fun x => ofDecimal negative x.digits x.exponent

/-- What stands for everything that is not a number. -/
def quiet : Binary64 :=
  ⟨0x7FF8000000000000⟩

/-- A double with a minus sign or without a sign. -/
def read? (cs : List Char) : Option Binary64 :=
  match readMagnitude? false cs, cs with
  | some x, _ => some x
  | none, '-' :: cs => readMagnitude? true cs
  | none, cs => if cs = "nan".toList then some quiet else none

section Decimal

variable {whole fraction es : List Char} {e : Int}

theorem takeWhile_power (he : readPower? es = some e) : es.takeWhile Char.isDigit = [] := by
  unfold readPower? at he
  split at he
  · rfl
  · rfl
  · rfl
  · cases he

theorem readDecimal?_point (hw : ∀ c ∈ whole, c.isDigit) (hf : ∀ c ∈ fraction, c.isDigit)
    (he : readPower? es = some e) :
    readDecimal? (whole ++ '.' :: (fraction ++ es)) =
      some ⟨valueOf (whole ++ fraction), e - fraction.length⟩ := by
  have hpoint : ¬ Char.isDigit '.' = true := by decide
  have htake := takeWhile_power he
  have hdrop : es.dropWhile Char.isDigit = es := by
    have h := List.takeWhile_append_dropWhile (p := Char.isDigit) (l := es)
    rwa [htake, List.nil_append] at h
  simp [readDecimal?, List.takeWhile_append_of_pos hw, List.dropWhile_append_of_pos hw,
    List.takeWhile_append_of_pos hf, List.dropWhile_append_of_pos hf, hpoint, htake, hdrop, he]

theorem readDecimal?_power (hw : ∀ c ∈ whole, c.isDigit) (he : readPower? ('e' :: es) = some e) :
    readDecimal? (whole ++ 'e' :: es) = some ⟨valueOf whole, e⟩ := by
  have hmark : ¬ Char.isDigit 'e' = true := by decide
  simp [readDecimal?, List.takeWhile_append_of_pos hw, List.dropWhile_append_of_pos hw, hmark, he]

theorem readDecimal?_digits (hw : ∀ c ∈ whole, c.isDigit) : readDecimal? whole = none := by
  have hdrop : (whole ++ []).dropWhile Char.isDigit = [].dropWhile Char.isDigit :=
    List.dropWhile_append_of_pos hw
  rw [List.append_nil] at hdrop
  simp [readDecimal?, hdrop]

/-- Digits around a point, with nothing after them. -/
theorem readDecimal?_places {d : Nat} (hw : ∀ c ∈ whole, c.isDigit) (hf : ∀ c ∈ fraction, c.isDigit)
    (hd : valueOf (whole ++ fraction) = d) (he : -(fraction.length : Int) = e) :
    readDecimal? (whole ++ '.' :: fraction) = some ⟨d, e⟩ := by
  have hnone : readPower? [] = some 0 := rfl
  have h := readDecimal?_point hw hf hnone
  rw [List.append_nil, Int.zero_sub, hd, he] at h
  exact h

theorem isDigit_of_mem_zeros {c : Char} {n : Nat} (h : c ∈ List.replicate n '0') : c.isDigit := by
  rw [List.eq_of_mem_replicate h]
  rfl

/-- A positional text has digits on both sides of its point; they are those of the decimal, with
zeros after them where it has no places. -/
theorem exists_places (x : Decimal) :
    ∃ whole fraction, ∃ zeros : Nat, positional x = whole ++ '.' :: fraction ∧ IsDigits whole ∧
      IsDigits fraction ∧ valueOf (whole ++ fraction) = x.digits * Nat.pow 10 zeros ∧
      -(fraction.length : Int) = x.exponent - zeros := by
  have hdigits : ∀ c ∈ digitsOf x.digits, c.isDigit := fun _ => isDigit_of_mem_digitsOf
  have hlength : 0 < (digitsOf x.digits).length := List.length_pos_iff.mpr Nat.toDigits_ne_nil
  have hvalue : x.digits = x.digits * Nat.pow 10 0 := (Nat.mul_one _).symm
  unfold positional
  dsimp only
  split
  · refine ⟨_, ['0'], x.exponent.toNat + 1, rfl, ⟨?_, ?_⟩, isDigits_zero, ?_, ?_⟩
    · simp [digitsOf]
    · intro c hc
      rcases List.mem_append.mp hc with h | h
      · exact hdigits c h
      · exact isDigit_of_mem_zeros h
    · rw [List.append_assoc, ← List.replicate_one, List.replicate_append_replicate,
        valueOf_append_zeros, valueOf_digitsOf]
    · simp only [List.length_singleton]
      omega
  split
  · refine ⟨_, _, 0, rfl, ⟨?_, fun c hc => hdigits c (List.mem_of_mem_take hc)⟩,
      ⟨?_, fun c hc => hdigits c (List.mem_of_mem_drop hc)⟩, ?_, ?_⟩
    · rw [← List.length_pos_iff, List.length_take]
      omega
    · rw [← List.length_pos_iff, List.length_drop]
      omega
    · rw [List.take_append_drop, valueOf_digitsOf, ← hvalue]
    · rw [List.length_drop]
      omega
  · rw [List.cons_append, List.cons_append]
    refine ⟨['0'], _, 0, rfl, isDigits_zero, ⟨?_, ?_⟩, ?_, ?_⟩
    · rw [← List.length_pos_iff, List.length_append]
      omega
    · intro c hc
      rcases List.mem_append.mp hc with h | h
      · exact isDigit_of_mem_zeros h
      · exact hdigits c h
    · rw [← List.replicate_one, ← List.append_assoc, List.replicate_append_replicate,
        valueOf_zeros_append, valueOf_digitsOf, ← hvalue]
    · rw [List.length_append, List.length_replicate]
      omega

/-- A positional text gives the decimal back, in tenths where it has no other places. -/
theorem readDecimal?_positional (x : Decimal) :
    ∃ zeros : Nat, readDecimal? (positional x) =
      some ⟨x.digits * Nat.pow 10 zeros, x.exponent - zeros⟩ := by
  obtain ⟨whole, fraction, zeros, htext, hw, hf, hvalue, hexponent⟩ := exists_places x
  rw [htext]
  exact ⟨zeros, readDecimal?_places hw.2 hf.2 hvalue hexponent⟩

theorem readPower?_written (width : Nat) (e : Int) :
    readPower? ('e' :: (if e < 0 then '-' else '+') ::
      (List.replicate (width - (digitsOf e.natAbs).length) '0' ++ digitsOf e.natAbs)) = some e := by
  split <;> simp only [readPower?, valueOf_zeros_append, valueOf_digitsOf, Option.some.injEq] <;>
    omega

/-- A text in exponent form gives the decimal back. -/
theorem readDecimal?_scientific (width : Nat) (x : Decimal) :
    readDecimal? (scientific width x) = some x := by
  have hdigits : ∀ c ∈ digitsOf x.digits, c.isDigit := fun _ => isDigit_of_mem_digitsOf
  have hfirst : ∀ c ∈ (digitsOf x.digits).take 1, c.isDigit := fun c hc =>
    hdigits c (List.mem_of_mem_take hc)
  have hothers : ∀ c ∈ (digitsOf x.digits).drop 1, c.isDigit := fun c hc =>
    hdigits c (List.mem_of_mem_drop hc)
  have hpower := readPower?_written width (x.exponent + ((digitsOf x.digits).length - 1 : Nat))
  simp only [scientific, List.append_assoc, List.cons_append]
  split
  · rename_i hlength
    rw [List.nil_append, readDecimal?_power hfirst hpower, List.take_of_length_le hlength,
      valueOf_digitsOf, Nat.sub_eq_zero_of_le hlength, Int.natCast_zero, Int.add_zero]
  · rw [List.cons_append, readDecimal?_point hfirst hothers hpower, List.take_append_drop,
      valueOf_digitsOf, List.length_drop, Int.add_sub_cancel]

end Decimal

theorem readMagnitude?_of_decimal {cs : List Char} {x : Decimal} (h : readDecimal? cs = some x)
    (negative : Bool) :
    readMagnitude? negative cs = some (ofDecimal negative x.digits x.exponent) := by
  have hinf : readDecimal? "inf".toList = none := by decide
  have hne : cs ≠ "inf".toList := by
    rintro rfl
    rw [hinf] at h
    cases h
  rw [readMagnitude?, if_neg hne, h, Option.map_some]

/-- What is read from the text of a magnitude is its shortest decimal, with any count of zeros
after its digits. -/
theorem readDecimal?_writeMagnitude {m : Nat} (hm : m ≠ 0) (hfinite : m ≠ infinite) :
    ∃ zeros : Nat, readDecimal? (writeMagnitude .wire m) =
      some ⟨(shortest m).digits * Nat.pow 10 zeros, (shortest m).exponent - zeros⟩ := by
  rw [writeMagnitude, if_neg (by simpa using hm), if_neg (by simpa using hfinite)]
  split
  · exact readDecimal?_positional (shortest m)
  · have hdigits : (shortest m).digits * Nat.pow 10 0 = (shortest m).digits := Nat.mul_one _
    refine ⟨0, ?_⟩
    rw [readDecimal?_scientific, hdigits, Int.natCast_zero, Int.sub_zero]

/-- Magnitudes up to the infinite one survive the way through their text. -/
theorem readMagnitude?_written {m : Nat} (hm : m ≤ infinite) (negative : Bool) :
    readMagnitude? negative (writeMagnitude .wire m) = some (ofMagnitude negative m) := by
  by_cases hzero : m = 0
  · subst hzero
    have hread : readDecimal? (writeMagnitude .wire 0) = some ⟨0, -1⟩ := by decide
    rw [readMagnitude?_of_decimal hread, ofDecimal, if_pos (by decide), nearest_zero]
  by_cases hinfinite : m = infinite
  · subst hinfinite
    rfl
  obtain ⟨zeros, hread⟩ := readDecimal?_writeMagnitude hzero hinfinite
  rw [readMagnitude?_of_decimal hread, ofDecimal_shortest (by omega) (by omega)]

theorem readMagnitude?_minus (negative : Bool) (cs : List Char) :
    readMagnitude? negative ('-' :: cs) = none := by
  simp [readMagnitude?, readDecimal?, readPower?]

/-- All that are not numbers are one. -/
def normal (x : Binary64) : Binary64 :=
  if x.isNaN then quiet else x

/-- A double is read back from its text. -/
theorem read?_write (x : Binary64) : read? (x.write .wire) = some x.normal := by
  unfold write normal
  split
  · rfl
  rename_i hnan
  have hm : x.magnitude ≤ infinite := by
    simp only [isNaN, decide_eq_true_eq] at hnan
    omega
  have hx := ofMagnitude_magnitude x
  split
  · rename_i hnegative
    simp only [read?, readMagnitude?_minus, readMagnitude?_written hm]
    rw [← hnegative, hx]
  · rename_i hnegative
    simp only [read?, readMagnitude?_written hm]
    rw [← Bool.eq_false_iff.mpr hnegative, hx]

theorem readMagnitude?_digitsOf (negative : Bool) (n : Nat) :
    readMagnitude? negative (digitsOf n) = none := by
  have hinf : digitsOf n ≠ "inf".toList := by
    intro h
    have hi : 'i' ∈ digitsOf n := by rw [h]; decide
    exact absurd (isDigit_of_mem_digitsOf hi) (by decide)
  rw [readMagnitude?, if_neg hinf, readDecimal?_digits fun _ => isDigit_of_mem_digitsOf,
    Option.map_none]

/-- The text of an integer is not that of a double. -/
theorem read?_writeInt (n : Int) : read? (writeInt n) = none := by
  unfold writeInt
  split
  · simp only [read?, readMagnitude?_minus, readMagnitude?_digitsOf]
  · unfold read?
    rw [readMagnitude?_digitsOf]
    split
    · contradiction
    · rename_i h
      have hminus : '-' ∈ digitsOf n.natAbs := by rw [h]; exact List.mem_cons_self
      exact absurd (isDigit_of_mem_digitsOf hminus) (by decide)
    · refine if_neg fun h => ?_
      have hn : 'n' ∈ digitsOf n.natAbs := by rw [h]; decide
      exact absurd (isDigit_of_mem_digitsOf hn) (by decide)

end Binary64

section Token

/-- The characters of numbers and of words. -/
def isTokenChar (c : Char) : Bool :=
  c.isAlphanum || c == '.' || c == '+' || c == '-'

theorem isTokenChar_of_isDigit {c : Char} (h : c.isDigit) : isTokenChar c := by
  simp [isTokenChar, Char.isAlphanum, h]

variable {c : Char}

theorem isTokenChar_of_mem_digitsOf {n : Nat} (h : c ∈ digitsOf n) : isTokenChar c :=
  isTokenChar_of_isDigit (isDigit_of_mem_digitsOf h)

theorem isTokenChar_of_mem_zeros {n : Nat} (h : c ∈ List.replicate n '0') : isTokenChar c :=
  isTokenChar_of_isDigit (Binary64.isDigit_of_mem_zeros h)

theorem isTokenChar_of_mem_writeInt {n : Int} (h : c ∈ writeInt n) : isTokenChar c := by
  unfold writeInt at h
  split at h
  · rcases List.mem_cons.mp h with rfl | h
    · decide
    · exact isTokenChar_of_mem_digitsOf h
  · exact isTokenChar_of_mem_digitsOf h

theorem isTokenChar_of_mem_positional {x : Binary64.Decimal} (h : c ∈ Binary64.positional x) :
    isTokenChar c := by
  simp only [Binary64.positional] at h
  split at h
  · simp only [List.mem_append, List.mem_cons, List.not_mem_nil, or_false] at h
    rcases h with (h | h) | rfl | rfl
    · exact isTokenChar_of_mem_digitsOf h
    · exact isTokenChar_of_mem_zeros h
    · decide
    · decide
  split at h
  · rcases List.mem_append.mp h with h | h
    · exact isTokenChar_of_mem_digitsOf (List.mem_of_mem_take h)
    · rcases List.mem_cons.mp h with rfl | h
      · decide
      · exact isTokenChar_of_mem_digitsOf (List.mem_of_mem_drop h)
  · simp only [List.mem_append, List.mem_cons] at h
    rcases h with (rfl | rfl | h) | h
    · decide
    · decide
    · exact isTokenChar_of_mem_zeros h
    · exact isTokenChar_of_mem_digitsOf h

theorem isTokenChar_of_mem_scientific {width : Nat} {x : Binary64.Decimal}
    (h : c ∈ Binary64.scientific width x) : isTokenChar c := by
  simp only [Binary64.scientific, List.mem_append, List.mem_cons] at h
  rcases h with ((h | h) | rfl | h | h) | h
  · exact isTokenChar_of_mem_digitsOf (List.mem_of_mem_take h)
  · split at h
    · cases h
    · rcases List.mem_cons.mp h with rfl | h
      · decide
      · exact isTokenChar_of_mem_digitsOf (List.mem_of_mem_drop h)
  · decide
  · split at h <;> subst h <;> decide
  · exact isTokenChar_of_mem_zeros h
  · exact isTokenChar_of_mem_digitsOf h

theorem isTokenChar_of_mem_writeMagnitude {m : Nat} (h : c ∈ Binary64.writeMagnitude .wire m) :
    isTokenChar c := by
  have hword : ∀ c ∈ ['0', '.', '0'] ++ "inf".toList, isTokenChar c := List.all_eq_true.mp rfl
  unfold Binary64.writeMagnitude at h
  split at h
  · exact hword c (List.mem_append_left _ h)
  split at h
  · exact hword c (List.mem_append_right _ h)
  split at h
  · exact isTokenChar_of_mem_positional h
  · exact isTokenChar_of_mem_scientific h

/-- The text of a double is one token. -/
theorem isTokenChar_of_mem_write {x : Binary64} (h : c ∈ x.write .wire) : isTokenChar c := by
  have hword : ∀ c ∈ "nan".toList, isTokenChar c := List.all_eq_true.mp rfl
  unfold Binary64.write at h
  split at h
  · exact hword c h
  split at h
  · rcases List.mem_cons.mp h with rfl | h
    · decide
    · exact isTokenChar_of_mem_writeMagnitude h
  · exact isTokenChar_of_mem_writeMagnitude h

end Token

end QueryServer
