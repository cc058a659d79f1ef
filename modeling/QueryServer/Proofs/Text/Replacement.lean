import QueryServer.Proofs.Text.Utf8
/-!
Reading bytes that may be no text. A byte zero ends whatever character is open, and only it is read
as U+0000, so bytes can be cut at their zeros before or after they are read.
-/

namespace QueryServer.Text.Utf8

/-- Every way to complete an open character gives a character, and not U+0000. -/
def Completes : Nat → Nat → UInt8 → UInt8 → Prop
  | 0, value, low, high => ∀ k, low.toNat ≤ k + 0x80 → k + 0x80 ≤ high.toNat →
      value * 64 + k ≠ 0 ∧ (value * 64 + k).isValidChar
  | n + 1, value, low, high => ∀ k, low.toNat ≤ k + 0x80 → k + 0x80 ≤ high.toNat →
      Completes n (value * 64 + k) 0x80 0xBF

/-- A character that was opened by a byte of its own. -/
structure Unfinished.Sound (p : Unfinished) : Prop where
  low_ge : 0x80 ≤ p.low.toNat
  completes : Completes p.missing p.value p.low p.high

variable {b : UInt8} {p : Unfinished} {s : Option Unfinished} {bs : List UInt8}

theorem lead_following : ∀ k < 0x42, lead (UInt8.ofNat (k + 0x80)) = .invalid := by
  decide

theorem lead_beyond : ∀ k < 11, lead (UInt8.ofNat (k + 0xF5)) = .invalid := by
  decide

/-- The bytes that open a character of two, three or four bytes. -/
theorem opening_cases (h : lead b = .opening p) :
    (∃ k, 2 ≤ k ∧ k < 32 ∧ b = UInt8.ofNat (k + 0xC0) ∧ p = ⟨k, 0, 0x80, 0xBF⟩) ∨
      (∃ k < 16, b = UInt8.ofNat (k + 0xE0) ∧
        p = ⟨k, 1, if k = 0 then 0xA0 else 0x80, if k = 13 then 0x9F else 0xBF⟩) ∨
      ∃ k < 5, b = UInt8.ofNat (k + 0xF0) ∧
        p = ⟨k, 2, if k = 0 then 0x90 else 0x80, if k = 4 then 0x8F else 0xBF⟩ := by
  have hb : b.toNat < 256 := b.toNat_lt
  have hself : ∀ k base, b.toNat = k + base → b = UInt8.ofNat (k + base) := by
    intro k base hk
    rw [← hk, UInt8.ofNat_toNat]
  rcases Nat.lt_or_ge b.toNat 0x80 with h1 | h1
  · rw [← UInt8.ofNat_toNat (x := b), lead_one _ h1] at h
    cases h
  rcases Nat.lt_or_ge b.toNat 0xC2 with h2 | h2
  · rw [hself (b.toNat - 0x80) 0x80 (by omega), lead_following _ (by omega)] at h
    cases h
  rcases Nat.lt_or_ge b.toNat 0xE0 with h3 | h3
  · have hbyte := hself (b.toNat - 0xC0) 0xC0 (by omega)
    rw [hbyte, lead_two _ (by omega) (by omega)] at h
    exact .inl ⟨b.toNat - 0xC0, by omega, by omega, hbyte, (Lead.opening.inj h).symm⟩
  rcases Nat.lt_or_ge b.toNat 0xF0 with h4 | h4
  · have hbyte := hself (b.toNat - 0xE0) 0xE0 (by omega)
    rw [hbyte, lead_three _ (by omega)] at h
    exact .inr (.inl ⟨b.toNat - 0xE0, by omega, hbyte, (Lead.opening.inj h).symm⟩)
  rcases Nat.lt_or_ge b.toNat 0xF5 with h5 | h5
  · have hbyte := hself (b.toNat - 0xF0) 0xF0 (by omega)
    rw [hbyte, lead_four _ (by omega)] at h
    exact .inr (.inr ⟨b.toNat - 0xF0, by omega, hbyte, (Lead.opening.inj h).symm⟩)
  · rw [hself (b.toNat - 0xF5) 0xF5 (by omega), lead_beyond _ (by omega)] at h
    cases h

theorem toNat_ite (q : Prop) [Decidable q] (x y : UInt8) :
    (if q then x else y).toNat = if q then x.toNat else y.toNat :=
  apply_ite UInt8.toNat q x y

/-- The narrower ranges of some second bytes leave out what would be no character. -/
theorem sound_of_lead (h : lead b = .opening p) : p.Sound := by
  have hA0 : (0xA0 : UInt8).toNat = 0xA0 := rfl
  have h80 : (0x80 : UInt8).toNat = 0x80 := rfl
  have h90 : (0x90 : UInt8).toNat = 0x90 := rfl
  have h8F : (0x8F : UInt8).toNat = 0x8F := rfl
  have h9F : (0x9F : UInt8).toNat = 0x9F := rfl
  have hBF : (0xBF : UInt8).toNat = 0xBF := rfl
  rcases opening_cases h with ⟨k, hlow, hhigh, -, rfl⟩ | ⟨k, hk, -, rfl⟩ | ⟨k, hk, -, rfl⟩
  · refine ⟨Nat.le_refl _, fun i _ hi => ?_⟩
    dsimp only at hi ⊢
    unfold Nat.isValidChar
    omega
  · refine ⟨?_, fun j hj hj' i _ hi => ?_⟩
    · simp only [toNat_ite]
      split <;> omega
    · simp only [toNat_ite] at hj hj' ⊢
      unfold Nat.isValidChar
      split at hj <;> split at hj' <;> omega
  · refine ⟨?_, fun j hj hj' i _ hi i' _ hi' => ?_⟩
    · simp only [toNat_ite]
      split <;> omega
    · simp only [toNat_ite] at hj hj' ⊢
      unfold Nat.isValidChar
      split at hj <;> split at hj' <;> omega

theorem toNat_ofNat {n : Nat} (hvalid : n.isValidChar) : (Char.ofNat n).val.toNat = n := by
  rw [Char.ofNat, dif_pos hvalid]
  rfl

theorem ofNat_ne_zero {n : Nat} (hn : n ≠ 0) (hvalid : n.isValidChar) : Char.ofNat n ≠ '\x00' := by
  intro h
  have hnat := toNat_ofNat hvalid
  rw [h] at hnat
  exact hn hnat.symm

theorem ascii_of_lead {c : Char} (h : lead b = .ascii c) :
    b.toNat < 0x80 ∧ c = Char.ofNat b.toNat := by
  by_cases hb : b < 0x80
  · rw [lead, if_pos hb] at h
    exact ⟨UInt8.lt_iff_toNat_lt.mp hb, (Lead.ascii.inj h).symm⟩
  · rw [lead, if_neg hb] at h
    repeat' split at h
    all_goals cases h

theorem begin_zero : feed.begin 0 = (['\x00'], none) := by
  decide

theorem begin_sound (b : UInt8) : ∀ p ∈ (feed.begin b).2, p.Sound := by
  unfold feed.begin
  cases hlead : lead b with
  | ascii c => simp
  | opening p => simpa using sound_of_lead hlead
  | invalid => simp

theorem zero_not_mem_begin (hb : b ≠ 0) : '\x00' ∉ (feed.begin b).1 := by
  unfold feed.begin
  cases hlead : lead b with
  | ascii c =>
    obtain ⟨hlow, rfl⟩ := ascii_of_lead hlead
    have hne : b.toNat ≠ 0 := fun h => hb (UInt8.toNat_inj.mp h)
    have hvalid : b.toNat.isValidChar := .inl (Nat.lt_trans hlow (by decide))
    simpa using Ne.symm (ofNat_ne_zero hne hvalid)
  | opening p => simp
  | invalid => simp [replacement]

theorem feed_outside (h : ¬ (p.low ≤ b ∧ b ≤ p.high)) :
    feed (some p) b = (replacement :: (feed.begin b).1, (feed.begin b).2) := by
  simp [feed, h]

variable {value missing : Nat} {low high : UInt8}

theorem feed_last (h : low ≤ b ∧ b ≤ high) :
    feed (some ⟨value, 0, low, high⟩) b =
      ([Char.ofNat (value * 64 + (b.toNat - 0x80))], none) := by
  simp [feed, h]

theorem feed_more (h : low ≤ b ∧ b ≤ high) :
    feed (some ⟨value, missing + 1, low, high⟩) b =
      ([], some ⟨value * 64 + (b.toNat - 0x80), missing, 0x80, 0xBF⟩) := by
  simp [feed, h]

/-- What is open stays sound, and a byte other than zero gives no U+0000. -/
theorem feed_sound (hs : ∀ p ∈ s, p.Sound) (b : UInt8) :
    (∀ p ∈ (feed s b).2, p.Sound) ∧ (b ≠ 0 → '\x00' ∉ (feed s b).1) := by
  cases s with
  | none => exact ⟨begin_sound b, zero_not_mem_begin⟩
  | some p =>
    by_cases h : p.low ≤ b ∧ b ≤ p.high
    · obtain ⟨hlow, hcompletes⟩ := hs p rfl
      obtain ⟨value, missing, low, high⟩ := p
      have hlow' := UInt8.le_iff_toNat_le.mp h.1
      have hhigh' := UInt8.le_iff_toNat_le.mp h.2
      dsimp only at hlow hcompletes hlow' hhigh'
      have hk : b.toNat - 0x80 + 0x80 = b.toNat := by omega
      cases missing with
      | zero =>
        obtain ⟨hne, hvalid⟩ := hcompletes (b.toNat - 0x80) (hk.symm ▸ hlow') (hk.symm ▸ hhigh')
        rw [feed_last h]
        exact ⟨by simp, fun _ => by simpa using Ne.symm (ofNat_ne_zero hne hvalid)⟩
      | succ missing =>
        have hnext := hcompletes (b.toNat - 0x80) (hk.symm ▸ hlow') (hk.symm ▸ hhigh')
        rw [feed_more h]
        refine ⟨?_, fun _ => by simp⟩
        intro q hq
        rw [← Option.some.inj hq]
        exact ⟨Nat.le_refl _, hnext⟩
    · rw [feed_outside h]
      refine ⟨begin_sound b, fun hb => ?_⟩
      simpa [replacement] using zero_not_mem_begin hb

/-- A byte zero ends the open character, which is replaced, and is read as U+0000. -/
theorem feed_zero (hs : ∀ p ∈ s, p.Sound) : feed s 0 = (decodeFrom s [] ++ ['\x00'], none) := by
  cases s with
  | none => exact begin_zero
  | some p =>
    have hlow := (hs p rfl).low_ge
    have houtside : ¬ (p.low ≤ 0 ∧ 0 ≤ p.high) := by
      rintro ⟨h, -⟩
      have := UInt8.le_iff_toNat_le.mp h
      rw [UInt8.toNat_zero] at this
      omega
    rw [feed_outside houtside, begin_zero]
    rfl

theorem decodeFrom_cons (s : Option Unfinished) (b : UInt8) (bs : List UInt8) :
    decodeFrom s (b :: bs) = (feed s b).1 ++ decodeFrom (feed s b).2 bs := by
  cases s <;> rfl

/-- A byte zero is a clean cut, whatever is open before it. -/
theorem decodeFrom_cut (hs : ∀ p ∈ s, p.Sound) (piece rest : List UInt8) :
    decodeFrom s (piece ++ 0 :: rest) = decodeFrom s piece ++ '\x00' :: decode rest := by
  induction piece generalizing s with
  | nil =>
    rw [List.nil_append, decodeFrom_cons, feed_zero hs, List.append_assoc]
    rfl
  | cons b piece ih =>
    rw [List.cons_append, decodeFrom_cons, decodeFrom_cons, ih (feed_sound hs b).1,
      List.append_assoc]

theorem decode_cut (piece rest : List UInt8) :
    decode (piece ++ 0 :: rest) = decode piece ++ '\x00' :: decode rest :=
  decodeFrom_cut (by simp) piece rest

theorem zero_not_mem_decodeFrom (hs : ∀ p ∈ s, p.Sound) (h : 0 ∉ bs) :
    '\x00' ∉ decodeFrom s bs := by
  induction bs generalizing s with
  | nil => cases s <;> simp [decodeFrom, replacement]
  | cons b bs ih =>
    simp only [List.mem_cons, not_or] at h
    obtain ⟨hsound, hfree⟩ := feed_sound hs b
    rw [decodeFrom_cons, List.mem_append, not_or]
    exact ⟨hfree (Ne.symm h.1), ih hsound h.2⟩

/-- Only a byte zero is read as U+0000. -/
theorem zero_not_mem_decode (h : 0 ∉ bs) : '\x00' ∉ decode bs :=
  zero_not_mem_decodeFrom (by simp) h

end QueryServer.Text.Utf8
