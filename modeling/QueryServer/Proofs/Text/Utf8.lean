import QueryServer.Text.Utf8
/-!
Every text is read back from its bytes, and only the character U+0000 puts a zero among them. A
text has a front of so many bytes if a character ends there.
-/

namespace QueryServer.Text.Utf8

theorem lead_one : ∀ k < 128, lead (UInt8.ofNat k) = .ascii (Char.ofNat k) := by
  decide

theorem lead_two : ∀ k < 32, 2 ≤ k →
    lead (UInt8.ofNat (k + 0xC0)) = .opening ⟨k, 0, 0x80, 0xBF⟩ := by
  decide

theorem lead_three : ∀ k < 16, lead (UInt8.ofNat (k + 0xE0)) =
    .opening ⟨k, 1, if k = 0 then 0xA0 else 0x80, if k = 13 then 0x9F else 0xBF⟩ := by
  decide

theorem lead_four : ∀ k < 5, lead (UInt8.ofNat (k + 0xF0)) =
    .opening ⟨k, 2, if k = 0 then 0x90 else 0x80, if k = 4 then 0x8F else 0xBF⟩ := by
  decide

theorem decode_ascii {k : Nat} (hk : k < 128) (bs : List UInt8) :
    decode (UInt8.ofNat k :: bs) = Char.ofNat k :: decode bs := by
  simp [decode, decodeFrom, feed, feed.begin, lead_one k hk]

theorem decode_opening {b : UInt8} {p : Unfinished} (h : lead b = .opening p) (bs : List UInt8) :
    decode (b :: bs) = decodeFrom (some p) bs := by
  simp [decode, decodeFrom, feed, feed.begin, h]

variable {value k : Nat} {low high b : UInt8}

/-- The last byte of a character gives its lowest six bits. -/
theorem decodeFrom_last (hb : b.toNat = k + 0x80) (hl : low.toNat ≤ k + 0x80)
    (hh : k + 0x80 ≤ high.toNat) (bs : List UInt8) :
    decodeFrom (some ⟨value, 0, low, high⟩) (b :: bs) =
      Char.ofNat (value * 64 + k) :: decode bs := by
  have hlow : low ≤ b := UInt8.le_iff_toNat_le.mpr (hb ▸ hl)
  have hhigh : b ≤ high := UInt8.le_iff_toNat_le.mpr (hb ▸ hh)
  simp [decodeFrom, feed, hlow, hhigh, hb, decode]

theorem decodeFrom_more {n : Nat} (hb : b.toNat = k + 0x80) (hl : low.toNat ≤ k + 0x80)
    (hh : k + 0x80 ≤ high.toNat) (bs : List UInt8) :
    decodeFrom (some ⟨value, n + 1, low, high⟩) (b :: bs) =
      decodeFrom (some ⟨value * 64 + k, n, 0x80, 0xBF⟩) bs := by
  have hlow : low ≤ b := UInt8.le_iff_toNat_le.mpr (hb ▸ hl)
  have hhigh : b ≤ high := UInt8.le_iff_toNat_le.mpr (hb ▸ hh)
  simp [decodeFrom, feed, hlow, hhigh, hb]

theorem toNat_following (n : Nat) : (UInt8.ofNat (n % 64 + 0x80)).toNat = n % 64 + 0x80 := by
  rw [UInt8.toNat_ofNat']
  omega

theorem following_ge (n : Nat) : (0x80 : UInt8).toNat ≤ n % 64 + 0x80 :=
  Nat.le_add_left _ _

theorem following_le (n : Nat) : n % 64 + 0x80 ≤ (0xBF : UInt8).toNat := by
  have : (0xBF : UInt8).toNat = 0xBF := rfl
  omega

/-- The bytes of a character are read as that character, whatever follows. -/
theorem decode_char (c : Char) (bs : List UInt8) :
    decode (String.utf8EncodeChar c ++ bs) = c :: decode bs := by
  have hc : Char.ofNat c.val.toNat = c := Char.ofNat_toNat c
  have hvalid : c.val.toNat < 0xD800 ∨ 0xDFFF < c.val.toNat ∧ c.val.toNat < 0x110000 := c.valid
  unfold String.utf8EncodeChar
  generalize c.val.toNat = n at hc hvalid
  dsimp only
  split
  · rw [List.cons_append, decode_ascii (by omega), hc]
    rfl
  split
  · rw [List.cons_append, decode_opening (lead_two _ (by omega) (by omega)), List.cons_append,
      decodeFrom_last (toNat_following n) (following_ge n) (following_le n),
      show n / 64 % 32 * 64 + n % 64 = n by omega, hc]
    rfl
  split
  · have hlow : (if n / 4096 % 16 = 0 then 0xA0 else 0x80 : UInt8).toNat ≤ n / 64 % 64 + 0x80 := by
      split
      · show 0xA0 ≤ n / 64 % 64 + 0x80
        omega
      · exact following_ge _
    have hhigh : n / 64 % 64 + 0x80 ≤
        (if n / 4096 % 16 = 13 then 0x9F else 0xBF : UInt8).toNat := by
      split
      · show n / 64 % 64 + 0x80 ≤ 0x9F
        omega
      · exact following_le _
    rw [List.cons_append, decode_opening (lead_three _ (by omega)), List.cons_append,
      decodeFrom_more (toNat_following _) hlow hhigh, List.cons_append,
      decodeFrom_last (toNat_following n) (following_ge n) (following_le n),
      show (n / 4096 % 16 * 64 + n / 64 % 64) * 64 + n % 64 = n by omega, hc]
    rfl
  · have hlow : (if n / 262144 % 8 = 0 then 0x90 else 0x80 : UInt8).toNat ≤
        n / 4096 % 64 + 0x80 := by
      split
      · show 0x90 ≤ n / 4096 % 64 + 0x80
        omega
      · exact following_ge _
    have hhigh : n / 4096 % 64 + 0x80 ≤
        (if n / 262144 % 8 = 4 then 0x8F else 0xBF : UInt8).toNat := by
      split
      · show n / 4096 % 64 + 0x80 ≤ 0x8F
        omega
      · exact following_le _
    rw [List.cons_append, decode_opening (lead_four _ (by omega)), List.cons_append,
      decodeFrom_more (toNat_following _) hlow hhigh, List.cons_append,
      decodeFrom_more (toNat_following _) (following_ge _) (following_le _), List.cons_append,
      decodeFrom_last (toNat_following n) (following_ge n) (following_le n),
      show ((n / 262144 % 8 * 64 + n / 4096 % 64) * 64 + n / 64 % 64) * 64 + n % 64 = n by omega,
      hc]
    rfl

/-- Texts survive the way through bytes. -/
theorem decode_encode (cs : List Char) : decode (encode cs) = cs := by
  induction cs with
  | nil => rfl
  | cons c cs ih =>
    rw [encode, List.flatMap_cons, decode_char]
    exact congrArg (c :: ·) ih

theorem zero_ne_ofNat {n : Nat} (h : 0 < n % 256) : (0 : UInt8) ≠ UInt8.ofNat n := by
  intro he
  have := congrArg UInt8.toNat he
  rw [UInt8.toNat_ofNat', UInt8.toNat_zero] at this
  omega

theorem zero_mem_char {c : Char} : 0 ∈ String.utf8EncodeChar c ↔ c = '\x00' := by
  constructor
  · intro h
    have hc : c.val.toNat = 0 := by
      unfold String.utf8EncodeChar at h
      generalize c.val.toNat = n at h
      dsimp only at h
      repeat' split at h
      all_goals simp only [List.mem_cons, List.not_mem_nil, or_false] at h
      · rcases Nat.eq_zero_or_pos n with hn | hn
        · exact hn
        · exact absurd h (zero_ne_ofNat (by omega))
      · rcases h with h | h
        all_goals exact absurd h (zero_ne_ofNat (by omega))
      · rcases h with h | h | h
        all_goals exact absurd h (zero_ne_ofNat (by omega))
      · rcases h with h | h | h | h
        all_goals exact absurd h (zero_ne_ofNat (by omega))
    exact Char.ext (UInt32.toNat_inj.mp hc)
  · rintro rfl
    decide

theorem zero_mem_encode {cs : List Char} : 0 ∈ encode cs ↔ '\x00' ∈ cs := by
  simp [encode, zero_mem_char]

section Front

variable {cs start : List Char}

theorem length_encode_cons (c : Char) (cs : List Char) :
    (encode (c :: cs)).length = c.utf8Size + (encode cs).length := by
  rw [encode, List.flatMap_cons, List.length_append, String.length_utf8EncodeChar]
  rfl

theorem length_encode_le (h : start <+: cs) : (encode start).length ≤ (encode cs).length := by
  obtain ⟨rest, rfl⟩ := h
  rw [encode, encode, List.flatMap_append, List.length_append]
  exact Nat.le_add_right _ _

theorem length_encode_of_ascii (h : ∀ c ∈ cs, c.toNat < 128) : (encode cs).length = cs.length := by
  induction cs with
  | nil => rfl
  | cons c cs ih =>
    obtain ⟨hc, hcs⟩ := List.forall_mem_cons.mp h
    have hsize : c.utf8Size = 1 :=
      Char.utf8Size_eq_one_iff.mpr (UInt32.le_iff_toNat_le.mpr (Nat.le_of_lt_succ hc))
    rw [length_encode_cons, hsize, ih hcs, List.length_cons, Nat.add_comm]

theorem eq_nil_of_encode (h : (encode cs).length = 0) : cs = [] := by
  cases cs with
  | nil => rfl
  | cons c cs =>
    have := c.utf8Size_pos
    rw [length_encode_cons] at h
    omega

/-- The front of a text is its beginning that has just so many bytes. -/
theorem front?_eq_some_iff {n : Nat} :
    front? n cs = some start ↔ start <+: cs ∧ (encode start).length = n := by
  induction n, cs using front?.induct generalizing start with
  | case1 cs =>
    rw [front?, Option.some.injEq]
    constructor
    · rintro rfl
      exact ⟨List.nil_prefix, rfl⟩
    · rintro ⟨-, hlength⟩
      exact (eq_nil_of_encode hlength).symm
  | case2 n =>
    refine iff_of_false nofun ?_
    rintro ⟨hstart, hlength⟩
    rw [List.prefix_nil.mp hstart] at hlength
    cases hlength
  | case3 n c cs hfits ih =>
    rw [front?, if_pos hfits, Option.map_eq_some_iff]
    constructor
    · rintro ⟨rest, hrest, rfl⟩
      obtain ⟨hstart, hlength⟩ := ih.mp hrest
      refine ⟨(List.prefix_cons_inj c).mpr hstart, ?_⟩
      rw [length_encode_cons]
      omega
    · rintro ⟨hstart, hlength⟩
      rcases List.prefix_cons_iff.mp hstart with rfl | ⟨rest, rfl, hrest⟩
      · cases hlength
      · rw [length_encode_cons] at hlength
        exact ⟨rest, ih.mpr ⟨hrest, by omega⟩, rfl⟩
  | case4 n c cs hlong =>
    rw [front?, if_neg hlong]
    refine iff_of_false nofun ?_
    rintro ⟨hstart, hlength⟩
    rcases List.prefix_cons_iff.mp hstart with rfl | ⟨rest, rfl, -⟩
    · cases hlength
    · rw [length_encode_cons] at hlength
      omega

/-- Where the last of the bytes is inside a character, there is no front. -/
theorem front?_of_inside {n : Nat} {c : Char} {rest : List Char}
    (hstart : (encode start).length < n) (hinside : n < (encode (start ++ [c])).length) :
    front? n (start ++ c :: rest) = none := by
  cases hfront : front? n (start ++ c :: rest) with
  | none => rfl
  | some front =>
    obtain ⟨hfirst, hlength⟩ := front?_eq_some_iff.mp hfront
    have hnext : start ++ [c] <+: start ++ c :: rest := ⟨rest, by simp⟩
    rcases List.prefix_or_prefix_of_prefix hfirst hnext with h | h
    · rcases List.prefix_concat_iff.mp h with rfl | h
      · omega
      · have := length_encode_le h
        omega
    · have := length_encode_le h
      omega

end Front

end QueryServer.Text.Utf8
