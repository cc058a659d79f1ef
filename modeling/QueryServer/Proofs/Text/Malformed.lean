import QueryServer.Proofs.Text.Replacement
/-!
What a replacement character stands for. Where no character begins, the bytes that could begin one
are passed over together, as many as there are, or a single byte that begins none. Main statement:
this alone says how bytes are read.
-/

namespace QueryServer.Text.Utf8

open String (utf8EncodeChar)

/-- Bytes that are replaced together. -/
structure MaximalPart (part rest : List UInt8) : Prop where
  nonempty : part ≠ []
  /-- No character begins here. -/
  broken : ∀ c, ¬ utf8EncodeChar c <+: part ++ rest
  begins : part.length = 1 ∨ ∃ c, part <+: utf8EncodeChar c
  /-- No more of the bytes begin a character together. -/
  maximal : ∀ longer c, longer <+: part ++ rest → longer <+: utf8EncodeChar c →
    longer.length ≤ part.length

/-- How bytes are read: character by character, and one replacement for each maximal part where
there is none. -/
inductive Reads : List UInt8 → List Char → Prop where
  | nil : Reads [] []
  | char (c : Char) (bs : List UInt8) (cs : List Char) (tail : Reads bs cs) :
      Reads (utf8EncodeChar c ++ bs) (c :: cs)
  | part (part rest : List UInt8) (cs : List Char) (skipped : MaximalPart part rest)
      (tail : Reads rest cs) : Reads (part ++ rest) (replacement :: cs)

variable {b : UInt8} {p : Unfinished} {part part' rest rest' bs : List UInt8} {c c' : Char}

theorem encode_one {n : Nat} (hn : n < 0x80) :
    utf8EncodeChar (Char.ofNat n) = [UInt8.ofNat n] := by
  simp only [utf8EncodeChar, toNat_ofNat (.inl (Nat.lt_trans hn (by decide)))]
  rw [if_pos (by omega)]

theorem encode_two {k i : Nat} (hlow : 2 ≤ k) (hk : k < 32) (hi : i < 64) :
    utf8EncodeChar (Char.ofNat (k * 64 + i)) = [UInt8.ofNat (k + 0xC0), UInt8.ofNat (i + 0x80)] := by
  have hn : (Char.ofNat (k * 64 + i)).val.toNat = k * 64 + i := by
    apply toNat_ofNat
    unfold Nat.isValidChar
    omega
  simp only [utf8EncodeChar, hn]
  rw [if_neg (by omega), if_pos (by omega), show (k * 64 + i) / 64 % 32 = k by omega,
    show (k * 64 + i) % 64 = i by omega]

theorem encode_three {k j i : Nat} (hk : k < 16) (hj : j < 64) (hi : i < 64)
    (hlow : 0x800 ≤ (k * 64 + j) * 64 + i) (hvalid : ((k * 64 + j) * 64 + i).isValidChar) :
    utf8EncodeChar (Char.ofNat ((k * 64 + j) * 64 + i)) =
      [UInt8.ofNat (k + 0xE0), UInt8.ofNat (j + 0x80), UInt8.ofNat (i + 0x80)] := by
  simp only [utf8EncodeChar, toNat_ofNat hvalid]
  rw [if_neg (by omega), if_neg (by omega), if_pos (by omega),
    show ((k * 64 + j) * 64 + i) / 4096 % 16 = k by omega,
    show ((k * 64 + j) * 64 + i) / 64 % 64 = j by omega,
    show ((k * 64 + j) * 64 + i) % 64 = i by omega]

theorem encode_four {k l j i : Nat} (hk : k < 5) (hl : l < 64) (hj : j < 64) (hi : i < 64)
    (hlow : 0x10000 ≤ ((k * 64 + l) * 64 + j) * 64 + i)
    (hvalid : (((k * 64 + l) * 64 + j) * 64 + i).isValidChar) :
    utf8EncodeChar (Char.ofNat (((k * 64 + l) * 64 + j) * 64 + i)) =
      [UInt8.ofNat (k + 0xF0), UInt8.ofNat (l + 0x80), UInt8.ofNat (j + 0x80),
        UInt8.ofNat (i + 0x80)] := by
  simp only [utf8EncodeChar, toNat_ofNat hvalid]
  rw [if_neg (by omega), if_neg (by omega), if_neg (by omega),
    show (((k * 64 + l) * 64 + j) * 64 + i) / 262144 % 8 = k by omega,
    show (((k * 64 + l) * 64 + j) * 64 + i) / 4096 % 64 = l by omega,
    show (((k * 64 + l) * 64 + j) * 64 + i) / 64 % 64 = j by omega,
    show (((k * 64 + l) * 64 + j) * 64 + i) % 64 = i by omega]

/-- Every way to complete an open character gives the bytes of the character that is read. -/
def Writes : List UInt8 → Nat → Nat → UInt8 → UInt8 → Prop
  | part, 0, value, low, high => ∀ k, low.toNat ≤ k + 0x80 → k + 0x80 ≤ high.toNat →
      utf8EncodeChar (Char.ofNat (value * 64 + k)) = part ++ [UInt8.ofNat (k + 0x80)]
  | part, n + 1, value, low, high => ∀ k, low.toNat ≤ k + 0x80 → k + 0x80 ≤ high.toNat →
      Writes (part ++ [UInt8.ofNat (k + 0x80)]) n (value * 64 + k) 0x80 0xBF

theorem writes_of_lead (h : lead b = .opening p) :
    Writes [b] p.missing p.value p.low p.high ∧ p.low ≤ p.high := by
  have hA0 : (0xA0 : UInt8).toNat = 0xA0 := rfl
  have h80 : (0x80 : UInt8).toNat = 0x80 := rfl
  have h90 : (0x90 : UInt8).toNat = 0x90 := rfl
  have h8F : (0x8F : UInt8).toNat = 0x8F := rfl
  have h9F : (0x9F : UInt8).toNat = 0x9F := rfl
  have hBF : (0xBF : UInt8).toNat = 0xBF := rfl
  simp only [UInt8.le_iff_toNat_le]
  rcases opening_cases h with ⟨k, hlow, hk, rfl, rfl⟩ | ⟨k, hk, rfl, rfl⟩ | ⟨k, hk, rfl, rfl⟩
  · refine ⟨fun i _ hi => encode_two hlow hk ?_, ?_⟩
    · dsimp only at hi
      omega
    · dsimp only
      omega
  · refine ⟨fun j hj hj' i _ hi => ?_, ?_⟩
    · simp only [toNat_ite] at hj hj'
      refine encode_three (k := k) hk ?_ ?_ ?_ ?_
      · split at hj' <;> omega
      · omega
      · split at hj <;> omega
      · unfold Nat.isValidChar
        split at hj <;> split at hj' <;> omega
    · simp only [toNat_ite]
      split <;> split <;> omega
  · refine ⟨fun l hl hl' j _ hj i _ hi => ?_, ?_⟩
    · simp only [toNat_ite] at hl hl'
      refine encode_four (k := k) hk ?_ ?_ ?_ ?_ ?_
      · split at hl' <;> omega
      · omega
      · omega
      · split at hl <;> omega
      · unfold Nat.isValidChar
        split at hl <;> split at hl' <;> omega
    · simp only [toNat_ite]
      split <;> split <;> omega

/-- Bytes that have been read so far begin a character and are no character yet. -/
structure Opens (part : List UInt8) (p : Unfinished) : Prop where
  decodes : ∀ bs, decode (part ++ bs) = decodeFrom (some p) bs
  writes : Writes part p.missing p.value p.low p.high
  low_ge : 0x80 ≤ p.low.toNat
  range : p.low ≤ p.high

theorem opens_of_lead (h : lead b = .opening p) : Opens [b] p := by
  obtain ⟨hwrites, hrange⟩ := writes_of_lead h
  exact ⟨decode_opening h, hwrites, (sound_of_lead h).low_ge, hrange⟩

theorem decodeFrom_ne_nil (p : Unfinished) (bs : List UInt8) : decodeFrom (some p) bs ≠ [] := by
  induction bs generalizing p with
  | nil => simp [decodeFrom]
  | cons b bs ih =>
    rw [decodeFrom_cons]
    by_cases h : p.low ≤ b ∧ b ≤ p.high
    · obtain ⟨value, missing, low, high⟩ := p
      cases missing with
      | zero => simp [feed_last h]
      | succ missing => simpa [feed_more h] using ih _
    · simp [feed_outside h]

theorem decode_invalid (h : lead b = .invalid) (bs : List UInt8) :
    decode (b :: bs) = replacement :: decode bs := by
  simp [decode, decodeFrom, feed, feed.begin, h]

theorem decode_lead_ascii (h : lead b = .ascii c) (bs : List UInt8) :
    decode (b :: bs) = c :: decode bs := by
  simp [decode, decodeFrom, feed, feed.begin, h]

theorem decode_eq_nil_iff : decode bs = [] ↔ bs = [] := by
  cases bs with
  | nil => simp [decode, decodeFrom]
  | cons b bs =>
    cases h : lead b with
    | ascii c => simp [decode_lead_ascii h]
    | opening p => simp [decode_opening h, decodeFrom_ne_nil]
    | invalid => simp [decode_invalid h]

theorem decode_utf8EncodeChar (c : Char) : decode (utf8EncodeChar c) = [c] := by
  have hchar := decode_char c []
  rwa [List.append_nil] at hchar

/-- No character's bytes go on with those of another. -/
theorem eq_of_continues (h : utf8EncodeChar c <+: utf8EncodeChar c') : c = c' := by
  obtain ⟨tail, htail⟩ := h
  have hdecode := decode_char c tail
  rw [htail, decode_utf8EncodeChar] at hdecode
  exact (List.cons.inj hdecode).1.symm

theorem completion_of_writes {missing value : Nat} {low high : UInt8}
    (h : Writes part missing value low high) (hlow : 0x80 ≤ low.toNat) (hrange : low ≤ high) :
    ∃ c tail, tail ≠ [] ∧ utf8EncodeChar c = part ++ tail := by
  have hhigh := UInt8.le_iff_toNat_le.mp hrange
  have hfirst : low.toNat - 0x80 + 0x80 = low.toNat := Nat.sub_add_cancel hlow
  induction missing generalizing part value low high with
  | zero => exact ⟨_, _, by simp, h (low.toNat - 0x80) (by omega) (by omega)⟩
  | succ missing ih =>
    have hnext := h (low.toNat - 0x80) (by omega) (by omega)
    obtain ⟨c, tail, -, hc⟩ := ih hnext (by decide) (by decide) (by decide) (by decide)
    exact ⟨c, UInt8.ofNat (low.toNat - 0x80 + 0x80) :: tail, by simp, by simpa using hc⟩

namespace Opens

theorem completion (h : Opens part p) : ∃ c tail, tail ≠ [] ∧ utf8EncodeChar c = part ++ tail :=
  completion_of_writes h.writes h.low_ge h.range

theorem nonempty (h : Opens part p) : part ≠ [] := by
  rintro rfl
  have hdecode := h.decodes []
  simp [decode, decodeFrom] at hdecode

theorem begins (h : Opens part p) : part.length = 1 ∨ ∃ c, part <+: utf8EncodeChar c := by
  obtain ⟨c, tail, -, hc⟩ := h.completion
  exact .inr ⟨c, tail, hc.symm⟩

theorem no_character (h : Opens part p) (c : Char) : ¬ utf8EncodeChar c <+: part := by
  intro hfront
  obtain ⟨c', tail, htail, hc'⟩ := h.completion
  obtain rfl : c = c' := eq_of_continues (hfront.trans ⟨tail, hc'.symm⟩)
  have hlength := hfront.length_le
  rw [hc', List.length_append] at hlength
  exact htail (List.length_eq_zero_iff.mp (by omega))

/-- A byte outside the range goes on with no character. -/
theorem no_further (h : Opens part p) (hb : ¬ (p.low ≤ b ∧ b ≤ p.high)) (c : Char) :
    ¬ part ++ [b] <+: utf8EncodeChar c := by
  rintro ⟨tail, htail⟩
  have hdecode : decode (utf8EncodeChar c) = replacement :: decode (b :: tail) := by
    rw [← htail, List.append_assoc, List.singleton_append, h.decodes, decodeFrom_cons,
      feed_outside hb]
    rfl
  rw [decode_utf8EncodeChar] at hdecode
  have hnil : decode (b :: tail) = [] := (List.cons.inj hdecode).2.symm
  exact absurd (decode_eq_nil_iff.mp hnil) (by simp)

/-- A following byte in the range goes on with the character. -/
theorem further {value missing : Nat} {low high : UInt8}
    (h : Opens part ⟨value, missing + 1, low, high⟩) (hb : low ≤ b ∧ b ≤ high) :
    Opens (part ++ [b]) ⟨value * 64 + (b.toNat - 0x80), missing, 0x80, 0xBF⟩ := by
  obtain ⟨hdecodes, hwrites, hlow, -⟩ := h
  have hlow' := UInt8.le_iff_toNat_le.mp hb.1
  have hhigh' := UInt8.le_iff_toNat_le.mp hb.2
  have hk : b.toNat - 0x80 + 0x80 = b.toNat := Nat.sub_add_cancel (Nat.le_trans hlow hlow')
  refine ⟨?_, ?_, Nat.le_refl _, (by decide : (0x80 : UInt8) ≤ 0xBF)⟩
  · intro bs
    rw [List.append_assoc, List.singleton_append, hdecodes, decodeFrom_cons, feed_more hb]
    rfl
  · have hnext := hwrites (b.toNat - 0x80) (hk.symm ▸ hlow') (hk.symm ▸ hhigh')
    rwa [hk, UInt8.ofNat_toNat] at hnext

theorem last {value : Nat} {low high : UInt8} (h : Opens part ⟨value, 0, low, high⟩)
    (hb : low ≤ b ∧ b ≤ high) : ∃ c, utf8EncodeChar c = part ++ [b] := by
  have hlow' := UInt8.le_iff_toNat_le.mp hb.1
  have hhigh' := UInt8.le_iff_toNat_le.mp hb.2
  have hk : b.toNat - 0x80 + 0x80 = b.toNat := Nat.sub_add_cancel (Nat.le_trans h.low_ge hlow')
  have hwritten := h.writes (b.toNat - 0x80) (hk.symm ▸ hlow') (hk.symm ▸ hhigh')
  rw [hk, UInt8.ofNat_toNat] at hwritten
  exact ⟨_, hwritten⟩

end Opens

theorem maximalPart_of_stop (hne : part ≠ [])
    (hbegins : part.length = 1 ∨ ∃ c, part <+: utf8EncodeChar c)
    (hwhole : ∀ c, ¬ utf8EncodeChar c <+: part)
    (hstop : ∀ b ∈ rest.head?, ∀ c, ¬ part ++ [b] <+: utf8EncodeChar c) :
    MaximalPart part rest := by
  have hmaximal : ∀ longer c, longer <+: part ++ rest → longer <+: utf8EncodeChar c →
      longer.length ≤ part.length := by
    intro longer c hlonger hc
    refine Nat.le_of_not_lt fun hlength => ?_
    obtain ⟨more, rfl⟩ := List.prefix_of_prefix_length_le (List.prefix_append part rest) hlonger
      (by omega)
    rw [List.prefix_append_right_inj] at hlonger
    cases more with
    | nil => simp at hlength
    | cons b more =>
      obtain ⟨tail, rfl⟩ := hlonger
      refine hstop b rfl c (List.IsPrefix.trans ⟨more, ?_⟩ hc)
      simp
  refine ⟨hne, fun c hc => ?_, hbegins, hmaximal⟩
  exact hwhole c (List.prefix_of_prefix_length_le hc (List.prefix_append part rest)
    (hmaximal _ c hc (List.prefix_refl _)))

theorem no_character_of_invalid (h : lead b = .invalid) (c : Char) : ¬ [b] <+: utf8EncodeChar c := by
  rintro ⟨tail, htail⟩
  have hdecode : decode (utf8EncodeChar c) = replacement :: decode tail := by
    rw [← htail, List.singleton_append, decode_invalid h]
  rw [decode_utf8EncodeChar] at hdecode
  obtain rfl : c = replacement := (List.cons.inj hdecode).1
  have hfirst : b = 0xEF := (List.cons.inj htail).1
  rw [hfirst] at h
  exact absurd h (by decide)

theorem maximalPart_of_invalid (h : lead b = .invalid) (rest : List UInt8) :
    MaximalPart [b] rest := by
  refine maximalPart_of_stop (by simp) (.inl rfl) (fun c hc => ?_) (fun b' _ c hc => ?_)
  · have hone : utf8EncodeChar c = [b] := by
      exact hc.eq_of_length_le (List.length_pos_iff.mpr String.utf8EncodeChar_ne_nil)
    exact no_character_of_invalid h c (hone ▸ List.prefix_refl _)
  · exact no_character_of_invalid h c ((List.prefix_append [b] [b']).trans hc)

/-- What stands at the front of bytes, and how it is read. -/
inductive Front : List UInt8 → Prop where
  | char (c : Char) (tail : List UInt8) : Front (utf8EncodeChar c ++ tail)
  | part (part rest : List UInt8) (maximal : MaximalPart part rest)
      (hdecode : decode (part ++ rest) = replacement :: decode rest) : Front (part ++ rest)

theorem Opens.front (h : Opens part p) (rest : List UInt8) : Front (part ++ rest) := by
  induction rest generalizing part p with
  | nil =>
    refine .part part [] (maximalPart_of_stop h.nonempty h.begins h.no_character (by simp)) ?_
    rw [h.decodes]
    rfl
  | cons b rest ih =>
    rw [List.append_cons]
    by_cases hb : p.low ≤ b ∧ b ≤ p.high
    · obtain ⟨value, missing, low, high⟩ := p
      cases missing with
      | zero =>
        obtain ⟨c, hc⟩ := h.last hb
        rw [← hc]
        exact .char c rest
      | succ missing => exact ih (h.further hb)
    · rw [← List.append_cons]
      refine .part part (b :: rest) (maximalPart_of_stop h.nonempty h.begins h.no_character ?_) ?_
      · intro b' hb'
        obtain rfl : b = b' := Option.some.inj hb'
        exact h.no_further hb
      · rw [h.decodes, decodeFrom_cons, feed_outside hb]
        rfl

theorem front (hbs : bs ≠ []) : Front bs := by
  cases bs with
  | nil => exact absurd rfl hbs
  | cons b bs =>
    cases h : lead b with
    | ascii c =>
      obtain ⟨hb, rfl⟩ := ascii_of_lead h
      have hchar := encode_one hb
      rw [UInt8.ofNat_toNat] at hchar
      rw [← List.singleton_append, ← hchar]
      exact .char _ bs
    | opening p => exact (opens_of_lead h).front bs
    | invalid => exact .part [b] bs (maximalPart_of_invalid h bs) (decode_invalid h bs)

theorem MaximalPart.length_le (h : MaximalPart part rest) (h' : MaximalPart part' rest')
    (hsame : part ++ rest = part' ++ rest') : part'.length ≤ part.length := by
  rcases h'.begins with hone | ⟨c, hc⟩
  · rw [hone]
    exact List.length_pos_iff.mpr h.nonempty
  · exact h.maximal part' c (hsame ▸ List.prefix_append part' rest') hc

/-- At most one part at the front of bytes is maximal. -/
theorem MaximalPart.unique (h : MaximalPart part rest) (h' : MaximalPart part' rest')
    (hsame : part ++ rest = part' ++ rest') : part = part' ∧ rest = rest' :=
  List.append_inj hsame (Nat.le_antisymm (h'.length_le h hsame.symm) (h.length_le h' hsame))

theorem decode_of_maximalPart (h : MaximalPart part rest) :
    decode (part ++ rest) = replacement :: decode rest := by
  have hne : part ++ rest ≠ [] := by simp [h.nonempty]
  generalize hbs : part ++ rest = bs at hne
  cases front hne with
  | char c tail => exact absurd ⟨tail, hbs.symm⟩ (h.broken c)
  | part part' rest' h' hdecode =>
    obtain ⟨rfl, rfl⟩ := h.unique h' hbs
    exact hdecode

theorem decode_of_reads {cs : List Char} (h : Reads bs cs) : decode bs = cs := by
  induction h with
  | nil => rfl
  | char c bs cs tail ih => rw [decode_char, ih]
  | part part rest cs skipped tail ih => rw [decode_of_maximalPart skipped, ih]

theorem reads_decode (bs : List UInt8) : Reads bs (decode bs) := by
  induction hn : bs.length using Nat.strongRecOn generalizing bs with
  | ind n ih =>
    by_cases hne : bs = []
    · rw [hne]
      exact .nil
    cases front hne with
    | char c tail =>
      rw [decode_char]
      refine .char c tail _ (ih tail.length ?_ tail rfl)
      have hlength : 0 < (utf8EncodeChar c).length :=
        List.length_pos_iff.mpr String.utf8EncodeChar_ne_nil
      rw [List.length_append] at hn
      omega
    | part part rest hmaximal hdecode =>
      rw [hdecode]
      refine .part part rest _ hmaximal (ih rest.length ?_ rest rfl)
      have hlength := List.length_pos_iff.mpr hmaximal.nonempty
      rw [List.length_append] at hn
      omega

/-- Bytes are read as their characters, with one replacement for each maximal part that is none. -/
theorem reads_iff {cs : List Char} : Reads bs cs ↔ decode bs = cs :=
  ⟨decode_of_reads, fun h => h ▸ reads_decode bs⟩

end QueryServer.Text.Utf8
