import QueryServer.Proofs.Visible
import QueryServer.Proofs.Text.Malformed
/-!
Literals of bytes beside literals of texts. The two are escaped by rules of their own, one over the
values of bytes and one over classes of characters. Main statement: on ASCII they write the same.
-/

namespace QueryServer
namespace Text

/-- Of the ASCII characters, the plain ones are printable and no others. -/
theorem isPrintable_iff_plain {c : Char} (h : c.toNat < 0x80) :
    isPrintable c = true ↔ IsPlain c := by
  refine ⟨fun hc => ?_, IsPlain.isPrintable⟩
  rcases isPrintable_eq_true_iff.mp hc with rfl | hclear
  · decide
  · simp only [isControl, isBlank, Bool.or_eq_true, Bool.and_eq_true, decide_eq_true_eq, beq_iff_eq,
      not_or] at hclear
    unfold IsPlain
    omega

namespace Literal

variable {bs : List UInt8}

theorem charOfByte_injective : Function.Injective charOfByte := by
  intro a b h
  rw [← ofNat_charOfByte a, h, ofNat_charOfByte]

theorem contains_charOfByte (bs : List UInt8) (b : UInt8) :
    (bs.map charOfByte).contains (charOfByte b) = bs.contains b := by
  rw [Bool.eq_iff_iff, List.contains_iff_mem, List.contains_iff_mem]
  exact List.mem_map_of_injective charOfByte_injective

/-- The quote of bytes is that of their characters, whatever the bytes. -/
theorem bytesQuote_eq (bs : List UInt8) : bytesQuote bs = textQuote (bs.map charOfByte) := by
  rw [bytesQuote, textQuote, ← contains_charOfByte bs 0x27, ← contains_charOfByte bs 0x22]
  rfl

/-- A byte shows itself just where its character is plain. -/
theorem shows_iff_plain (b : UInt8) :
    (0x20 ≤ b && b ≤ 0x7E) = true ↔ IsPlain (charOfByte b) := by
  rw [Bool.and_eq_true, decide_eq_true_eq, decide_eq_true_eq, UInt8.le_iff_toNat_le,
    UInt8.le_iff_toNat_le, IsPlain, toNat_charOfByte]
  rfl

/-- The escapes of a byte and of its character are the same if it is ASCII or does not print. -/
theorem escapeByte_eq_escapeChar (quote : Char) {b : UInt8}
    (h : b < 0x80 ∨ isPrintable (charOfByte b) = false) :
    escapeByte quote b = escapeChar quote (charOfByte b) := by
  have hshown : (0x20 ≤ b && b ≤ 0x7E) = isPrintable (charOfByte b) := by
    rw [Bool.eq_iff_iff, shows_iff_plain]
    rcases h with hascii | hhidden
    · have hc : (charOfByte b).toNat < 0x80 := by
        rw [toNat_charOfByte]
        exact UInt8.lt_iff_toNat_lt.mp hascii
      exact (isPrintable_iff_plain hc).symm
    · exact ⟨IsPlain.isPrintable, fun hp => by rw [hhidden] at hp; cases hp⟩
  rw [escapeByte_eq, escapeChar_eq, hshown]

/-- The literal of bytes is a marked literal of their characters exactly if every byte beyond ASCII
is one whose character does not print. -/
theorem bytes_eq_text_iff : bytes bs = 'b' :: text (bs.map charOfByte) ↔
    ∀ b ∈ bs, b < 0x80 ∨ isPrintable (charOfByte b) = false := by
  constructor
  · intro heq b hb
    refine or_iff_not_imp_right.mpr fun hprints => ?_
    have hshown : charOfByte b ∈ text (bs.map charOfByte) :=
      mem_text_of_printable (List.mem_map_of_mem hb) (Bool.not_eq_false _ ▸ hprints)
    -- nothing but plain characters is written for bytes
    have hplain : IsPlain (charOfByte b) :=
      plain_of_mem_bytes (heq ▸ List.mem_cons_of_mem 'b' hshown)
    rw [IsPlain, toNat_charOfByte] at hplain
    exact UInt8.lt_iff_toNat_lt.mpr (Nat.lt_of_le_of_lt hplain.2 (by decide))
  · intro h
    have hbody : bs.flatMap (escapeByte (bytesQuote bs)) =
        bs.flatMap fun b => escapeChar (bytesQuote bs) (charOfByte b) :=
      List.flatMap_congr fun b hb => escapeByte_eq_escapeChar _ (h b hb)
    rw [bytes, text, ← bytesQuote_eq, List.flatMap_map, hbody]
    rfl

example : bytes [0xA0] = 'b' :: text ['\u00A0'] ∧ bytes [0xE9] ≠ 'b' :: text ['é'] := by decide

theorem utf8_of_ascii (h : ∀ b ∈ bs, b < 0x80) : Utf8.encode (bs.map charOfByte) = bs := by
  induction bs with
  | nil => rfl
  | cons b bs ih =>
    obtain ⟨hb, hbs⟩ := List.forall_mem_cons.mp h
    have hone : String.utf8EncodeChar (charOfByte b) = [b] := by
      rw [charOfByte, Utf8.encode_one (UInt8.lt_iff_toNat_lt.mp hb), UInt8.ofNat_toNat]
    rw [List.map_cons, Utf8.encode, List.flatMap_cons, hone, List.singleton_append]
    exact congrArg (b :: ·) (ih hbs)

end Literal
end Text

open Text.Literal

/-- ASCII bytes are written like the text that consists of them, with a letter before it: the quote
is the same, and so is what stands for each byte. -/
theorem Value.written_blob_of_ascii (bs : List UInt8) (h : ∀ b ∈ bs, b < 0x80) :
    (blob bs).written = 'b' :: (text (String.ofList (bs.map charOfByte))).written ∧
      Text.Utf8.encode (bs.map charOfByte) = bs ∧
      bytesQuote bs = textQuote (bs.map charOfByte) ∧
      bs.map (escapeByte (bytesQuote bs)) =
        (bs.map charOfByte).map (escapeChar (textQuote (bs.map charOfByte))) := by
  refine ⟨?_, utf8_of_ascii h, bytesQuote_eq bs, ?_⟩
  · rw [written, written, String.toList_ofList]
    exact bytes_eq_text_iff.mpr fun b hb => .inl (h b hb)
  · rw [List.map_map, ← bytesQuote_eq]
    exact List.map_congr_left fun b hb => escapeByte_eq_escapeChar _ (.inl (h b hb))

/-- A single quote, a backslash, a tab, a zero, the last control and a letter. -/
theorem Value.written_blob_of_ascii_quotes :
    (∀ b ∈ [0x27, 0x5C, 0x09, 0x00, 0x7F, 0x61], b < (0x80 : UInt8)) ∧
      (blob [0x27, 0x5C, 0x09, 0x00, 0x7F, 0x61]).written =
        'b' :: (text "'\\\t\x00\x7fa").written ∧
      (text "'\\\t\x00\x7fa").written = "\"'\\\\\\t\\x00\\x7fa\"".toList := by
  have hascii : ∀ b ∈ [0x27, 0x5C, 0x09, 0x00, 0x7F, 0x61], b < (0x80 : UInt8) := by simp
  exact ⟨hascii, (written_blob_of_ascii _ hascii).1, by decide⟩

end QueryServer
