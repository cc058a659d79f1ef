import QueryServer.Text.Literal
/-!
Reading quoted literals. A reader that goes through a literal character by character finds the text
or the bytes that it was written for, and stops behind its last quote.
-/

namespace QueryServer.Text.Literal

/-- Where a reader stands between the quotes. -/
inductive Mode where
  | plain
  /-- A backslash has been read. -/
  | escape
  /-- A numeric escape with the value so far; `left` digits are to come after the next one. -/
  | digits (left value : Nat)
  deriving DecidableEq, Repr

def hexValue? (c : Char) : Option Nat :=
  if c.isDigit then some (c.toNat - '0'.toNat)
  else if 'a' ≤ c ∧ c ≤ 'f' then some (c.toNat - 'a'.toNat + 10)
  else none

/-- The character that a letter or a mark after a backslash stands for. -/
def unescape (c : Char) : Char :=
  if c = 'n' then '\n' else if c = 'r' then '\r' else if c = 't' then '\t' else c

/-- How many digits follow a letter that opens a numeric escape. -/
def width? (c : Char) : Option Nat :=
  if c = 'x' then some 2 else if c = 'u' then some 4 else if c = 'U' then some 8 else none

/-- One more character before what else was read. -/
def prepend (c : Char) : List Char × List Char → List Char × List Char
  | (cs, rest) => (c :: cs, rest)

/-- The characters before the closing quote, and what follows it. -/
def readBody (quote : Char) : Mode → List Char → Option (List Char × List Char)
  | _, [] => none
  | .plain, c :: cs =>
    if c = quote then some ([], cs)
    else if c = '\\' then readBody quote .escape cs
    else (readBody quote .plain cs).map (prepend c)
  | .escape, c :: cs =>
    match width? c with
    | some width => readBody quote (.digits (width - 1) 0) cs
    | none => (readBody quote .plain cs).map (prepend (unescape c))
  | .digits left value, c :: cs =>
    match hexValue? c, left with
    | none, _ => none
    | some digit, 0 => (readBody quote .plain cs).map (prepend (Char.ofNat (value * 16 + digit)))
    | some digit, left + 1 => readBody quote (.digits left (value * 16 + digit)) cs

/-- The characters between which literals stand. -/
abbrev IsQuote (c : Char) : Prop :=
  c = '\'' ∨ c = '"'

/-- A literal at the front: its characters and what follows it. -/
def read : List Char → Option (List Char × List Char)
  | [] => none
  | quote :: cs => if IsQuote quote then readBody quote .plain cs else none

variable {quote c : Char} {cs rest : List Char}

/-- Reading goes forward. -/
theorem length_readBody {mode : Mode} {body : List Char}
    (h : readBody quote mode cs = some (body, rest)) : rest.length < cs.length := by
  induction cs generalizing mode body with
  | nil => simp [readBody] at h
  | cons c cs ih =>
    have hstep : ∀ d, (readBody quote .plain cs).map (prepend d) = some (body, rest) →
        rest.length < (c :: cs).length := by
      intro d hd
      obtain ⟨⟨body', rest'⟩, hbody, he⟩ := Option.map_eq_some_iff.mp hd
      obtain ⟨-, rfl⟩ := Prod.mk.inj he
      exact Nat.lt_succ_of_lt (ih hbody)
    cases mode with
    | plain =>
      simp only [readBody] at h
      split at h
      · obtain ⟨-, rfl⟩ := Prod.mk.inj (Option.some.inj h)
        exact Nat.lt_succ_self _
      split at h
      · exact Nat.lt_succ_of_lt (ih h)
      · exact hstep _ h
    | escape =>
      simp only [readBody] at h
      split at h
      · exact Nat.lt_succ_of_lt (ih h)
      · exact hstep _ h
    | digits left value =>
      simp only [readBody] at h
      split at h
      · cases h
      · exact hstep _ h
      · exact Nat.lt_succ_of_lt (ih h)

theorem length_read {body : List Char} (h : read cs = some (body, rest)) :
    rest.length < cs.length := by
  cases cs with
  | nil => simp [read] at h
  | cons quote cs =>
    simp only [read] at h
    split at h
    · exact Nat.lt_succ_of_lt (length_readBody h)
    · cases h

theorem hexValue?_digitChar : ∀ d < 16, hexValue? (Nat.digitChar d) = some d := by
  decide

theorem hexValue?_digit (n : Nat) : hexValue? (Nat.digitChar (n % 16)) = some (n % 16) :=
  hexValue?_digitChar _ (Nat.mod_lt n (by decide))

theorem div_lt_pow {n k : Nat} (h : n < Nat.pow 16 (k + 1)) : n / 16 < Nat.pow 16 k := by
  rw [Nat.pow_eq, Nat.pow_succ] at h
  exact Nat.div_lt_of_lt_mul (by rwa [Nat.mul_comm])

/-- Digits of a number that are not the last of their escape leave the number behind. -/
theorem readBody_hex (quote : Char) (left : Nat) {width n : Nat} (h : n < Nat.pow 16 width)
    (rest : List Char) :
    readBody quote (.digits (left + width) 0) (hex width n ++ rest) =
      readBody quote (.digits left n) rest := by
  induction width generalizing left n rest with
  | zero =>
    have : n = 0 := by simpa using h
    simp [hex, this]
  | succ k ih =>
    have hleft : left + (k + 1) = left + 1 + k := by omega
    have hn : n / 16 * 16 + n % 16 = n := Nat.div_add_mod' n 16
    rw [hex, List.append_assoc, hleft, ih _ (div_lt_pow h)]
    simp [readBody, hexValue?_digit, hn]

/-- All digits of an escape give its character. -/
theorem readBody_digits (width : Nat) (h : c.toNat < Nat.pow 16 (width + 1)) (rest : List Char) :
    readBody quote (.digits width 0) (hex (width + 1) c.toNat ++ rest) =
      (readBody quote .plain rest).map (prepend c) := by
  have hn : c.toNat / 16 * 16 + c.toNat % 16 = c.toNat := Nat.div_add_mod' _ 16
  have hread := readBody_hex quote 0 (div_lt_pow h) (Nat.digitChar (c.toNat % 16) :: rest)
  rw [Nat.zero_add] at hread
  rw [hex, List.append_assoc, List.singleton_append, hread]
  simp [readBody, hexValue?_digit, hn, Char.ofNat_toNat]

theorem readBody_backslash (hq : IsQuote quote) (cs : List Char) :
    readBody quote .plain ('\\' :: cs) = readBody quote .escape cs := by
  rcases hq with rfl | rfl <;> rfl

/-- A letter or a mark after a backslash gives the character that it stands for. -/
theorem readBody_named (hq : IsQuote quote) (hc : width? c = none) (rest : List Char) :
    readBody quote .plain ('\\' :: c :: rest) =
      (readBody quote .plain rest).map (prepend (unescape c)) := by
  rw [readBody_backslash hq]
  simp [readBody, hc]

theorem readBody_numeric (hq : IsQuote quote) (c : Char) (rest : List Char) :
    readBody quote .plain (numeric c ++ rest) = (readBody quote .plain rest).map (prepend c) := by
  unfold numeric
  dsimp only
  split
  · rename_i h
    rw [List.cons_append, readBody_backslash hq]
    exact readBody_digits 1 (Nat.lt_of_le_of_lt h (by decide)) rest
  split
  · rename_i h
    rw [List.cons_append, readBody_backslash hq]
    exact readBody_digits 3 (Nat.lt_of_le_of_lt h (by decide)) rest
  · have h : c.toNat < Nat.pow 16 8 := Nat.lt_of_lt_of_le c.val.toNat_lt (by decide)
    rw [List.cons_append, readBody_backslash hq]
    exact readBody_digits 7 h rest

/-- One character between quotes, by whether it is shown as it is. -/
def escapeUnless (shown : Bool) (quote c : Char) : List Char :=
  if c = '\\' then ['\\', '\\']
  else if c = '\n' then ['\\', 'n']
  else if c = '\r' then ['\\', 'r']
  else if c = '\t' then ['\\', 't']
  else if c = quote then ['\\', c]
  else if shown then [c]
  else numeric c

theorem escapeChar_eq (quote c : Char) :
    escapeChar quote c = escapeUnless (isPrintable c) quote c :=
  rfl

theorem toNat_charOfByte (b : UInt8) : (charOfByte b).toNat = b.toNat := by
  have hvalid : b.toNat.isValidChar := .inl (Nat.lt_trans b.toNat_lt (by decide))
  rw [charOfByte, Char.ofNat, dif_pos hvalid]
  rfl

theorem escapeByte_eq (quote : Char) (b : UInt8) :
    escapeByte quote b = escapeUnless (0x20 ≤ b && b ≤ 0x7E) quote (charOfByte b) := by
  have hb : (charOfByte b).toNat ≤ 0xFF := by
    have : b.toNat < 256 := b.toNat_lt
    rw [toNat_charOfByte]
    omega
  have hnumeric : numeric (charOfByte b) = '\\' :: 'x' :: hex 2 b.toNat := by
    rw [numeric, if_pos hb, toNat_charOfByte]
  rw [escapeByte, escapeUnless, hnumeric]

/-- A written character is read as itself, whatever follows. -/
theorem readBody_escapeUnless (hq : IsQuote quote) (shown : Bool) (c : Char)
    (rest : List Char) :
    readBody quote .plain (escapeUnless shown quote c ++ rest) =
      (readBody quote .plain rest).map (prepend c) := by
  unfold escapeUnless
  split
  · subst c
    exact readBody_named hq rfl rest
  split
  · subst c
    exact readBody_named hq rfl rest
  split
  · subst c
    exact readBody_named hq rfl rest
  split
  · subst c
    exact readBody_named hq rfl rest
  split
  · subst c
    have hquote : width? quote = none ∧ unescape quote = quote := by
      rcases hq with rfl | rfl <;> decide
    have hread := readBody_named hq hquote.1 rest
    rwa [hquote.2] at hread
  split
  · rename_i hslash _ _ _ hquote _
    simp [readBody, hquote, hslash]
  · exact readBody_numeric hq c rest

theorem readBody_flatMap {α : Type} (write : α → List Char) (char : α → Char)
    (hwrite : ∀ x rest, readBody quote .plain (write x ++ rest) =
      (readBody quote .plain rest).map (prepend (char x))) (xs : List α) (rest : List Char) :
    readBody quote .plain (xs.flatMap write ++ quote :: rest) = some (xs.map char, rest) := by
  induction xs with
  | nil => simp [readBody]
  | cons x xs ih => simp [hwrite, ih, prepend]

theorem isQuote_quoteFor (hasSingle hasDouble : Bool) : IsQuote (quoteFor hasSingle hasDouble) := by
  cases hasSingle <;> cases hasDouble <;> decide

/-- Texts survive the way through their literals. -/
theorem read_text (cs rest : List Char) : read (text cs ++ rest) = some (cs, rest) := by
  have hq : IsQuote (textQuote cs) := isQuote_quoteFor _ _
  have hwrite : ∀ c rest, readBody (textQuote cs) .plain (escapeChar (textQuote cs) c ++ rest) =
      (readBody (textQuote cs) .plain rest).map (prepend c) := by
    intro c rest
    rw [escapeChar_eq]
    exact readBody_escapeUnless hq _ c rest
  have hbody := readBody_flatMap _ id hwrite cs rest
  simp [text, read, hq, hbody]

/-- A marked literal of bytes at the front. -/
def readBytes : List Char → Option (List UInt8 × List Char)
  | 'b' :: cs => (read cs).map fun (cs, rest) => (cs.map fun c => UInt8.ofNat c.toNat, rest)
  | _ => none

theorem length_readBytes {bs : List UInt8} (h : readBytes cs = some (bs, rest)) :
    rest.length < cs.length := by
  unfold readBytes at h
  split at h
  · obtain ⟨⟨body, rest'⟩, hbody, he⟩ := Option.map_eq_some_iff.mp h
    obtain ⟨-, rfl⟩ := Prod.mk.inj he
    exact Nat.lt_succ_of_lt (length_read hbody)
  · cases h

theorem ofNat_charOfByte (b : UInt8) : UInt8.ofNat (charOfByte b).toNat = b := by
  rw [toNat_charOfByte, UInt8.ofNat_toNat]

/-- Bytes survive the way through their literals. -/
theorem readBytes_bytes (bs : List UInt8) (rest : List Char) :
    readBytes (bytes bs ++ rest) = some (bs, rest) := by
  have hq : IsQuote (bytesQuote bs) := isQuote_quoteFor _ _
  have hwrite : ∀ (b : UInt8) rest,
      readBody (bytesQuote bs) .plain (escapeByte (bytesQuote bs) b ++ rest) =
        (readBody (bytesQuote bs) .plain rest).map (prepend (charOfByte b)) := by
    intro b rest
    rw [escapeByte_eq]
    exact readBody_escapeUnless hq _ _ rest
  have hbody := readBody_flatMap _ _ hwrite bs rest
  have hmap : bs.map (fun b => UInt8.ofNat (charOfByte b).toNat) = bs :=
    List.map_id'' ofNat_charOfByte bs
  simp [bytes, readBytes, read, hq, hbody, Function.comp_def, hmap]

theorem zero_not_mem_hex (width n : Nat) : '\x00' ∉ hex width n := by
  have hdigit : ∀ d < 16, '\x00' ≠ Nat.digitChar d := by decide
  induction width generalizing n with
  | zero => simp [hex]
  | succ k ih => simp [hex, ih, hdigit _ (Nat.mod_lt n (by decide : 16 > 0))]

theorem zero_not_mem_numeric (c : Char) : '\x00' ∉ numeric c := by
  unfold numeric
  dsimp only
  repeat' split
  all_goals simp [zero_not_mem_hex]

/-- Every character that is not shown has an escape without U+0000. -/
theorem zero_not_mem_escapeUnless (hq : IsQuote quote) {shown : Bool}
    (hshown : shown = true → '\x00' ≠ c) : '\x00' ∉ escapeUnless shown quote c := by
  unfold escapeUnless
  split
  · decide
  split
  · decide
  split
  · decide
  split
  · decide
  split
  · subst c
    rcases hq with rfl | rfl <;> decide
  split
  · simpa using hshown ‹_›
  · exact zero_not_mem_numeric c

theorem zero_ne_quote (hq : IsQuote quote) : '\x00' ≠ quote := by
  rcases hq with rfl | rfl <;> decide

theorem zero_not_mem_text (cs : List Char) : '\x00' ∉ text cs := by
  have hq : IsQuote (textQuote cs) := isQuote_quoteFor _ _
  have hbody : '\x00' ∉ cs.flatMap (escapeChar (textQuote cs)) := by
    rw [List.mem_flatMap]
    rintro ⟨c, -, hc⟩
    rw [escapeChar_eq] at hc
    refine zero_not_mem_escapeUnless hq ?_ hc
    rintro hshown rfl
    exact absurd hshown (by decide)
  simp [text, zero_ne_quote hq, hbody]

theorem zero_not_mem_bytes (bs : List UInt8) : '\x00' ∉ bytes bs := by
  have hq : IsQuote (bytesQuote bs) := isQuote_quoteFor _ _
  have hbody : '\x00' ∉ bs.flatMap (escapeByte (bytesQuote bs)) := by
    rw [List.mem_flatMap]
    rintro ⟨b, -, hb⟩
    rw [escapeByte_eq] at hb
    refine zero_not_mem_escapeUnless hq ?_ hb
    intro hshown hzero
    have hb0 : b = 0 := by
      rw [← ofNat_charOfByte b, ← hzero]
      rfl
    exact absurd hshown (by rw [hb0]; decide)
  simp [bytes, zero_ne_quote hq, hbody]

end QueryServer.Text.Literal
