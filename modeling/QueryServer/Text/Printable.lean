import QueryServer.Text.Blank
/-!
Characters that a text literal shows as they are.
-/

namespace QueryServer.Text

/-- The controls: U+0000 to U+001F and U+007F to U+009F. -/
def isControl (c : Char) : Bool :=
  let n := c.toNat
  n ≤ 0x1F || (0x7F ≤ n && n ≤ 0x9F)

/-- Ranges of characters without a glyph of their own: format characters, private use, the last
two code points of the basic plane, and all from U+F0000 on. -/
def invisibleRanges : List (Nat × Nat) :=
  [(0x00AD, 0x00AD), (0x0600, 0x0605), (0x061C, 0x061C), (0x06DD, 0x06DD), (0x070F, 0x070F),
   (0x0890, 0x0891), (0x08E2, 0x08E2), (0x180E, 0x180E), (0x200B, 0x200F), (0x202A, 0x202E),
   (0x2060, 0x2064), (0x2066, 0x206F), (0xE000, 0xF8FF), (0xFEFF, 0xFEFF), (0xFFF9, 0xFFFB),
   (0xFFFE, 0xFFFF), (0x110BD, 0x110BD), (0x110CD, 0x110CD), (0x13430, 0x1343F),
   (0x1BCA0, 0x1BCA3), (0x1D173, 0x1D17A), (0xE0001, 0xE0001), (0xE0020, 0xE007F),
   (0xF0000, 0x10FFFF)]

def isInvisible (c : Char) : Bool :=
  invisibleRanges.any fun r => r.1 ≤ c.toNat && c.toNat ≤ r.2

/-- The space is printable; controls, other blanks and invisible characters are not. -/
def isPrintable (c : Char) : Bool :=
  c == ' ' || !(isControl c || isBlank c || isInvisible c)

end QueryServer.Text
