import QueryServer.Text.Printable
/-!
Quoted literals of texts and of bytes: one quote on each side, a backslash before what would end
or blur the literal, and hexadecimal escapes for what does not print.
-/

namespace QueryServer.Text.Literal

/-- The double quote serves only where it avoids escaping a single quote. -/
def quoteFor (hasSingle hasDouble : Bool) : Char :=
  if hasSingle && !hasDouble then '"' else '\''

/-- The last `width` hexadecimal digits of a number, in lower case. -/
def hex (width n : Nat) : List Char :=
  match width with
  | 0 => []
  | k + 1 => hex k (n / 16) ++ [Nat.digitChar (n % 16)]

/-- The escape of a character by its number: two, four or eight digits, as few as suffice. -/
def numeric (c : Char) : List Char :=
  let n := c.toNat
  if n ≤ 0xFF then '\\' :: 'x' :: hex 2 n
  else if n ≤ 0xFFFF then '\\' :: 'u' :: hex 4 n
  else '\\' :: 'U' :: hex 8 n

def escapeChar (quote c : Char) : List Char :=
  if c = '\\' then ['\\', '\\']
  else if c = '\n' then ['\\', 'n']
  else if c = '\r' then ['\\', 'r']
  else if c = '\t' then ['\\', 't']
  else if c = quote then ['\\', c]
  else if isPrintable c then [c]
  else numeric c

def textQuote (cs : List Char) : Char :=
  quoteFor (cs.contains '\'') (cs.contains '"')

def text (cs : List Char) : List Char :=
  textQuote cs :: cs.flatMap (escapeChar (textQuote cs)) ++ [textQuote cs]

def charOfByte (b : UInt8) : Char :=
  Char.ofNat b.toNat

/-- One byte inside its quotes: the visible ASCII characters stand for themselves. -/
def escapeByte (quote : Char) (b : UInt8) : List Char :=
  let c := charOfByte b
  if c = '\\' then ['\\', '\\']
  else if c = '\n' then ['\\', 'n']
  else if c = '\r' then ['\\', 'r']
  else if c = '\t' then ['\\', 't']
  else if c = quote then ['\\', c]
  else if 0x20 ≤ b && b ≤ 0x7E then [c]
  else '\\' :: 'x' :: hex 2 b.toNat

def bytesQuote (bs : List UInt8) : Char :=
  quoteFor (bs.contains 0x27) (bs.contains 0x22)

def bytes (bs : List UInt8) : List Char :=
  'b' :: bytesQuote bs :: bs.flatMap (escapeByte (bytesQuote bs)) ++ [bytesQuote bs]

end QueryServer.Text.Literal
