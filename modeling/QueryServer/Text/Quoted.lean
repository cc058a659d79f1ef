import QueryServer.Text.Literal
/-!
Texts between double quotes, as log lines and fatal errors show them.
-/

namespace QueryServer.Text.Quoted

/-- Ranges of marks that join the character before them. -/
def joiningRanges : List (Nat × Nat) :=
  [(0x0300, 0x036F), (0x0483, 0x0489), (0x0591, 0x05BD), (0x0610, 0x061A), (0x064B, 0x065F),
   (0x0E34, 0x0E3A), (0x0E47, 0x0E4E), (0x1AB0, 0x1ACE), (0x1DC0, 0x1DFF), (0x20D0, 0x20F0),
   (0x302A, 0x302F), (0x3099, 0x309A), (0xFE00, 0xFE0F), (0xFE20, 0xFE2F), (0x1F3FB, 0x1F3FF),
   (0xE0100, 0xE01EF)]

def isJoining (c : Char) : Bool :=
  joiningRanges.any fun r => r.1 ≤ c.toNat && c.toNat ≤ r.2

def hexDigits (n : Nat) : List Char :=
  match (Literal.hex 6 n).dropWhile (· == '0') with
  | [] => ['0']
  | ds => ds

def encodeChar (c : Char) : List Char :=
  if c = '\x00' then ['\\', '0']
  else if c = '\t' then ['\\', 't']
  else if c = '\n' then ['\\', 'n']
  else if c = '\r' then ['\\', 'r']
  else if c = '"' ∨ c = '\\' then ['\\', c]
  else if isPrintable c && !isJoining c then [c]
  else '\\' :: 'u' :: '\x7b' :: hexDigits c.toNat ++ ['\x7d']

def encode (s : String) : String :=
  String.ofList ('"' :: s.toList.flatMap encodeChar ++ ['"'])

end QueryServer.Text.Quoted
