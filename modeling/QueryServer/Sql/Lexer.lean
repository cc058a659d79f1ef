import QueryServer.Sql.Token
/-!
From characters to tokens. A token is as long as it can be; blanks and comments separate tokens,
and a character U+0000 ends the source.
-/

namespace QueryServer.Sql.Lexeme

/-- Characters that separate tokens; the byte order mark is one of them. -/
def isSpace (c : Char) : Bool :=
  c == ' ' || c == '\t' || c == '\n' || c == '\x0c' || c == '\r' || c == '\uFEFF'

/-- Characters inside a name: all that are not ASCII count as letters. -/
def isNameChar (c : Char) : Bool :=
  c.isAlphanum || c == '_' || c == '$' || 0x80 ≤ c.toNat

def startsName (c : Char) : Bool :=
  c.isAlpha || c == '_' || 0x80 ≤ c.toNat

def isHexDigit (c : Char) : Bool :=
  c.isDigit || ('a' ≤ c && c ≤ 'f') || ('A' ≤ c && c ≤ 'F')

/-- A digit, or the sign that may stand between two digits. -/
def isDigitOrGap (digit : Char → Bool) (c : Char) : Bool :=
  digit c || c == '_'

def runLength (p : Char → Bool) (cs : List Char) : Nat :=
  (cs.takeWhile p).length

/-- The content of a quoted token after its opening quote, and its length with the closing one.
A doubled quote stands for a single one. -/
def quoted (quote : Char) : List Char → Option (List Char × Nat)
  | [] => none
  | [c] => if c = quote then some ([], 1) else none
  | c :: d :: cs =>
    if c = quote then
      if d = quote then (quoted quote cs).map fun (s, n) => (quote :: s, n + 2) else some ([], 1)
    else (quoted quote (d :: cs)).map fun (s, n) => (c :: s, n + 1)

/-- The length of a block comment after its two opening characters; it may be unfinished. -/
def blockLength : List Char → Nat
  | [] => 0
  | [_] => 1
  | c :: d :: cs => if c = '*' ∧ d = '/' then 2 else blockLength (d :: cs) + 1

def hexValue (c : Char) : Nat :=
  if c.isDigit then c.toNat - '0'.toNat
  else if 'a' ≤ c then c.toNat - 'a'.toNat + 10
  else c.toNat - 'A'.toNat + 10

def hexBytes : List Char → Bytes
  | a :: b :: cs => UInt8.ofNat (hexValue a * 16 + hexValue b) :: hexBytes cs
  | _ => []

/-- Whether every gap sign of a number stands between two digits. -/
def gapsAreInside (digit : Char → Bool) : List Char → Bool
  | [] => true
  | ['_'] => false
  | [_] => true
  | a :: '_' :: cs => digit a && gapsAreInside digit ('_' :: cs)
  | '_' :: b :: cs => digit b && gapsAreInside digit (b :: cs)
  | _ :: b :: cs => gapsAreInside digit (b :: cs)

def withoutGaps (cs : List Char) : List Char :=
  cs.filter (· != '_')

/-- The token of a number's characters, unless more name characters follow them. -/
def numberToken (text : List Char) (isDecimal followed : Bool) : Token :=
  if followed || !gapsAreInside Char.isDigit text then .illegal
  else if isDecimal then .decimal (withoutGaps text)
  else .integer (withoutGaps text)

def exponentLength : List Char → Nat
  | e :: cs =>
    if e = 'e' ∨ e = 'E' then
      match cs with
      | s :: d :: cs' =>
        if s.isDigit then 1 + runLength (isDigitOrGap Char.isDigit) cs
        else if (s = '+' ∨ s = '-') ∧ d.isDigit then
          2 + runLength (isDigitOrGap Char.isDigit) (d :: cs')
        else 0
      | [d] => if d.isDigit then 2 else 0
      | [] => 0
    else 0
  | [] => 0

/-- A number that begins with a digit or with a point before a digit. -/
def number (cs : List Char) : Token × Nat :=
  let hex := match cs with
    | '0' :: x :: d :: _ => (x == 'x' || x == 'X') && isHexDigit d
    | _ => false
  if hex then
    let n := 2 + runLength (isDigitOrGap isHexDigit) (cs.drop 2)
    let junk := runLength isNameChar (cs.drop n)
    let digits := (cs.take n).drop 2
    if junk = 0 && gapsAreInside isHexDigit digits then (.hexadecimal (withoutGaps digits), n)
    else (.illegal, n + junk)
  else
    let whole := runLength (isDigitOrGap Char.isDigit) cs
    let hasPoint := (cs.drop whole).head? == some '.'
    let point := if hasPoint then whole + 1 + runLength (isDigitOrGap Char.isDigit) (cs.drop (whole + 1)) else whole
    let exponent := exponentLength (cs.drop point)
    let n := point + exponent
    let junk := runLength isNameChar (cs.drop n)
    (numberToken (cs.take n) (hasPoint || exponent != 0) (junk != 0), n + junk)

/-- The length of a parameter's name after its sign, and the number of its name characters. -/
def parameterLength : List Char → Nat × Nat
  | ':' :: ':' :: cs => let (n, k) := parameterLength cs; (n + 2, k)
  | c :: cs => if isNameChar c then let (n, k) := parameterLength cs; (n + 1, k + 1) else (0, 0)
  | [] => (0, 0)

def word (text : List Char) : Token :=
  match Keyword.ofWord? (String.ofList text) with
  | some k => .keyword k
  | none => .name (String.ofList text) .bare

def quotedToken (quote : Char) (content : List Char) : Token :=
  if quote = '\'' then .string (String.ofList content)
  else .name (String.ofList content) (if quote = '"' then .double else .other)

/-- What begins with a character: a token or nothing, and how many further characters it has. -/
def measure (c : Char) (cs : List Char) : Option Token × Nat :=
  let sign (s : Symbol) (n : Nat) : Option Token × Nat := (some (.symbol s), n)
  if isSpace c then (none, 0)
  else if c = '-' then
    if cs.head? = some '-' then (none, runLength (· != '\n') cs) else sign .minus 0
  else if c = '/' then
    if cs.head? = some '*' && !(cs.drop 1).isEmpty then (none, 1 + blockLength (cs.drop 1)) else sign .slash 0
  else if c = '(' then sign .open 0
  else if c = ')' then sign .close 0
  else if c = ';' then sign .semicolon 0
  else if c = ',' then sign .comma 0
  else if c = '+' then sign .plus 0
  else if c = '*' then sign .star 0
  else if c = '%' then sign .percent 0
  else if c = '&' then sign .bitAnd 0
  else if c = '~' then sign .bitNot 0
  else if c = '=' then sign .equal (if cs.head? = some '=' then 1 else 0)
  else if c = '<' then
    match cs.head? with
    | some '=' => sign .lessEqual 1
    | some '>' => sign .unequal 1
    | some '<' => sign .shiftLeft 1
    | _ => sign .less 0
  else if c = '>' then
    match cs.head? with
    | some '=' => sign .greaterEqual 1
    | some '>' => sign .shiftRight 1
    | _ => sign .greater 0
  else if c = '!' then
    if cs.head? = some '=' then sign .unequal 1 else (some .illegal, 0)
  else if c = '|' then
    if cs.head? = some '|' then sign .concat 1 else sign .bitOr 0
  else if c = '\'' ∨ c = '"' ∨ c.toNat = 0x60 then
    match quoted c cs with
    | some (content, n) => (some (quotedToken c content), n)
    | none => (some .illegal, cs.length)
  else if c = '[' then
    let n := runLength (· != ']') cs
    if (cs.drop n).isEmpty then (some .illegal, n)
    else (some (.name (String.ofList (cs.take n)) .other), n + 1)
  else if (c = 'x' ∨ c = 'X') ∧ cs.head? = some '\'' then
    let n := runLength isHexDigit (cs.drop 1)
    if n % 2 = 0 ∧ (cs.drop (1 + n)).head? = some '\'' then
      (some (.blob (hexBytes ((cs.drop 1).take n))), n + 2)
    else (some .illegal, min cs.length (2 + runLength (· != '\'') (cs.drop 1)))
  else if startsName c then
    let n := runLength isNameChar cs
    (some (word (c :: cs.take n)), n)
  else if c.isDigit || (c == '.' && (cs.head?.any Char.isDigit)) then
    let (token, n) := number (c :: cs)
    (some token, n - 1)
  else if c = '.' then sign .dot 0
  else if c = '?' then
    let n := runLength Char.isDigit cs
    (some (.parameter (c :: cs.take n)), n)
  else if c = '$' ∨ c = '@' ∨ c = '#' ∨ c = ':' then
    let (n, k) := parameterLength cs
    (some (if k = 0 then .illegal else .parameter (c :: cs.take n)), n)
  else (some .illegal, 0)

/-- The tokens of a source without U+0000. Nothing is looked for after an illegal one. -/
def scanAll : List Char → List Lexeme
  | [] => []
  | c :: cs =>
    match measure c cs with
    | (none, n) => scanAll (cs.drop n)
    | (some .illegal, n) => [⟨.illegal, c :: cs.take n, cs.drop n⟩]
    | (some token, n) => ⟨token, c :: cs.take n, cs.drop n⟩ :: scanAll (cs.drop n)
termination_by cs => cs.length
decreasing_by all_goals simp only [List.length_drop, List.length_cons]; omega

def scan (source : List Char) : List Lexeme :=
  scanAll (source.takeWhile (· != '\x00'))

end QueryServer.Sql.Lexeme
