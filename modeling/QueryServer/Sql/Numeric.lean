import QueryServer.Sql.Datum
/-!
Numbers in texts and texts of numbers. Reading takes the longest start of a text that is a number;
writing a double gives at most fifteen digits.
-/

namespace QueryServer.Sql.Numeric

/-- Spaces that may stand around a number. -/
def isSpace (c : Char) : Bool :=
  c == ' ' || (0x09 ≤ c.toNat && c.toNat ≤ 0x0D)

/-- Digits beyond this magnitude no longer count. -/
def capacity : Nat := (UInt64.size - 10) / 10

/-- Digits before the point: those that exceed the capacity only raise the exponent. -/
def wholeDigits (acc : Nat × Int) : List Char → Nat × Int
  | [] => acc
  | c :: cs =>
    if acc.1 < capacity then wholeDigits (acc.1 * 10 + (c.toNat - '0'.toNat), acc.2) cs
    else wholeDigits (acc.1, acc.2 + 1) cs

/-- Digits after the point: those that exceed the capacity are dropped. -/
def fractionDigits (acc : Nat × Int) : List Char → Nat × Int
  | [] => acc
  | c :: cs =>
    if acc.1 < capacity then fractionDigits (acc.1 * 10 + (c.toNat - '0'.toNat), acc.2 - 1) cs
    else fractionDigits acc cs

def naturalOf (ds : List Char) : Nat :=
  ds.foldl (fun n c => n * 10 + (c.toNat - '0'.toNat)) 0

/-- How much of a text is a number. -/
inductive Extent where
  /-- Nothing, or a number without point and exponent before other characters. -/
  | none
  /-- A number with a point or an exponent before other characters. -/
  | start
  /-- All of it, without point and exponent. -/
  | integer
  /-- All of it, with a point or an exponent. -/
  | decimal
  deriving DecidableEq, Repr

/-- The number at the start of a text, as a double, and how much of the text it is. -/
def readReal (cs : List Char) : Binary64 × Extent :=
  let body := cs.dropWhile isSpace
  let negative := body.head? = some '-'
  let body := if negative ∨ body.head? = some '+' then body.drop 1 else body
  let whole := body.takeWhile Char.isDigit
  let afterWhole := body.dropWhile Char.isDigit
  let hasPoint := afterWhole.head? = some '.'
  let fraction := if hasPoint then (afterWhole.drop 1).takeWhile Char.isDigit else []
  let afterFraction := if hasPoint then (afterWhole.drop 1).dropWhile Char.isDigit else afterWhole
  let hasMark := afterFraction.head? = some 'e' ∨ afterFraction.head? = some 'E'
  let marked := afterFraction.drop 1
  let exponentSigned := marked.head? = some '-' ∨ marked.head? = some '+'
  let exponentBody := if exponentSigned then marked.drop 1 else marked
  let exponentDigits := exponentBody.takeWhile Char.isDigit
  let hasExponent := hasMark ∧ exponentDigits ≠ []
  let rest := if hasExponent then exponentBody.dropWhile Char.isDigit
    else if hasMark then exponentBody else afterFraction
  let exponent : Int :=
    if hasExponent then
      let e : Int := min (naturalOf exponentDigits) 10000
      if marked.head? = some '-' then -e else e
    else 0
  let (digits, shift) := fractionDigits (wholeDigits (0, 0) whole) fraction
  let value := if digits = 0 then Binary64.ofMagnitude negative 0
    else Binary64.ofDecimal negative digits (shift + exponent)
  let complete := (rest.dropWhile isSpace).isEmpty ∧ (whole ≠ [] ∨ fraction ≠ [])
  let extent :=
    if complete ∧ (hasMark → hasExponent) then
      if hasPoint ∨ hasExponent then .decimal else .integer
    else if (hasPoint ∨ hasExponent) ∧ (whole ≠ [] ∨ fraction ≠ []) then .start
    else .none
  (value, extent)

/-- The integer at the start of a text, without bounds; zero if there is none. -/
def readInt (cs : List Char) : Int :=
  let body := cs.dropWhile isSpace
  match body with
  | '-' :: rest => -(naturalOf (rest.takeWhile Char.isDigit) : Int)
  | '+' :: rest => naturalOf (rest.takeWhile Char.isDigit)
  | rest => naturalOf (rest.takeWhile Char.isDigit)

def minInt : Int := Int64.minValue.toInt

def maxInt : Int := Int64.maxValue.toInt

def fits (n : Int) : Bool :=
  minInt ≤ n && n ≤ maxInt

/-- The nearest 64-bit integer. -/
def clamp (n : Int) : Int64 :=
  Int64.ofInt (max minInt (min maxInt n))

def charsOf (bytes : Bytes) : List Char :=
  bytes.map Text.Literal.charOfByte

/-- A double without its fraction, within the bounds of 64 bits. -/
def truncate (x : Binary64) : Int64 :=
  clamp (Int.tdiv (Datum.exactSteps (.real x)) ((1 : Int) <<< (1074 : Nat)))

def realOfInt (n : Int) : Binary64 :=
  Binary64.ofDecimal (n < 0) n.natAbs 0

/-- The integer that a double is, if it lies strictly inside the bounds of 64 bits. -/
def wholeOf? (x : Binary64) : Option Int64 :=
  let n := truncate x
  if Datum.exactSteps (.integer n) = Datum.exactSteps (.real x) ∧ minInt < n.toInt ∧ n.toInt < maxInt
  then some n else none

/-- The digits of a positive finite magnitude, rounded half up to fifteen, without trailing zeros,
and the power of ten of the first one. -/
def fifteenDigits (m : Nat) : List Char × Int :=
  let v := Binary64.exactly m
  let length := (digitsOf (v >>> 1075)).length
  let unit := if 15 ≤ length then Binary64.gridPoint (length - 15) 1 else 1 <<< 1075
  let scaled := if 15 ≤ length then v else v * Nat.pow 10 (15 - length)
  let ds := digitsOf ((2 * scaled + unit) / (2 * unit))
  let power : Int := (length : Int) - 1 - Binary64.finest + (ds.length - 15 : Nat)
  ((ds.reverse.dropWhile (· == '0')).reverse, power)

def withPoint (ds : List Char) (n : Nat) : List Char :=
  let padded := ds ++ List.replicate (n - ds.length) '0'
  padded.take n ++ '.' :: (if padded.length ≤ n then ['0'] else padded.drop n)

/-- The text of a double: up to fifteen digits, positional from 10^-4 up to 10^15. -/
def realText (x : Binary64) : List Char :=
  let sign := if x.isNegative ∧ ¬ x.isZero then ['-'] else []
  sign ++
    if x.isZero then ['0', '.', '0']
    else if x.isInfinite then ['I', 'n', 'f']
    else
      let (ds, power) := fifteenDigits x.magnitude
      if power < -4 ∨ 14 < power then
        let es := digitsOf power.natAbs
        withPoint ds 1 ++ 'e' :: (if power < 0 then '-' else '+') :: List.replicate (2 - es.length) '0' ++ es
      else if power < 0 then '0' :: '.' :: List.replicate (power.natAbs - 1) '0' ++ ds
      else withPoint ds (power.toNat + 1)

end QueryServer.Sql.Numeric
