import QueryServer.Sql.Affinity
/-!
One kind of value seen as another: what operators and functions make of any argument.
-/

namespace QueryServer.Sql.Datum

def textBytes : Datum → Bytes
  | null => []
  | text bytes => bytes
  | blob bytes => bytes
  | d => Text.Utf8.encode d.numberText

/-- The value as an integer; a text counts as the integer at its start. -/
def asInt : Datum → Int64
  | null => 0
  | integer n => n
  | real x => Numeric.truncate x
  | text bytes => Numeric.clamp (Numeric.readInt (Numeric.charsOf bytes))
  | blob bytes => Numeric.clamp (Numeric.readInt (Numeric.charsOf bytes))

/-- The value as a double; a text counts as the number at its start. -/
def asReal : Datum → Binary64
  | null => Binary64.ofMagnitude false 0
  | integer n => Numeric.realOfInt n.toInt
  | real x => x
  | text bytes => (Numeric.readReal (Numeric.charsOf bytes)).1
  | blob bytes => (Numeric.readReal (Numeric.charsOf bytes)).1

/-- The number at the start of a text: an integer if it has neither point nor exponent. -/
def leadingNumber (bytes : Bytes) : Datum :=
  let cs := Numeric.charsOf bytes
  let whole (x : Binary64) : Datum :=
    let n := Numeric.readInt cs
    if Numeric.fits n then integer (Int64.ofInt n) else real x
  match Numeric.readReal cs with
  | (x, .none) => whole x
  | (x, .integer) => whole x
  | (x, _) => real x

def asNumber : Datum → Datum
  | text bytes => leadingNumber bytes
  | blob bytes => leadingNumber bytes
  | d => d

/-- Whether a value counts as true; null is neither true nor false. -/
def truth? : Datum → Option Bool
  | null => none
  | integer n => some (n != 0)
  | d => some (!d.asReal.isZero)

/-- A text that becomes a number as far as it is one; a double without fraction becomes an
integer. -/
def castNumeric (bytes : Bytes) : Datum :=
  let cs := Numeric.charsOf bytes
  match Numeric.readReal cs with
  | (x, extent) =>
    let n := Numeric.readInt cs
    if (extent = .none ∨ extent = .integer) ∧ Numeric.fits n then integer (Int64.ofInt n)
    else (real x).preferInteger

def cast (a : Affinity) (d : Datum) : Datum :=
  match a, d with
  | _, null => null
  | .integer, d => integer d.asInt
  | .real, d => ofReal d.asReal
  | .text, d => text d.textBytes
  | .blob, d => blob d.textBytes
  | .numeric, text bytes => castNumeric bytes
  | .numeric, blob bytes => castNumeric bytes
  | .numeric, d => d

end QueryServer.Sql.Datum
