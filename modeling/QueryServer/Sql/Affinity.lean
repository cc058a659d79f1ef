import QueryServer.Sql.Numeric
/-!
Affinities: the kind of value that a column prefers. Values are converted towards it where that
loses nothing, both when they are stored and when they are compared.
-/

namespace QueryServer.Sql

inductive Affinity where
  | blob
  | text
  | numeric
  | integer
  | real
  deriving DecidableEq, Repr

namespace Affinity

def occursIn (word : List Char) : List Char → Bool
  | [] => word.isEmpty
  | c :: cs => word.isPrefixOf (c :: cs) || occursIn word cs

/-- The affinity of a declared type, by parts of its name; a column without a type has none. -/
def ofType (type : String) : Affinity :=
  let cs := type.toList.map Char.toUpper
  let has (word : String) : Bool := occursIn word.toList cs
  if cs.isEmpty then .blob
  else if has "INT" then .integer
  else if has "CHAR" || has "CLOB" || has "TEXT" then .text
  else if has "BLOB" then .blob
  else if has "REAL" || has "FLOA" || has "DOUB" then .real
  else .numeric

def isNumeric : Affinity → Bool
  | numeric | integer | real => true
  | _ => false

end Affinity

namespace Datum

def numberText : Datum → List Char
  | integer n => writeInt n.toInt
  | real x => Numeric.realText x
  | _ => []

/-- The number that a whole text is: an integer if it has neither point nor exponent and fits. -/
def numberOf? (bytes : Bytes) : Option Datum :=
  let cs := Numeric.charsOf bytes
  match Numeric.readReal cs with
  | (x, .integer) =>
    let n := Numeric.readInt cs
    some (if Numeric.fits n then integer (Int64.ofInt n) else real x)
  | (x, .decimal) => some (real x)
  | _ => none

/-- A double that is an integer becomes one. -/
def preferInteger : Datum → Datum
  | real x => ((Numeric.wholeOf? x).map integer).getD (real x)
  | d => d

def preferReal : Datum → Datum
  | integer n => real (Numeric.realOfInt n.toInt)
  | d => d

def preferNumber : Datum → Datum
  | text bytes => (numberOf? bytes).getD (text bytes)
  | d => d

def preferText : Datum → Datum
  | d@(integer _) => ofChars d.numberText
  | d@(real _) => ofChars d.numberText
  | d => d

def store (a : Affinity) (d : Datum) : Datum :=
  match a with
  | .blob => d
  | .text => d.preferText
  | .numeric | .integer => d.preferNumber.preferInteger
  | .real => d.preferNumber.preferReal

def isText : Datum → Bool
  | text _ => true
  | _ => false

/-- Two values as a comparison under an affinity sees them. -/
def align (a : Affinity) (x y : Datum) : Datum × Datum :=
  if a.isNumeric then (x.preferNumber, y.preferNumber)
  else if a = .text ∧ (x.isText ∨ y.isText) then (x.preferText, y.preferText)
  else (x, y)

end Datum

/-- The affinity of a comparison. A number column decides; else the only side that has one. -/
def Affinity.ofComparison (a b : Option Affinity) : Affinity :=
  match a, b with
  | some x, some y => if x.isNumeric || y.isNumeric then .numeric else .blob
  | some x, none => x
  | none, some y => y
  | none, none => .blob

end QueryServer.Sql
