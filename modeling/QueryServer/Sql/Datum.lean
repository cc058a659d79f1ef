import QueryServer.Value
import QueryServer.Frame
/-!
The values that tables hold, and their order: nulls first, then numbers by size, then texts by
their bytes, then blobs by theirs.
-/

namespace QueryServer.Sql

/-- A stored value. A text is kept as the bytes it was made from, which may be no valid UTF-8. -/
inductive Datum where
  | null
  | integer (n : Int64)
  | real (x : Binary64)
  | text (bytes : Bytes)
  | blob (bytes : Bytes)
  deriving DecidableEq, Repr, Inhabited

/-- A stored row without its number. -/
abbrev Tuple := List Datum

namespace Datum

def toValue : Datum → Value
  | null => .null
  | integer n => .integer n
  | real x => .real x
  | text bytes => .text (Frame.textOf bytes)
  | blob bytes => .blob bytes

def ofChars (cs : List Char) : Datum :=
  text (Text.Utf8.encode cs)

def ofString (s : String) : Datum :=
  ofChars s.toList

def ofBool (b : Bool) : Datum :=
  integer (if b then 1 else 0)

/-- A double; what is not a number is null. -/
def ofReal (x : Binary64) : Datum :=
  if x.isNaN then null else real x

def isNull (d : Datum) : Bool :=
  d == null

/-- A number as a whole multiple of 2^-1074. -/
def exactSteps : Datum → Int
  | integer n => n.toInt <<< (1074 : Nat)
  | real x =>
    let s : Int := Binary64.steps x.magnitude
    if x.isNegative then -s else s
  | _ => 0

def rank : Datum → Nat
  | null => 0
  | integer _ => 1
  | real _ => 1
  | text _ => 2
  | blob _ => 3

def compareBytes : Bytes → Bytes → Ordering
  | [], [] => .eq
  | [], _ => .lt
  | _, [] => .gt
  | a :: as, b :: bs => (compare a b).then (compareBytes as bs)

def order (a b : Datum) : Ordering :=
  match a, b with
  | text x, text y => compareBytes x y
  | blob x, blob y => compareBytes x y
  | integer x, integer y => compare x.toInt y.toInt
  | _, _ => (compare a.rank b.rank).then (compare a.exactSteps b.exactSteps)

end Datum
end QueryServer.Sql
