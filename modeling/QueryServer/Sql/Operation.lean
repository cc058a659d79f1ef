import QueryServer.Sql.Conversion
import QueryServer.Sql.Expr
/-!
What operators do with values. Null makes nearly every result null.
-/

namespace QueryServer.Sql

namespace Arithmetic

/-- Arithmetic of doubles; nothing may be divided by zero. -/
def reals (op : Arithmetic) (a b : Binary64) : Datum :=
  let x := a.toFloat
  let y := b.toFloat
  match op with
  | add => .ofReal (.ofFloat (x + y))
  | subtract => .ofReal (.ofFloat (x - y))
  | multiply => .ofReal (.ofFloat (x * y))
  | divide => if b.isZero then .null else .ofReal (.ofFloat (x / y))
  | remainder => .null

/-- The remainder has the sign of the dividend. -/
def remainderOf (a b : Int64) : Option Int :=
  if b = 0 then none else some (a.toInt.tmod b.toInt)

/-- Arithmetic of integers; what leaves their bounds is computed with doubles. -/
def integers (op : Arithmetic) (a b : Int64) : Datum :=
  let within (n : Int) : Datum :=
    if Numeric.fits n then .integer (Int64.ofInt n)
    else reals op (Numeric.realOfInt a.toInt) (Numeric.realOfInt b.toInt)
  match op with
  | add => within (a.toInt + b.toInt)
  | subtract => within (a.toInt - b.toInt)
  | multiply => within (a.toInt * b.toInt)
  | divide => if b = 0 then .null else within (a.toInt.tdiv b.toInt)
  | remainder => match remainderOf a b with
    | some n => .integer (Int64.ofInt n)
    | none => .null

def apply (op : Arithmetic) (a b : Datum) : Datum :=
  match a.asNumber, b.asNumber with
  | .null, _ => .null
  | _, .null => .null
  | .integer x, .integer y => op.integers x y
  | x, y =>
    if op = remainder then
      match remainderOf x.asInt y.asInt with
      | some n => .real (Numeric.realOfInt n)
      | none => .null
    else op.reals x.asReal y.asReal

end Arithmetic

namespace BitOp

/-- A shift of the two's complement by any number of places; negative ones go the other way. -/
def shiftedLeft (a : Int64) (places : Int) : Int64 :=
  if 64 ≤ places then 0
  else if 0 ≤ places then Int64.ofInt (a.toInt <<< places.toNat)
  else if places ≤ -64 then (if a < 0 then -1 else 0)
  else Int64.ofInt (a.toInt >>> places.natAbs)

def apply (op : BitOp) (a b : Datum) : Datum :=
  if a.isNull || b.isNull then .null
  else
    let x := a.asInt
    let y := b.asInt
    .integer <| match op with
      | and => x &&& y
      | or => x ||| y
      | shiftLeft => shiftedLeft x y.toInt
      | shiftRight => shiftedLeft x (-y.toInt)

end BitOp

def Comparison.holds (op : Comparison) (o : Ordering) : Bool :=
  match op with
  | equal => o == .eq
  | unequal => o != .eq
  | less => o == .lt
  | lessEqual => o != .gt
  | greater => o == .gt
  | greaterEqual => o != .lt

namespace Datum

def ofTruth? : Option Bool → Datum
  | some b => ofBool b
  | none => null

/-- A comparison, which is unknown where a side is null. -/
def compare (op : Comparison) (a : Affinity) (x y : Datum) : Datum :=
  if x.isNull || y.isNull then null
  else
    let (x, y) := align a x y
    ofBool (op.holds (order x y))

def same (a : Affinity) (x y : Datum) : Bool :=
  if x.isNull || y.isNull then x.isNull && y.isNull
  else
    let (x, y) := align a x y
    order x y == .eq

def concat (x y : Datum) : Datum :=
  if x.isNull || y.isNull then null else text (x.textBytes ++ y.textBytes)

def complement (x : Datum) : Datum :=
  if x.isNull then null else integer (~~~ x.asInt)

def inverted (x : Datum) : Datum :=
  ofTruth? (x.truth?.map (!·))

/-- Both are true; false if one is false, whatever the other. -/
def both (x y : Datum) : Datum :=
  ofTruth? <| match x.truth?, y.truth? with
    | some false, _ => some false
    | _, some false => some false
    | some true, some true => some true
    | _, _ => none

/-- One is true; unknown only where no side settles it. -/
def either (x y : Datum) : Datum :=
  ofTruth? <| match x.truth?, y.truth? with
    | some true, _ => some true
    | _, some true => some true
    | some false, some false => some false
    | _, _ => none

end Datum
end QueryServer.Sql
