import QueryServer.Sql.Fault
import QueryServer.Sql.Operation
/-!
Functions of values, and functions of all rows.
-/

namespace QueryServer.Sql

def largestValue : Nat := 1000000000

inductive Scalar where
  | abs | char | hex | length | like | lower | max | min | typeof | upper | zeroblob
  deriving DecidableEq, Repr

inductive Aggregate where
  | count | max | min
  deriving DecidableEq, Repr

namespace Scalar

/-- The letters of ASCII in the other case. -/
def mapBytes (f : Char → Char) (bytes : Bytes) : Bytes :=
  bytes.map fun b => if b < 0x80 then UInt8.ofNat (f (Text.Literal.charOfByte b)).toNat else b

/-- The bytes of a code point; one that is a surrogate is written all the same. -/
def bytesOfPoint (n : Int) : Bytes :=
  let p := if n < 0 ∨ 0x10FFFF < n then 0xFFFD else n.toNat
  if 0xD800 ≤ p ∧ p ≤ 0xDFFF then
    [0xED, UInt8.ofNat (0x80 + p / 64 % 64), UInt8.ofNat (0x80 + p % 64)]
  else Text.Utf8.encode [Char.ofNat p]

def hexText (bytes : Bytes) : List Char :=
  bytes.flatMap fun b => (Text.Literal.hex 2 b.toNat).map Char.toUpper

/-- Whether a text fits a pattern: a percent sign stands for any characters and a low line for
one, unless the escape character stands before it. -/
def fits (escape : Option Char) : List Char → List Char → Bool
  | [], s => s.isEmpty
  | p :: ps, s =>
    if some p = escape then
      match ps, s with
      | q :: qs, c :: cs => q.toUpper == c.toUpper && fits escape qs cs
      | _, _ => false
    else if p = '%' then
      match s with
      | [] => fits escape ps []
      | c :: cs => fits escape ps (c :: cs) || fits escape (p :: ps) cs
    else
      match s with
      | [] => false
      | c :: cs => (p == '_' || p.toUpper == c.toUpper) && fits escape ps cs
termination_by p s => p.length + s.length

def charsOf (d : Datum) : List Char :=
  Text.Utf8.decode d.textBytes

def matchText (pattern s : Datum) (escape : Option Char) : Datum :=
  if pattern.isNull || s.isNull then .null
  else .ofBool (fits escape (charsOf pattern) (charsOf s))

/-- The first value that no other one exceeds in the given direction; null if one is null. -/
def extreme (direction : Ordering) : List Datum → Datum
  | [] => .null
  | d :: ds =>
    ds.foldl (fun best x =>
      if best.isNull || x.isNull then .null
      else if Datum.order x best == direction then x else best) d

def apply (f : Scalar) (args : List Datum) : Except Fault Datum :=
  match f, args with
  | abs, [.integer n] =>
    if n.toInt = Numeric.minInt then .error .integerOverflow
    else .ok (.integer (Int64.ofInt n.toInt.natAbs))
  | abs, [.null] => .ok .null
  | abs, [d] =>
    let x := d.asReal
    .ok (.ofReal (if x.isZero then x else .ofMagnitude false x.magnitude))
  | char, ds => .ok (.text (ds.flatMap fun d => bytesOfPoint d.asInt.toInt))
  | hex, [d] => .ok (.ofChars (hexText d.textBytes))
  | length, [.null] => .ok .null
  | length, [.text bytes] =>
    .ok (.integer (Int64.ofNat ((Text.Utf8.decode bytes).takeWhile (· != '\x00')).length))
  | length, [d] => .ok (.integer (Int64.ofNat d.textBytes.length))
  | like, [pattern, s] => .ok (matchText pattern s none)
  | like, [pattern, s, escape] =>
    match charsOf escape with
    | [c] => .ok (matchText pattern s (some c))
    | _ => if escape.isNull then .ok .null else .error .escapeLength
  | lower, [d] => .ok (if d.isNull then d else .text (mapBytes Char.toLower d.textBytes))
  | upper, [d] => .ok (if d.isNull then d else .text (mapBytes Char.toUpper d.textBytes))
  | max, ds => .ok (extreme .gt ds)
  | min, ds => .ok (extreme .lt ds)
  | typeof, [d] => .ok <| .ofString <| match d with
    | .null => "null"
    | .integer _ => "integer"
    | .real _ => "real"
    | .text _ => "text"
    | .blob _ => "blob"
  | zeroblob, [d] =>
    let n := d.asInt.toInt.toNat
    if largestValue < n then .error .tooBig else .ok (.blob (List.replicate n 0))
  | _, _ => .ok .null

end Scalar

/-- The values of which no earlier one is the same. -/
def distinctBy {α : Type} (same : α → α → Bool) : List α → List α :=
  fun xs => (xs.foldl (fun kept x => if kept.any (same x) then kept else x :: kept) []).reverse

namespace Aggregate

/-- The result over the values of all rows; nulls do not count. -/
def apply (f : Aggregate) (distinct : Bool) (ds : List Datum) : Datum :=
  let ds := ds.filter (!·.isNull)
  let ds := if distinct then distinctBy (fun a b => Datum.order a b == .eq) ds else ds
  match f with
  | count => .integer (Int64.ofNat ds.length)
  | max => Scalar.extreme .gt ds
  | min => Scalar.extreme .lt ds

end Aggregate

/-- What a function's name and the number of its arguments stand for. -/
inductive Callable where
  | scalar (f : Scalar)
  | aggregate (f : Aggregate)
  deriving DecidableEq, Repr

namespace Callable

/-- The function of this name for so many arguments; an error if the name is unknown or takes
another number of them. Functions of the time and of chance are left out. -/
def find (name : String) (args : Nat) : Except Fault Callable :=
  let given (possible : Bool) (c : Callable) : Except Fault Callable :=
    if possible then .ok c else .error (.wrongArguments name)
  match String.ofList (name.toList.map Char.toLower) with
  | "abs" => given (args = 1) (.scalar .abs)
  | "char" => .ok (.scalar .char)
  | "count" => given (args ≤ 1) (.aggregate .count)
  | "hex" => given (args = 1) (.scalar .hex)
  | "length" => given (args = 1) (.scalar .length)
  | "like" => given (args = 2 ∨ args = 3) (.scalar .like)
  | "lower" => given (args = 1) (.scalar .lower)
  | "max" => if args = 1 then .ok (.aggregate .max) else given (args ≠ 0) (.scalar .max)
  | "min" => if args = 1 then .ok (.aggregate .min) else given (args ≠ 0) (.scalar .min)
  | "typeof" => given (args = 1) (.scalar .typeof)
  | "upper" => given (args = 1) (.scalar .upper)
  | "zeroblob" => given (args = 1) (.scalar .zeroblob)
  | _ => .error (.noSuchFunction name)

end Callable
end QueryServer.Sql
