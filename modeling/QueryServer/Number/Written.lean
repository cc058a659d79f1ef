import QueryServer.Number.Shortest
/-!
The text of a number: decimal digits for integers, and for doubles the shortest decimal in
positional or in exponent form.
-/

namespace QueryServer

def digitsOf (n : Nat) : List Char :=
  Nat.toDigits 10 n

def writeInt (n : Int) : List Char :=
  if n < 0 then '-' :: digitsOf n.natAbs else digitsOf n.natAbs

namespace Binary64

structure Layout where
  /-- Magnitudes from this power of ten on are positional. -/
  positionalFrom : Int
  positionalBelow : Int
  exponentWidth : Nat
  infinity : String
  notANumber : String

/-- Digits are positional from 10^-4 up to, not including, 10^16; an exponent has a sign and at
least two digits. -/
def Layout.wire : Layout :=
  ⟨-4, 16, 2, "inf", "nan"⟩

/-- Ten to the power `e`, in the scale of `exactly`. -/
def powerOfTen (e : Int) : Nat :=
  gridPoint (e + finest).toNat 1

/-- A point among the digits, and at least one digit on each side of it. -/
def positional (x : Decimal) : List Char :=
  let ds := digitsOf x.digits
  if 0 ≤ x.exponent then ds ++ List.replicate x.exponent.toNat '0' ++ ['.', '0']
  else
    let places := x.exponent.natAbs
    if places < ds.length then ds.take (ds.length - places) ++ '.' :: ds.drop (ds.length - places)
    else '0' :: '.' :: List.replicate (places - ds.length) '0' ++ ds

/-- One digit, a point before the others if there are any, and the power of ten. -/
def scientific (width : Nat) (x : Decimal) : List Char :=
  let ds := digitsOf x.digits
  let e := x.exponent + (ds.length - 1 : Nat)
  let es := digitsOf e.natAbs
  ds.take 1 ++ (if ds.length ≤ 1 then [] else '.' :: ds.drop 1) ++ 'e' :: (if e < 0 then '-' else '+') ::
    List.replicate (width - es.length) '0' ++ es

def writeMagnitude (l : Layout) (m : Nat) : List Char :=
  if m == 0 then ['0', '.', '0']
  else if m == infinite then l.infinity.toList
  else if powerOfTen l.positionalFrom ≤ exactly m && exactly m < powerOfTen l.positionalBelow then
    positional (shortest m)
  else scientific l.exponentWidth (shortest m)

/-- The text of a double; what is not a number has no sign. -/
def write (l : Layout) (x : Binary64) : List Char :=
  if x.isNaN then l.notANumber.toList
  else if x.isNegative then '-' :: writeMagnitude l x.magnitude
  else writeMagnitude l x.magnitude

end Binary64
end QueryServer
