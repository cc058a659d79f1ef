import QueryServer.Number.Binary64
/-!
The shortest decimal that identifies a double: the coarsest power-of-ten grid with a point among
the reals that round to it, and on that grid the point nearest to the double.
-/

namespace QueryServer.Binary64

/-- A decimal: a whole number of digits times a power of ten. -/
structure Decimal where
  digits : Nat
  exponent : Int
  deriving DecidableEq, Repr

/-- The finest grid that is tried has points at multiples of 10 to the -324. -/
def finest : Nat := 324

/-- Decimals and doubles are compared as multiples of 10^-324 times 2^-1075: the double itself. -/
def exactly (m : Nat) : Nat :=
  2 * steps m * Nat.pow 10 finest

/-- The least real that may round to the magnitude: halfway to its lower neighbour. -/
def lowest (m : Nat) : Nat :=
  (steps (m - 1) + steps m) * Nat.pow 10 finest

/-- The greatest real that may round to the magnitude: halfway to its upper neighbour. -/
def highest (m : Nat) : Nat :=
  (steps m + steps (m + 1)) * Nat.pow 10 finest

/-- The point `d` of the grid whose spacing is 10 to the `n - 324`. -/
def gridPoint (n d : Nat) : Nat :=
  d * Nat.pow 10 n <<< 1075

/-- Whether a real rounds to the magnitude; the two ends do so if its last bit is even. -/
def roundsTo (m x : Nat) : Bool :=
  if m % 2 == 0 then lowest m ≤ x && x ≤ highest m else lowest m < x && x < highest m

/-- The point of a grid that rounds to the magnitude and is nearest to it; of two at the same
distance the greater one. -/
def onGrid? (m n : Nat) : Option Nat :=
  let v := exactly m
  let d := v / gridPoint n 1
  let below := roundsTo m (gridPoint n d)
  let above := roundsTo m (gridPoint n (d + 1))
  if above && (!below || gridPoint n (d + 1) - v ≤ v - gridPoint n d) then some (d + 1)
  else if below then some d
  else none

/-- The result on the coarsest grid at or below the `n`-th. -/
def shortestFrom (m : Nat) : Nat → Decimal
  | 0 => ⟨(onGrid? m 0).getD 0, -finest⟩
  | n + 1 =>
    match onGrid? m (n + 1) with
    | some d => ⟨d, (n + 1 : Int) - finest⟩
    | none => shortestFrom m n

def shortest (m : Nat) : Decimal :=
  shortestFrom m 633

end QueryServer.Binary64
