/-!
Binary floating-point numbers of 64 bits, as bit patterns. Every finite magnitude is a whole number
of steps, so questions about them are questions about natural numbers.
-/

namespace QueryServer

structure Binary64 where
  bits : UInt64
  deriving DecidableEq, Repr, Inhabited

namespace Binary64

/-- One more than the largest bit pattern without its sign. -/
def signPlace : Nat := 1 <<< 63

/-- The pattern of infinity without its sign; larger patterns are not numbers. -/
def infinite : Nat := 0x7FF0000000000000

def isNegative (x : Binary64) : Bool :=
  signPlace ≤ x.bits.toNat

/-- The bits below the sign; they grow with the magnitude. -/
def magnitude (x : Binary64) : Nat :=
  x.bits.toNat % signPlace

def isFinite (x : Binary64) : Bool :=
  x.magnitude < infinite

def isInfinite (x : Binary64) : Bool :=
  x.magnitude == infinite

def isNaN (x : Binary64) : Bool :=
  infinite < x.magnitude

def isZero (x : Binary64) : Bool :=
  x.magnitude == 0

def ofMagnitude (negative : Bool) (m : Nat) : Binary64 :=
  ⟨UInt64.ofNat (if negative then signPlace + m else m)⟩

/-- The whole number that the fraction bits stand for, with the leading one of normal numbers. -/
def significand (m : Nat) : Nat :=
  if m < 1 <<< 52 then m else (1 <<< 52) + m % (1 <<< 52)

/-- The power of two, above the least one, that scales the significand. -/
def scale (m : Nat) : Nat :=
  (m >>> 52) - 1

/-- A finite magnitude counted in steps of the least positive one, 2 to the -1074. -/
def steps (m : Nat) : Nat :=
  significand m <<< scale m

/-- The pattern nearest to `num / den`; a tie goes to the even pattern, and what is too large
becomes infinite. -/
def nearest (num den : Nat) : Nat :=
  let steps := num <<< 1074
  let shift := (steps / den).log2 - 52
  let unit := den <<< shift
  let q := steps / unit
  let r := steps % unit
  let rounded := if unit < 2 * r || (2 * r == unit && q % 2 == 1) then q + 1 else q
  min infinite ((shift <<< 52) + rounded)

def ofDecimal (negative : Bool) (digits : Nat) (exponent : Int) : Binary64 :=
  ofMagnitude negative <|
    if exponent < 0 then nearest digits (Nat.pow 10 exponent.natAbs)
    else nearest (digits * Nat.pow 10 exponent.natAbs) 1

def toFloat (x : Binary64) : Float :=
  Float.ofBits x.bits

def ofFloat (x : Float) : Binary64 :=
  ⟨x.toBits⟩

end Binary64
end QueryServer
