/-!
Unsigned decimal numerals of bounded size: an optional plus sign and one or more ASCII digits.
-/

namespace QueryServer.Numeral

inductive Fault where
  | empty
  | invalidDigit
  | tooLarge
  deriving DecidableEq, Repr

def Fault.message : Fault → String
  | empty => "cannot parse integer from empty string"
  | invalidDigit => "invalid digit found in string"
  | tooLarge => "number too large to fit in target type"

/-- One more digit. The bound is watched at every digit, so no value above it is ever formed. -/
def push (bound n : Nat) (c : Char) : Except Fault Nat :=
  if !c.isDigit then .error .invalidDigit
  else
    let next := n * 10 + (c.toNat - '0'.toNat)
    if next ≤ bound then .ok next else .error .tooLarge

def read (bound : Nat) : List Char → Except Fault Nat
  | [] => .error .empty
  | ['+'] => .error .invalidDigit
  | '+' :: ds => ds.foldlM (push bound) 0
  | ds => ds.foldlM (push bound) 0

end QueryServer.Numeral
