import QueryServer.Sql.Affinity
import QueryServer.Sql.Token
/-!
Expressions as they are written.
-/

namespace QueryServer.Sql

inductive UnaryOp where
  | negate
  | plus
  | bitNot
  | not
  deriving DecidableEq, Repr

inductive Comparison where
  | equal | unequal | less | lessEqual | greater | greaterEqual
  deriving DecidableEq, Repr

inductive Arithmetic where
  | add | subtract | multiply | divide | remainder
  deriving DecidableEq, Repr

inductive BitOp where
  | and | or | shiftLeft | shiftRight
  deriving DecidableEq, Repr

inductive BinaryOp where
  | or
  | and
  /-- Equality that holds between nulls too. -/
  | is
  | isNot
  | compare (c : Comparison)
  | bits (b : BitOp)
  | arithmetic (a : Arithmetic)
  | concat
  deriving DecidableEq, Repr

inductive Expr where
  | literal (d : Datum)
  /-- A decimal integer of any size. -/
  | integer (digits : List Char)
  /-- A hexadecimal integer of any size, with the text it was written as. -/
  | hexadecimal (digits text : List Char)
  | name (text : String) (quoting : Quoting)
  | qualified (schema : Option String) (table column : String)
  | parameter (text : List Char)
  | unary (op : UnaryOp) (e : Expr)
  | binary (op : BinaryOp) (a b : Expr)
  | isNull (e : Expr)
  | choose (condition yes no : Expr)
  | cast (e : Expr) (type : String)
  | call (function : String) (distinct : Bool) (args : List Expr)
  /-- A function of whole rows, written with a star. -/
  | callStar (function : String)
  | tuple (items : List Expr)
  deriving Repr, Inhabited

namespace Expr

def negated (yes : Bool) (e : Expr) : Expr :=
  if yes then unary .not e else e

def between (e low high : Expr) : Expr :=
  binary .and (binary (.compare .greaterEqual) e low) (binary (.compare .lessEqual) e high)

def among (e : Expr) : List Expr → Expr
  | [] => literal (.ofBool false)
  | [x] => binary (.compare .equal) e x
  | x :: xs => binary .or (binary (.compare .equal) e x) (among e xs)

end Expr
end QueryServer.Sql
