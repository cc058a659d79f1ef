import QueryServer.Number.Written
import QueryServer.Text.Literal
/-!
Column values and rows, and the text in which a client receives them.
-/

namespace QueryServer

inductive Value where
  | null
  | integer (n : Int64)
  | real (x : Binary64)
  | text (s : String)
  | blob (bytes : List UInt8)
  deriving DecidableEq, Repr, Inhabited

def Value.written : Value → List Char
  | null => "None".toList
  | integer n => writeInt n.toInt
  | real x => x.write .wire
  | text s => Text.Literal.text s.toList
  | blob bytes => Text.Literal.bytes bytes

abbrev Row := List Value

/-- A tuple: a comma and a space between the values, and a comma after a lone one. -/
def Row.written (r : Row) : List Char :=
  '(' :: List.intercalate [',', ' '] (r.map Value.written) ++
    (if r.length = 1 then [','] else []) ++ [')']

end QueryServer
