import QueryServer.Frame
import QueryServer.Sql.Keyword
/-!
Tokens of the query language.
-/

namespace QueryServer.Sql

inductive Symbol where
  | open | close | comma | dot | semicolon
  | plus | minus | star | slash | percent
  | equal | unequal | less | lessEqual | greater | greaterEqual
  | shiftLeft | shiftRight | bitAnd | bitOr | bitNot | concat
  deriving DecidableEq, Repr

/-- A name as it is compared: ASCII letters are equal in both cases. -/
def folded (name : String) : List Char :=
  name.toList.map Char.toLower

def sameName (a b : String) : Bool :=
  folded a == folded b

inductive Quoting where
  | bare
  /-- Between double quotes: such a name is a text where it names nothing. -/
  | double
  | other
  deriving DecidableEq, Repr

inductive Token where
  | name (text : String) (quoting : Quoting)
  | keyword (k : Keyword)
  | symbol (s : Symbol)
  | string (text : String)
  | blob (bytes : Bytes)
  | integer (digits : List Char)
  /-- Hexadecimal digits after `0x`. -/
  | hexadecimal (digits : List Char)
  | decimal (text : List Char)
  /-- A place for a value: a question mark with or without a number, or a name with its sign. -/
  | parameter (text : List Char)
  | illegal
  deriving DecidableEq, Repr

/-- A token with the characters that it was written with and those that follow. -/
structure Lexeme where
  token : Token
  text : List Char
  rest : List Char
  deriving DecidableEq, Repr

namespace Lexeme

/-- The source from the first character of one lexeme up to, not including, another one. -/
def textUntil (a b : Lexeme) : List Char :=
  let source := a.text ++ a.rest
  source.take (source.length - (b.text.length + b.rest.length))

def textThrough (a b : Lexeme) : List Char :=
  a.textUntil b ++ b.text

end Lexeme
end QueryServer.Sql
