import QueryServer.Text.Blank
import QueryServer.Text.Utf8
/-!
Commands: the text of one inbound frame, handed to the store as it is.
-/

namespace QueryServer

/-- Whether a command is answered with rows; how it is run does not depend on it. -/
inductive Command.Kind where
  | read
  | write
  deriving DecidableEq, Repr

structure Command where
  text : String
  deriving DecidableEq, Repr, Inhabited

namespace Command

def isBlank (c : Command) : Bool :=
  c.text.toList.all Text.isBlank

/-- A read begins, after blanks, with six bytes that are the letters of SELECT in either case. -/
def kind (c : Command) : Kind :=
  match Text.Utf8.front? 6 (Text.trimStart c.text.toList) with
  | some start => if start.map Char.toUpper = "SELECT".toList then .read else .write
  | none => .write

end Command
end QueryServer
