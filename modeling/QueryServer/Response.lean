import QueryServer.Value
/-!
The outcome of a command. Each command has exactly one, and its text is sent as one frame.
-/

namespace QueryServer

inductive Response where
  | success
  /-- A reading command was completed with these rows, in the order of the store. -/
  | rows (rs : List Row)
  | failure (message : String)
  deriving DecidableEq, Repr, Inhabited

namespace Response

def isSuccess : Response → Bool
  | failure _ => false
  | _ => true

/-- A status word; then a bar before each row, or the message after a colon. -/
def written : Response → List Char
  | success => "SUCCESS".toList
  | rows rs => "SUCCESS".toList ++ rs.flatMap fun r => '|' :: r.written
  | failure message => "ERROR: ".toList ++ message.toList

def render (r : Response) : String :=
  String.ofList r.written

end Response
end QueryServer
