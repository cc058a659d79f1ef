import QueryServer.Port
import QueryServer.Text.Quoted
/-!
What a server reports about itself.
-/

namespace QueryServer

inductive Notice where
  | invalidPort (argument : String) (port : Port)
  | initialized (database : String)
  | listening (host : String) (port : Port)
  | shuttingDown
  deriving DecidableEq, Repr

namespace Notice

def level : Notice → String
  | invalidPort .. => "WARN"
  | _ => "INFO"

/-- The address that a host name stands for. -/
def addressOf (host : String) : String :=
  if host = "localhost" then "127.0.0.1" else host

def text : Notice → String
  | invalidPort argument port => s!"Invalid port {Text.Quoted.encode argument}, using {port.toNat}"
  | initialized database => s!"Database initialized at {database}"
  | listening host port => s!"SQL server listening on {addressOf host}:{port.toNat}"
  | shuttingDown => "Shutting down, no longer accepting connections"

def line (n : Notice) : String :=
  n.level ++ " " ++ n.text

end Notice
end QueryServer
