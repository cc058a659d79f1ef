import QueryServer.Frame
import QueryServer.Port
/-!
What a server needs to know before it starts.
-/

namespace QueryServer

structure Configuration where
  host : String := "127.0.0.1"
  port : Port := Port.fallback
  database : String := "stomp_server.db"
  /-- How long a command waits for a locked store, in milliseconds. -/
  busyTimeout : Nat := 5000
  frameLimit : Nat := Frame.defaultLimit
  deriving DecidableEq, Repr

end QueryServer
