import QueryServer.Connection.Reader
import QueryServer.Connection.Writer
/-!
A client connection: frames are read from one side of a stream and written to the other.
-/

namespace QueryServer

structure Connection where
  reader : Reader := {}
  arrivals : List Arrival := []
  writer : Writer := {}
  acceptances : List Acceptance := []
  deriving DecidableEq, Repr

namespace Connection

def readFrame (c : Connection) : Reader.Result × Connection :=
  let (result, reader, arrivals) := c.reader.read c.arrivals
  (result, { c with reader := reader, arrivals := arrivals })

/-- The next frame of what has arrived so far; no result while it is incomplete. -/
def pollFrame (c : Connection) : Option Reader.Result × Connection :=
  let (result, reader, arrivals) := c.reader.poll c.arrivals
  (result, { c with reader := reader, arrivals := arrivals })

def writeFrame (c : Connection) (text : String) : Except WriteFault Unit × Connection :=
  let (result, writer, acceptances) := c.writer.write text c.acceptances
  (result, { c with writer := writer, acceptances := acceptances })

end Connection
end QueryServer
