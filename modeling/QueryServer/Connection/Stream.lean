import QueryServer.Frame
/-!
The two sides of a byte stream as a connection meets them: what successive reads give and what
successive writes do. After what is listed, reads find the end and writes accept everything.
-/

namespace QueryServer

inductive Arrival where
  | chunk (bytes : Bytes)
  | ending
  /-- Nothing yet: the read is tried again. -/
  | pending
  | failure (message : String)
  deriving DecidableEq, Repr

def Arrival.bytes : Arrival → Bytes
  | chunk bytes => bytes
  | _ => []

inductive Acceptance where
  | upTo (count : Nat)
  | pending
  | failure (message : String)
  deriving DecidableEq, Repr

end QueryServer
