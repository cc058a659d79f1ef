import QueryServer.Connection.Stream
/-!
The writing side of a connection. Frames join a backlog in the order in which they are written; a
stream takes bytes from its front, and what a failed write leaves behind is sent by a later one.
-/

namespace QueryServer

inductive WriteFault where
  /-- The stream accepted no byte. -/
  | nothingAccepted
  | stream (message : String)
  deriving DecidableEq, Repr

def WriteFault.message : WriteFault → String
  | nothingAccepted => "failed to write frame to transport"
  | stream message => message

/-- The bytes that a stream has accepted, the number of writes that took, and the bytes that wait. -/
structure Writer where
  sent : Bytes := []
  writes : Nat := 0
  backlog : Bytes := []
  deriving DecidableEq, Repr

namespace Writer

/-- A backlog of this size is flushed before a further frame joins it. -/
def flushBoundary : Nat := 8192

def accept (w : Writer) (count : Nat) : Writer :=
  { sent := w.sent ++ w.backlog.take count, writes := w.writes + 1, backlog := w.backlog.drop count }

def flush (w : Writer) : List Acceptance → Except WriteFault Unit × Writer × List Acceptance
  | [] => (.ok (), if w.backlog.isEmpty then w else w.accept w.backlog.length, [])
  | acceptance :: rest =>
    if w.backlog.isEmpty then (.ok (), w, acceptance :: rest)
    else
      match acceptance with
      | .pending => w.flush rest
      | .failure message => (.error (.stream message), w, rest)
      | .upTo 0 => (.error .nothingAccepted, w.accept 0, rest)
      | .upTo (count + 1) => (w.accept (count + 1)).flush rest

def enqueue (w : Writer) (text : String) : Writer :=
  { w with backlog := w.backlog ++ Frame.encode text }

/-- Sends a frame to its last byte. A large backlog goes first; if that fails, the frame is not
taken over. -/
def write (w : Writer) (text : String) (script : List Acceptance) :
    Except WriteFault Unit × Writer × List Acceptance :=
  if flushBoundary ≤ w.backlog.length then
    match w.flush script with
    | (.ok _, w', rest) => (w'.enqueue text).flush rest
    | (.error e, w', rest) => (.error e, w', rest)
  else (w.enqueue text).flush script

end Writer
end QueryServer
