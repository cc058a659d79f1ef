import QueryServer.Connection.Stream
/-!
The reading side of a connection. Frames that are already in the buffer come before any further
read of the stream; an end of the stream or an error is reported once, and the stream may go on
after it.
-/

namespace QueryServer

inductive ReadFault where
  | tooLarge (e : Frame.TooLarge)
  | stream (message : String)
  deriving DecidableEq, Repr

def ReadFault.message : ReadFault → String
  | tooLarge e => e.message
  | stream message => message

structure Reader where
  decoder : Frame.Decoder := {}
  buffer : Bytes := []
  /-- The last read of the stream found its end. -/
  ended : Bool := false
  readable : Bool := false
  /-- An error was reported; the end of the stream is reported after it. -/
  errored : Bool := false
  deriving DecidableEq, Repr

namespace Reader

abbrev Result := Except ReadFault (Option String)

def ofLimit (limit : Nat) : Reader :=
  { decoder := { limit := limit } }

def after (r : Reader) (decoder : Frame.Decoder) (buffer : Bytes) : Reader :=
  { r with decoder := decoder, buffer := buffer }

/-- The result that needs no read of the stream, if there is one. -/
def settle (r : Reader) : Option Result × Reader :=
  if r.errored then (some (.ok none), { r with errored := false, readable := false })
  else if r.readable then
    if r.ended then
      match r.decoder.decodeEnd r.buffer with
      | (.error e, d, b) => (some (.error (.tooLarge e)), { r.after d b with errored := true })
      | (.ok none, d, b) => (some (.ok none), { r.after d b with readable := false })
      | (.ok (some text), d, b) => (some (.ok (some text)), r.after d b)
    else
      match r.decoder.decode r.buffer with
      | (.error e, d, b) => (some (.error (.tooLarge e)), { r.after d b with errored := true })
      | (.ok none, d, b) => (none, { r.after d b with readable := false })
      | (.ok (some text), d, b) => (some (.ok (some text)), r.after d b)
  else (none, r)

def receive (r : Reader) (bytes : Bytes) : Reader :=
  { r with buffer := r.buffer ++ bytes, ended := false, readable := true }

def atEnd (r : Reader) : Reader :=
  { r with ended := true, readable := true }

/-- The next frame, with the arrivals that it left over; no result where all arrivals were taken
in and more are waited for. -/
def poll (r : Reader) : List Arrival → Option Result × Reader × List Arrival
  | [] => (r.settle.1, r.settle.2, [])
  | arrival :: rest =>
    match r.settle with
    | (some result, r') => (some result, r', arrival :: rest)
    | (none, r') =>
      match arrival with
      | .pending => r'.poll rest
      | .failure message => (some (.error (.stream message)), { r' with errored := true }, rest)
      | .chunk bytes => (r'.receive bytes).poll rest
      | .ending => if r'.ended then (some (.ok none), r', rest) else r'.atEnd.poll rest

def read (r : Reader) (arrivals : List Arrival) : Result × Reader × List Arrival :=
  match r.poll arrivals with
  | (some result, r', rest) => (result, r', rest)
  | (none, r', rest) =>
    if r'.ended then (.ok none, r', rest)
    else
      let (result, r'') := r'.atEnd.settle
      (result.getD (.ok none), r'', rest)

end Reader
end QueryServer
