import QueryServer.Server.Handler
/-!
A service: one handler for each connection, and a state that the commands of all of them share.
Events come in any order; commands run one at a time.
-/

namespace QueryServer

abbrev ConnectionId := Nat

structure Service (σ : Type) where
  state : σ
  frameLimit : Nat := Frame.defaultLimit
  /-- How accepting connections has ended, if it has: with a shutdown, or with an error. -/
  outcome : Option (Except String Unit) := none
  handlers : List (ConnectionId × Handler) := []

namespace Service

inductive Event where
  /-- A client connects; its stream will do this with what is written to it. -/
  | connect (id : ConnectionId) (acceptances : List Acceptance)
  | arrive (id : ConnectionId) (a : Arrival)
  | proceed (id : ConnectionId)
  | shutdown
  | acceptFault (message : String)
  deriving DecidableEq, Repr

variable {σ : Type}

def accepting (s : Service σ) : Bool := s.outcome.isNone

def handler? (s : Service σ) (id : ConnectionId) : Option Handler :=
  s.handlers.lookup id

def put (s : Service σ) (id : ConnectionId) (h : Handler) : Service σ :=
  { s with handlers := s.handlers.map fun (i, x) => if i = id then (i, h) else (i, x) }

/-- Accepts a connection, unless accepting has ended. -/
def connect (s : Service σ) (id : ConnectionId) (acceptances : List Acceptance) : Service σ :=
  if s.accepting && (s.handler? id).isNone then
    { s with handlers := s.handlers ++ [(id, .ofArrivals s.frameLimit [] acceptances)] }
  else s

/-- Ends accepting, and nothing else; it ends only once. -/
def finish (s : Service σ) (outcome : Except String Unit) : Service σ :=
  if s.accepting then { s with outcome := some outcome } else s

/-- Hands an arrival to a handler, which reads it when it comes to that. -/
def arrive (s : Service σ) (id : ConnectionId) (a : Arrival) : Service σ :=
  match s.handler? id with
  | some h =>
    let c := h.connection
    s.put id { h with connection := { c with arrivals := c.arrivals ++ [a] } }
  | none => s

def proceed (run : Execution σ) (s : Service σ) (id : ConnectionId) : Service σ :=
  match s.handler? id with
  | none => s
  | some h =>
    match h.step? run s.state with
    | none => s
    | some (state, h') => { s.put id h' with state }

def step (run : Execution σ) (s : Service σ) : Event → Service σ
  | .connect id acceptances => s.connect id acceptances
  | .arrive id a => s.arrive id a
  | .proceed id => s.proceed run id
  | .shutdown => s.finish (.ok ())
  | .acceptFault message => s.finish (.error message)

def run (execution : Execution σ) (s : Service σ) (es : List Event) : Service σ :=
  es.foldl (step execution) s

def settle (execution : Execution σ) (s : Service σ) (id : ConnectionId) : Service σ :=
  match s.handler? id with
  | none => s
  | some h =>
    let (state, h') := h.settle execution s.state
    { s.put id h' with state }

def sent (s : Service σ) (id : ConnectionId) : Bytes :=
  ((s.handler? id).map (·.connection.writer.sent)).getD []

end Service
end QueryServer
