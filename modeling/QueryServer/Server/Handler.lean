import QueryServer.Command
import QueryServer.Connection
import QueryServer.Response
/-!
The handler of one client. It runs commands strictly one after another: a command is taken from
the stream only after the reply to the one before was sent to its last byte.
-/

namespace QueryServer

/-- What a command does to a shared state, and its answer. -/
abbrev Execution (σ : Type) := σ → Command → σ × Response

namespace Handler

inductive Closing where
  | ended
  | read (f : ReadFault)
  | write (f : WriteFault)
  deriving DecidableEq, Repr

inductive Phase where
  | reading
  | executing (c : Command)
  | replying (text : String)
  | closed (reason : Closing)
  deriving DecidableEq, Repr

end Handler

structure Handler where
  connection : Connection
  phase : Handler.Phase := .reading
  deriving DecidableEq, Repr

namespace Handler

def isClosed (h : Handler) : Bool :=
  match h.phase with
  | .closed _ => true
  | _ => false

def afterRead : Option Reader.Result → Phase
  | none => .reading
  | some (.ok (some text)) => .executing ⟨text⟩
  | some (.ok none) => .closed .ended
  | some (.error f) => .closed (.read f)

/-- One step of a handler over the state it shares with others; nothing if it is closed or waits
for its client. -/
def step? {σ : Type} (run : Execution σ) (s : σ) (h : Handler) : Option (σ × Handler) :=
  match h.phase with
  | .closed _ => none
  | .reading =>
    let (result, c) := h.connection.pollFrame
    if result.isNone && h.connection.arrivals.isEmpty then none
    else some (s, ⟨c, afterRead result⟩)
  | .executing c =>
    let (s', r) := run s c
    some (s', { h with phase := .replying r.render })
  | .replying text =>
    match h.connection.writeFrame text with
    | (.ok _, c) => some (s, ⟨c, .reading⟩)
    | (.error f, c) => some (s, ⟨c, .closed (.write f)⟩)

def steps {σ : Type} (run : Execution σ) : Nat → σ → Handler → σ × Handler
  | 0, s, h => (s, h)
  | n + 1, s, h =>
    match h.step? run s with
    | some (s', h') => steps run n s' h'
    | none => (s, h)

/-- How many bytes a client has sent that have not been decoded. -/
def waiting (h : Handler) : Nat :=
  h.connection.reader.buffer.length + (h.connection.arrivals.flatMap Arrival.bytes).length

/-- More steps than a handler can take before it waits: each command takes three and one byte. -/
def enough (h : Handler) : Nat :=
  3 * h.waiting + h.connection.arrivals.length + 6

def settle {σ : Type} (run : Execution σ) (s : σ) (h : Handler) : σ × Handler :=
  h.steps run h.enough s

/-- A handler for a client of which this is all that ever arrives. -/
def ofArrivals (limit : Nat) (arrivals : List Arrival) (acceptances : List Acceptance) : Handler where
  connection := { reader := .ofLimit limit, arrivals, acceptances }

end Handler
end QueryServer
