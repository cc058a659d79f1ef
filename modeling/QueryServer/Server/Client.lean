import QueryServer.Server.Service
/-!
Clients of a service: what they do, and what they receive. A service answers each of them before
another one does anything.
-/

namespace QueryServer

inductive ClientStep where
  | connect (client : String)
  /-- Sends bytes, which arrive together. -/
  | send (client : String) (bytes : Bytes)
  | finish (client : String)
  | receive (client : String)
  | shutdown
  deriving DecidableEq, Repr

inductive Received where
  | frame (text : String)
  /-- The connection is closed, with bytes that are no whole frame. -/
  | closed (partialFrame : Bytes)
  | nothing
  deriving DecidableEq, Repr

inductive ClientFault where
  | cannotConnect
  | notConnected
  deriving DecidableEq, Repr

def ClientFault.message : ClientFault → String
  | cannotConnect => "cannot connect"
  | notConnected => "not connected"

/-- A client's connection, and how many of the bytes that it was sent it has read. -/
structure Client where
  id : ConnectionId
  bytesRead : Nat := 0
  deriving DecidableEq, Repr

structure Exchange (σ : Type) where
  service : Service σ
  /-- Whether clients can reach the service at all. -/
  reachable : Bool := true
  clients : List (String × Client) := []
  connections : Nat := 0

namespace Exchange

variable {σ : Type}

def put (x : Exchange σ) (name : String) (c : Client) : Exchange σ :=
  { x with clients := (name, c) :: x.clients.filter (·.1 != name) }

def client (x : Exchange σ) (name : String) : Except ClientFault Client :=
  match x.clients.lookup name with
  | some c => .ok c
  | none => .error .notConnected

/-- Something arrives from a client, and its handler goes on as far as it can. -/
def deliver (run : Execution σ) (x : Exchange σ) (c : Client) (a : Arrival) : Exchange σ :=
  { x with service := (x.service.arrive c.id a).settle run c.id }

def receive (x : Exchange σ) (name : String) (c : Client) : Received × Exchange σ :=
  let unread := (x.service.sent c.id).drop c.bytesRead
  match Frame.cut? unread with
  | some (bytes, _) =>
    (.frame (Frame.textOf bytes), x.put name { c with bytesRead := c.bytesRead + bytes.length + 1 })
  | none =>
    if (x.service.handler? c.id).all Handler.isClosed then (.closed unread, x) else (.nothing, x)

def step (run : Execution σ) (x : Exchange σ) :
    ClientStep → Except ClientFault (Option Received × Exchange σ)
  | .connect name =>
    if x.reachable && x.service.accepting then
      let id := x.connections
      let opened := { x with service := x.service.connect id [], connections := id + 1 }
      .ok (none, opened.put name ⟨id, 0⟩)
    else .error .cannotConnect
  | .send name bytes => do
    let c ← x.client name
    if bytes.isEmpty then return (none, x) else return (none, x.deliver run c (.chunk bytes))
  | .finish name => do
    return (none, x.deliver run (← x.client name) .ending)
  | .receive name => do
    let (received, x') := x.receive name (← x.client name)
    return (some received, x')
  | .shutdown => .ok (none, { x with service := x.service.step run .shutdown })

end Exchange
end QueryServer
