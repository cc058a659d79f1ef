import QueryServer.Configuration
import QueryServer.Executor
import QueryServer.Server.Notice
import QueryServer.Server.Service
/-!
The start of a server. The relations must exist before the port is taken, and the port before any
connection is accepted.
-/

namespace QueryServer

inductive StartFault where
  | store (f : Store.Fault)
  | addressInUse
  deriving DecidableEq, Repr

namespace StartFault

def message : StartFault → String
  | store f => f.message
  | addressInUse => "Address already in use (os error 98)"

/-- The name and the number of the kind of a store's fault. -/
def codeOf : Store.Fault → String × Nat
  | .opening (.cannotOpen _) => ("CannotOpen", 14)
  | .opening (.accessRefused _) => ("PermissionDenied", 3)
  | .opening (.noMemory _) => ("OutOfMemory", 7)
  | .opening _ => ("Unknown", 1)
  | .sql .locked => ("DatabaseBusy", 5)
  | .sql .readOnly => ("ReadOnly", 8)
  | .sql .notADatabase => ("NotADatabase", 26)
  | .sql _ => ("Unknown", 1)

/-- The fault with all its parts, as a program ends with it. -/
def details : StartFault → String
  | store f =>
    let (name, number) := codeOf f
    s!"SqliteFailure(Error \x7b code: {name}, extended_code: {number} \x7d, " ++
      s!"Some({Text.Quoted.encode f.message}))"
  | addressInUse => "Os \x7b code: 98, kind: AddrInUse, message: \"Address already in use\" \x7d"

end StartFault

inductive StartResult where
  | serving (s : Service Disk)
  | failed (f : StartFault)
  | crashed (reason : String)

structure Start where
  notices : List Notice
  disk : Disk
  result : StartResult

def Configuration.store (c : Configuration) : Store :=
  ⟨c.database, c.busyTimeout⟩

def Store.execution (s : Store) : Execution Disk := fun d c =>
  ((Executor.execute s d c).1, Executor.answer (Executor.execute s d c).2)

def Start.of (c : Configuration) (d : Disk) (occupied : Port → Bool) : Start :=
  match c.store.bootstrap d with
  | (d', .failed f) => ⟨[], d', .failed (.store f)⟩
  | (d', .crashed reason) => ⟨[], d', .crashed reason⟩
  | (d', .done ()) =>
    let initialized := Notice.initialized c.database
    if occupied c.port then ⟨[initialized], d', .failed .addressInUse⟩
    else
      ⟨[initialized, .listening c.host c.port], d',
        .serving { state := d', frameLimit := c.frameLimit }⟩

end QueryServer
