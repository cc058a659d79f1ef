import QueryServer.Store.Location
import QueryServer.Store.Relations
/-!
The store that all commands share: where it is kept and how long a command waits for it. No
connection to it outlives a command.
-/

namespace QueryServer

structure Store where
  /-- A path, or an address that begins with `file:`. -/
  name : String
  /-- In milliseconds. -/
  busyTimeout : Nat
  deriving DecidableEq, Repr

namespace Store

inductive Fault where
  | opening (f : OpenFault)
  | sql (f : Sql.Fault)
  deriving DecidableEq, Repr

def Fault.message : Fault → String
  | opening f => f.message
  | sql f => f.message

/-- The end of an operation; a crash is none of the reported failures. -/
inductive Outcome (α : Type) where
  | done (a : α)
  | failed (f : Fault)
  | crashed (reason : String)
  deriving Repr

structure Handle where
  place : Place
  readOnly : Bool
  immutable : Bool
  deriving DecidableEq, Repr

def Handle.file? (h : Handle) (d : Disk) : Option File :=
  match h.place with
  | .memory => none
  | .path p => d.file? p

def Handle.schema (h : Handle) (d : Disk) : Sql.Schema :=
  match h.file? d with
  | some f => f.content.schema
  | none => .ok {}

def Handle.rights (h : Handle) (d : Disk) : Sql.Rights where
  readOnly := h.readOnly
  locked := (h.file? d).any (·.locked)

/-- Stores tables in the file of a connection; what is in memory is lost with the connection. -/
def Handle.commit (h : Handle) (d : Disk) (schema : Sql.Schema) : Disk :=
  match h.place, schema with
  | .path p, .ok db =>
    match d.file? p with
    | some f =>
      match f.content with
      | .tables _ logged => d.put p { f with content := .tables db logged }
      | .foreign => d
    | none => d
  | _, _ => d

/-- The path that a store's name is if it is no address. -/
def plainPath (s : Store) : Path :=
  Location.pathOf s.name.toList

def exists? (s : Store) (d : Disk) : Bool :=
  let name := s.name.toList
  !name.isEmpty &&
    (Location.reach? d (Location.startOf name) (Location.namesOf name)).any (d.entry? · |>.isSome)

def Handle.ofLocation (l : Location) : Handle :=
  match l.place with
  | .memory => ⟨.memory, l.access == .read, false⟩
  | .path p => ⟨.path p, l.access == .read || l.immutable, l.immutable⟩

/-- Opens a location, and makes its file if that is wanted. -/
def openAt (name : String) (l : Location) (d : Disk) : Except OpenFault (Disk × Handle) :=
  match l.place with
  | .memory => .ok (d, .ofLocation l)
  | .path p =>
    match d.entry? p with
    | some (.file _) => .ok (d, .ofLocation l)
    | some .directory => .error (.cannotOpen name)
    | none =>
      if l.access = .create ∧ d.isDirectory p.dropLast then
        .ok (d.put p File.empty, .ofLocation l)
      else .error (.cannotOpen name)

def opened (s : Store) (wanted : Access) (d : Disk) : Except OpenFault (Disk × Handle) := do
  let l ← Location.ofName s.name wanted
  openAt s.name l d

/-- The longest time to wait that a connection can be given, in milliseconds. -/
def longestTimeout : Nat := (1 <<< 31) - 1

def setTimeout {α : Type} (s : Store) (go : Outcome α) : Outcome α :=
  if longestTimeout < s.busyTimeout then .crashed "too big" else go

/-- Opens a connection for a command, and leaves the disk with what that made. It asks for no
file to be made, but the store's name may ask for it. -/
def connect (s : Store) (d : Disk) : Disk × Outcome Handle :=
  match s.opened .write d with
  | .error f => (d, .failed (.opening f))
  | .ok (d', h) => (d', s.setTimeout (.done h))

/-- Gives a file a log, which needs the right to write unless it has one. An immutable file stays
as it is. -/
def keepLog (r : Sql.Rights) (immutable : Bool) : Content → Except Sql.Fault Content
  | .foreign => .error .notADatabase
  | .tables db true => .ok (.tables db true)
  | .tables db false =>
    if immutable then .ok (.tables db false)
    else do
      let db ← r.writable (.ok db)
      return .tables db true

/-- Makes the relations that are missing, which needs the right to write if there are any. -/
def makeRelations (r : Sql.Rights) : Content → Except Sql.Fault Content
  | .foreign => .error .notADatabase
  | .tables db logged =>
    if Relations.complete db then .ok (.tables db logged)
    else do
      let db ← r.writable (.ok db)
      return .tables (Relations.ensureAll db) logged

def Handle.prepare (h : Handle) (d : Disk) : Disk × Outcome Unit :=
  match h.place, h.file? d with
  | .path p, some f =>
    let r := h.rights d
    match keepLog r h.immutable f.content with
    | .error e => (d, .failed (.sql e))
    | .ok logged =>
      match makeRelations r logged with
      | .error e => (d.put p { f with content := logged }, .failed (.sql e))
      | .ok made => (d.put p { f with content := made }, .done ())
  | _, _ => (d, if h.readOnly then .failed (.sql .readOnly) else .done ())

/-- Makes the store if there is none, and the relations that are missing. -/
def bootstrap (s : Store) (d : Disk) : Disk × Outcome Unit :=
  match s.opened .create d with
  | .error f => (d, .failed (.opening f))
  | .ok (d, h) =>
    match s.setTimeout (.done ()) with
    | .done () => h.prepare d
    | other => (d, other)

/-- Another connection takes the right to write to a store, or gives it back. -/
def lock (s : Store) (d : Disk) (locked : Bool) : Disk :=
  match Location.ofName s.name .create with
  | .ok ⟨.path p, _, _⟩ => d.lock p locked
  | _ => d

end Store
end QueryServer
