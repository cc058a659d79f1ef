import QueryServer.Sql.Plan
/-!
The files of a machine, as far as stores are kept in them.
-/

namespace QueryServer

/-- The names of directories from the working directory on, and of a file in the last one. -/
abbrev Path := List String

inductive Content where
  /-- The tables of a store; with a log, writers do not keep readers waiting. An empty file is a
  store without tables. -/
  | tables (db : Sql.Database) (logged : Bool)
  | foreign
  deriving Repr

structure File where
  content : Content
  /-- A connection that is none of the server's holds the right to write. -/
  locked : Bool := false
  deriving Repr

inductive Entry where
  | directory
  | file (f : File)
  deriving Repr

structure Disk where
  entries : List (Path × Entry) := []
  deriving Repr

def Content.schema : Content → Sql.Schema
  | tables db _ => .ok db
  | foreign => .error .notADatabase

def File.empty : File where
  content := .tables {} false

namespace Disk

/-- What is at a path; the working directory and the root are always there. -/
def entry? (d : Disk) (p : Path) : Option Entry :=
  if p.isEmpty || p == ["/"] then some .directory else d.entries.lookup p

def file? (d : Disk) (p : Path) : Option File :=
  match d.entry? p with
  | some (.file f) => some f
  | _ => none

def isDirectory (d : Disk) (p : Path) : Bool :=
  match d.entry? p with
  | some .directory => true
  | _ => false

/-- Puts an entry in the place of the one at its path, or behind all others. -/
def replace (p : Path) (e : Entry) : List (Path × Entry) → List (Path × Entry)
  | [] => [(p, e)]
  | (q, x) :: rest => if p = q then (p, e) :: rest else (q, x) :: replace p e rest

def put (d : Disk) (p : Path) (f : File) : Disk :=
  { d with entries := replace p (.file f) d.entries }

def makeDirectory (d : Disk) (p : Path) : Disk :=
  let missing := ((List.range p.length).map fun i => p.take (i + 1)).filter (d.entry? · |>.isNone)
  { d with entries := missing.map (·, .directory) ++ d.entries }

/-- Removes a file; directories stay. -/
def remove (d : Disk) (p : Path) : Disk :=
  match d.file? p with
  | some _ => { d with entries := d.entries.filter (·.1 != p) }
  | none => d

/-- Gives another connection the right to write, or takes it back. The connection makes the file
if there is none. -/
def lock (d : Disk) (p : Path) (locked : Bool) : Disk :=
  match d.file? p with
  | some f => d.put p { f with locked }
  | none =>
    if locked && (d.entry? p).isNone && d.isDirectory p.dropLast then
      d.put p { File.empty with locked }
    else d

def write (d : Disk) (p : Path) (bytes : Bytes) : Disk :=
  if d.isDirectory p || !d.isDirectory p.dropLast then d
  else d.put p { File.empty with content := if bytes.isEmpty then .tables {} false else .foreign }

end Disk
end QueryServer
