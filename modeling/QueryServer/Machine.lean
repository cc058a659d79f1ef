import QueryServer.Engine
import QueryServer.Executor.Session
/-!
A machine with a store: the disk, and the process that has connections to the store. Some settings
are the process's own. They are changed as soon as a statement is prepared that changes them.
-/

namespace QueryServer

/-- What all connections of a process share beside the files. -/
structure Process where
  /-- How many bytes of memory they may use together, if that is limited. -/
  memory : Option Nat := none
  deriving DecidableEq, Repr

namespace Process

/-- With less memory than this, not even a connection is opened. More than this is taken for
enough. -/
def leastMemory : Nat := 4096

def exhausted (p : Process) : Bool :=
  p.memory.any (· < leastMemory)

/-- A limit can only be lowered; zero is none. -/
def limit (p : Process) (bytes : Nat) : Process :=
  if bytes = 0 then p else { memory := some (p.memory.elim bytes (min bytes)) }

end Process

namespace Sql

def Statement.memory? : Statement → Option Nat
  | .pragma _ name (some value) =>
    if sameName name "hard_heap_limit" && value.toList.all Char.isDigit then
      some (Numeric.naturalOf value.toList)
    else none
  | .explain s => s.memory?
  | _ => none

/-- The limit of memory that preparing the next statement sets, if that succeeds. -/
def memoryAt? (schema : Schema) (ls : List Lexeme) : Option Nat :=
  match Parsed.next? ls, Prepared.next? schema ls with
  | .ok (some (p, _)), .ok (some _) => p.statement.memory?
  | _, _ => none

end Sql

abbrev Machine := World Disk Process

namespace Machine
open Executor

/-- The tables that a connection can read. Without memory it can read none. -/
def schema (m : Machine) (h : Store.Handle) : Sql.Schema :=
  if m.process.exhausted then .error .noMemory else h.schema m.files

def limited (m : Machine) (bytes? : Option Nat) : Machine :=
  { m with process := bytes?.elim m.process m.process.limit }

def ofStep {α : Type} (m : Machine) (w : Step α) : EStateM.Result String (Session × Machine) α :=
  match w.result with
  | .ok a => .ok a (w.session, { m with files := w.disk })
  | .error f => .error f.message (w.session, { m with files := w.disk })

end Machine

/-- A text with how much of it has been prepared. -/
structure Script where
  begun : Bool := false
  lexemes : List Sql.Lexeme

namespace Script
open Executor

def point (s : Script) : Point := if s.begun then .following else .preparing

/-- Prepares the next statement. What it sets is set, whatever follows it. -/
def next? (t : Trouble) (s : Script) (x : Session) (m : Machine) :
    EStateM.Result String (Session × Machine) (Option (Sql.Prepared × Script)) :=
  let schema := m.schema x.handle
  match t.at s.point, Sql.Prepared.next? schema s.lexemes with
  | .error f, _ => .error f.message (x, m)
  | .ok (), .error f => .error f.message (x, m)
  | .ok (), .ok none => .ok none (x, m)
  | .ok (), .ok (some (p, rest)) =>
    .ok (some (p, ⟨true, rest⟩)) (x, m.limited (Sql.memoryAt? schema s.lexemes))

end Script

namespace Store
open Executor

def connectOn (s : Store) (t : Trouble) (m : Machine) : Machine × Except Refusal Session :=
  if m.process.exhausted then (m, .error (.failed (OpenFault.noMemory s.name).message))
  else
    match t .opening with
    | some f => (m, .error (.failed f.message))
    | none =>
      match s.connect m.files with
      | (d, .crashed reason) => ({ m with files := d }, .error (.crashed reason))
      | (d, .failed f) => ({ m with files := d }, .error (.failed f.message))
      | (d, .done h) => ({ m with files := d }, .ok ⟨h, none⟩)

/-- The store on a machine, where only faults come from elsewhere. -/
abbrev engine (s : Store) : Engine where
  Files := Disk
  Process := Process
  Session := Session
  Statement := Sql.Prepared
  Script := Script
  Outside := Trouble
  script text := ⟨false, Sql.Lexeme.scan text.toList⟩
  connect := s.connectOn
  next? t script := fun (x, m) => script.next? t x m
  run t p := fun (x, m) => Machine.ofStep m (x.run t m.files p)
  autocommit x := x.transaction.isNone
  commit t := fun (x, m) => Machine.ofStep m (x.commit t m.files)
  close x m := { m with files := x.release m.files }

def bootstrapOn (s : Store) (m : Machine) : Machine × Outcome Unit :=
  if m.process.exhausted then (m, .failed (.opening (.noMemory s.name)))
  else
    let (d, outcome) := s.bootstrap m.files
    ({ m with files := d }, outcome)

end Store
end QueryServer
