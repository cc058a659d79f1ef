import QueryServer.Executor
import QueryServer.Server.Handler
/-!
The execution of a command over the library that keeps the store, step by step. What the library
does in a step is left to it: what texts mean, what the clock shows, what is drawn by chance.
-/

namespace QueryServer

@[ext]
structure World (Files Process : Type) where
  /-- What is stored, as every process sees it, with the rights that are held on it. -/
  files : Files
  /-- What the connections of one process share beside the files. -/
  process : Process

inductive Refusal where
  | failed (message : String)
  | crashed (reason : String)

/-- A library that keeps stores, with one of its stores. -/
structure Engine where
  Files : Type
  Process : Type
  Session : Type
  Statement : Type
  Script : Type
  /-- What the steps of a command take from elsewhere, such as the time, chance and faults. -/
  Outside : Type
  script : String → Script
  connect : Outside → World Files Process → World Files Process × Except Refusal Session
  next? : Outside → Script →
    EStateM String (Session × World Files Process) (Option (Statement × Script))
  run : Outside → Statement → EStateM String (Session × World Files Process) (List Sql.Tuple)
  /-- Whether no transaction is open. -/
  autocommit : Session → Bool
  commit : Outside → EStateM String (Session × World Files Process) Unit
  close : Session → World Files Process → World Files Process

namespace Engine

abbrev World (E : Engine) := QueryServer.World E.Files E.Process

/-- A step on a connection. One that fails leaves what it has done. -/
abbrev Action (E : Engine) (α : Type) := EStateM String (E.Session × E.World) α

/-- Runs the only statement of a command. All of them are prepared before, and the transaction that
a write leaves open is committed. -/
def attempt (E : Engine) (o : E.Outside) (c : Command) : E.Action Response := do
  match ← E.next? o (E.script c.text) with
  | none => return .success
  | some (statement, rest) =>
    match ← E.next? o rest with
    | some _ => throw Sql.Fault.severalStatements.message
    | none =>
      let rows ← E.run o statement
      match c.kind with
      | .read => return .rows (rows.map Row.ofTuple)
      | .write =>
        if E.autocommit (← get).1 then return .success
        else
          E.commit o
          return .success

/-- Executes a command on a connection of its own. A blank one needs none. -/
def execute (E : Engine) (o : E.Outside) (w : E.World) (c : Command) :
    E.World × Except String Response :=
  if c.isBlank then (w, .ok .success)
  else
    match E.connect o w with
    | (w, .error (.crashed reason)) => (w, .error reason)
    | (w, .error (.failed message)) => (w, .ok (.failure message))
    | (w, .ok x) =>
      match E.attempt o c (x, w) with
      | .ok r (x, w) => (E.close x w, .ok r)
      | .error message (x, w) => (E.close x w, .ok (.failure message))

def execution (E : Engine) (o : E.Outside) : Execution E.World := fun w c =>
  ((E.execute o w c).1, Executor.answer (E.execute o w c).2)

end Engine
end QueryServer
