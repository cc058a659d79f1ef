import QueryServer.Command
import QueryServer.Response
import QueryServer.Sql.Script
import QueryServer.Store
import QueryServer.Text.Quoted
/-!
The execution of commands. Each command has a connection of its own, is run as it is, and leaves
no transaction open.
-/

namespace QueryServer

def Row.ofTuple (t : Sql.Tuple) : Row :=
  t.map Sql.Datum.toValue

namespace Executor
open Store

/-- What a statement has done: the committed tables and the answer. A read is answered with its
rows; the transaction that a write leaves open is committed. -/
def conclude (kind : Command.Kind) (e : Sql.Effect) : Sql.Schema × Response :=
  match e.result with
  | .error f => (e.committed, .failure f.message)
  | .ok rows =>
    match kind with
    | .read => (e.committed, .rows (rows.map Row.ofTuple))
    | .write => (e.pending.getD e.committed, .success)

def runText (r : Sql.Rights) (schema : Sql.Schema) (c : Command) : Sql.Schema × Response :=
  match Sql.Prepared.only? schema c.text with
  | .error f => (schema, .failure f.message)
  | .ok none => (schema, .success)
  | .ok (some p) => conclude c.kind (p.run r schema)

/-- Executes a command. A blank one does not even open the store. -/
def execute (s : Store) (d : Disk) (c : Command) : Disk × Except String Response :=
  if c.isBlank then (d, .ok .success)
  else
    match s.connect d with
    | (d, .crashed reason) => (d, .error reason)
    | (d, .failed f) => (d, .ok (.failure f.message))
    | (d, .done h) =>
      let (schema, response) := runText (h.rights d) (h.schema d) c
      (h.commit d schema, .ok response)

/-- The answer to a command; one that crashes is answered with a failure. The number of the task
that crashed is left out of its text. -/
def answer : Except String Response → Response
  | .ok r => r
  | .error reason => .failure s!"task panicked with message {Text.Quoted.encode reason}"

end Executor
end QueryServer
