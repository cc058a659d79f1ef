import QueryServer.Executor
/-!
A connection in use. Each of its steps can also fail for reasons that are not in the command's
text, such as a disk that is full. A transaction is open until it is committed or its connection is
dropped.
-/

namespace QueryServer
namespace Store

/-- Takes the right to write to the file of a connection, or gives it back. -/
def Handle.hold (h : Handle) (d : Disk) (held : Bool) : Disk :=
  match h.place, h.file? d with
  | .path p, some f => d.put p { f with locked := held }
  | _, _ => d

end Store

namespace Executor
open Store

inductive Point where
  | opening
  | preparing
  | following
  /-- A running statement goes on after so many rows. -/
  | stepping (rows : Nat)
  | committing

/-- What fails at each step, beside what the command's text is refused for. -/
abbrev Trouble := Point → Option Sql.Fault

def calm : Trouble := fun _ => none

def Trouble.at (t : Trouble) (p : Point) : Except Sql.Fault Unit :=
  match t p with
  | some f => .error f
  | none => .ok ()

structure Transaction where
  /-- The tables that it would commit. -/
  pending : Sql.Schema
  writing : Bool

structure Session where
  handle : Handle
  transaction : Option Transaction := none

structure Step (α : Type) where
  disk : Disk
  session : Session
  result : Except Sql.Fault α

/-- Takes the rows of a statement. The last step finds that there are no more. -/
def drain (t : Trouble) (taken : Nat) : List Sql.Tuple → Except Sql.Fault (List Sql.Tuple)
  | [] => do
    t.at (.stepping taken)
    return []
  | row :: rows => do
    t.at (.stepping taken)
    return row :: (← drain t (taken + 1) rows)

namespace Session

/-- Runs a statement to its end where no transaction is open. One that is interrupted is undone. -/
def run (t : Trouble) (x : Session) (d : Disk) (p : Sql.Prepared) : Step (List Sql.Tuple) :=
  let h := x.handle
  let e := p.run (h.rights d) (h.schema d)
  match e.result with
  | .error f => ⟨h.commit d e.committed, x, .error f⟩
  | .ok rows =>
    match drain t 0 rows with
    | .error f => ⟨d, x, .error f⟩
    | .ok rows =>
      let d := h.commit d e.committed
      match e.pending with
      | none => ⟨d, x, .ok rows⟩
      | some pending =>
        let writing := p.plan.writesAtOnce && !h.readOnly
        ⟨if writing then h.hold d true else d, { x with transaction := some ⟨pending, writing⟩ },
          .ok rows⟩

/-- Gives back what an open transaction holds. A dropped connection does no more: what its
transaction would have committed is lost. -/
def release (x : Session) (d : Disk) : Disk :=
  if x.transaction.any (·.writing) then x.handle.hold d false else d

def commit (t : Trouble) (x : Session) (d : Disk) : Step Unit :=
  match x.transaction with
  | none => ⟨d, x, .ok ()⟩
  | some transaction =>
    match t .committing with
    | some f => ⟨d, x, .error f⟩
    | none =>
      ⟨x.handle.commit (x.release d) transaction.pending, { x with transaction := none }, .ok ()⟩

end Session
end Executor
end QueryServer
