import QueryServer.Sql.Grammar.Command
import QueryServer.Sql.Plan
/-!
Scripts: texts that hold statements. A text is run only if it holds exactly one statement, and all
of its statements are prepared before any of them runs.
-/

namespace QueryServer.Sql

/-- Why a text is no statement. A table that exists already is reported where its definition
begins, whatever follows. -/
def Unparsed.fault (schema : Schema) (u : Unparsed) : Fault :=
  let wording : Fault := match u.rest with
    | [] => .incomplete
    | l :: _ =>
      if l.token = .illegal then .unrecognized (String.ofList l.text)
      else .unexpected (String.ofList l.text)
  match u.opened with
  | none => wording
  | some head =>
    match schema with
    | .ok db => (head.fault? db).getD wording
    | .error f => f

structure Parameters where
  count : Nat := 0
  names : List (List Char) := []

def largestParameter : Nat := 32766

namespace Parameters

/-- Takes in one more token. Parameters with a name count once. -/
def add (p : Parameters) (t : Token) : Except Fault Parameters :=
  match t with
  | .parameter ['?'] => .ok { p with count := p.count + 1 }
  | .parameter ('?' :: digits) =>
    let n := Numeric.naturalOf digits
    if n = 0 ∨ largestParameter < n then .error .parameterNumber
    else .ok { p with count := max p.count n }
  | .parameter name =>
    if p.names.contains name then .ok p
    else .ok { count := p.count + 1, names := name :: p.names }
  | _ => .ok p

end Parameters

structure Prepared where
  plan : Plan
  parameters : Nat

/-- Prepares the first statement, and tells what follows it; nothing if there is none. -/
def Prepared.next? (schema : Schema) (ls : List Lexeme) :
    Except Fault (Option (Prepared × List Lexeme)) :=
  match Parsed.next? ls with
  | .error u => .error (u.fault schema)
  | .ok none => .ok none
  | .ok (some (p, rest)) => do
    let parameters ← p.lexemes.foldlM (fun ps l => ps.add l.token) ({} : Parameters)
    return some (⟨← p.statement.plan schema, parameters.count⟩, rest)

/-- The only statement of a text, if there is one. The second one is looked at before the first
one runs. -/
def Prepared.only? (schema : Schema) (text : String) : Except Fault (Option Prepared) := do
  match ← next? schema (Lexeme.scan text.toList) with
  | none => return none
  | some (p, rest) =>
    match ← next? schema rest with
    | none => return some p
    | some _ => throw .severalStatements

/-- Runs a statement; no values are ever given to it. -/
def Prepared.run (p : Prepared) (r : Rights) (schema : Schema) : Effect :=
  if p.parameters = 0 then p.plan.run r schema
  else .keep schema (.error (.parameters p.parameters))

end QueryServer.Sql
