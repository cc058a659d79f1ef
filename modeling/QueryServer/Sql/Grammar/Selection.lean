import QueryServer.Sql.Grammar.Expression
/-!
Selects: result lists, the tables they read, compounds and the clauses at their end.
-/

namespace QueryServer.Sql.Grammar

/-- A name before a point and a star. -/
def tableStar? : Grammar (Option String) := fun ls =>
  match ls with
  | l :: dot :: star :: rest =>
    if dot.token = .symbol .dot ∧ star.token = .symbol .star then
      match nameOf? l with
      | some table => .ok (some table, rest)
      | none => .ok (none, ls)
    else .ok (none, ls)
  | _ => .ok (none, ls)

def resultColumn : Grammar ResultColumn := do
  if ← symbol? .star then return .star
  match ← tableStar? with
  | some table => return .tableStar table
  | none =>
    let e ← expr
    return .expr e (← optionalAlias)

def orderTerm : Grammar OrderTerm := do
  let e ← expr
  if ← keyword? .DESC then return { expr := e, descending := true }
  let _ ← keyword? .ASC
  return { expr := e }

def orderClause : Grammar (List OrderTerm) := do
  if ← keyword? .ORDER then
    keyword .BY
    commaSeparated orderTerm
  else return []

/-- How many rows are kept and how many are left out before them. -/
def limitClause : Grammar (Option Expr × Option Expr) := do
  if ← keyword? .LIMIT then
    let first ← expr
    if ← keyword? .OFFSET then return (some first, some (← expr))
    else if ← symbol? .comma then
      let second ← expr
      return (some second, some first)
    else return (some first, none)
  else return (none, none)

def exprTuple : Grammar (List Expr) := do
  symbol .open
  let items ← commaSeparated expr
  symbol .close
  return items

structure Part where
  body : Body
  order : List OrderTerm := []
  limit : Option Expr := none
  offset : Option Expr := none

def Part.lastClause? (p : Part) : Option LastClause :=
  if !p.order.isEmpty then some .order else if p.limit.isSome then some .limit else none

def compoundOp? : Grammar (Option CompoundOp) := do
  if ← keyword? .UNION then
    if ← keyword? .ALL then return some .unionAll else return some .union
  else if ← keyword? .INTERSECT then return some .intersect
  else if ← keyword? .EXCEPT then return some .except
  else return none

/-- The last part but one or before, counted from the end, that has a clause which only the last
part may have, with the operator after it. -/
def misplaced? (parts : List (Part × CompoundOp)) : Option (LastClause × CompoundOp) :=
  parts.findSome? fun (p, op) => p.lastClause?.map (·, op)

/-- A select from its parts: the last one, and the earlier ones, latest first. -/
def ofParts (last : Part) (earlier : List (Part × CompoundOp)) : Select :=
  let body := match earlier.reverse with
    | [] => last.body
    | (p, op) :: rest =>
      let (joined, lastOp) := rest.foldl
        (fun (acc : Body × CompoundOp) (q : Part × CompoundOp) =>
          (.compound acc.2 acc.1 q.1.body, q.2)) (p.body, op)
      .compound lastOp joined last.body
  .mk body last.order last.limit last.offset (misplaced? earlier)

mutual

/-- A select with the tables that are defined for it. -/
def selectAt : Nat → Grammar Select
  | 0 => stuck
  | n + 1 => do
    if ← keyword? .WITH then
      let _ ← keyword? .RECURSIVE
      definitions n
    else parts n []

/-- Named tables, then the select that uses them. -/
def definitions : Nat → Grammar Select
  | 0 => stuck
  | n + 1 => do
    let table ← name
    let columns ← optionalNameList
    keyword .AS
    symbol .open
    let definition ← selectAt n
    symbol .close
    if ← symbol? .comma then
      return .withTable table columns definition (← definitions n)
    else
      return .withTable table columns definition (← parts n [])

def parts : Nat → List (Part × CompoundOp) → Grammar Select
  | 0, _ => stuck
  | n + 1, earlier => do
    let p ← part n
    match ← compoundOp? with
    | some op => parts n ((p, op) :: earlier)
    | none => return ofParts p earlier

def part : Nat → Grammar Part
  | 0 => stuck
  | n + 1 => do
    if ← keyword? .VALUES then
      return { body := .values (← commaSeparated exprTuple) }
    keyword .SELECT
    let distinct ← keyword? .DISTINCT
    if !distinct then let _ ← keyword? .ALL
    let columns ← commaSeparated resultColumn
    let source ← if ← keyword? .FROM then source n else pure .nothing
    let filter ← clause? .WHERE expr
    let order ← orderClause
    let (limit, offset) ← limitClause
    return { body := .core distinct columns source filter, order, limit, offset }

def source : Nat → Grammar Source
  | 0 => stuck
  | n + 1 => do
    if ← symbol? .open then
      let s ← selectAt n
      symbol .close
      return .subquery s (← optionalAlias)
    else
      let table ← tableName
      return .table table (← optionalAlias)

end

def select : Grammar Select := do
  selectAt (exprFuel (← remaining).length)

end QueryServer.Sql.Grammar
