import QueryServer.Sql.Query.Scan
/-!
Selects as queries. Tables are looked up first, those of the last part of a compound before the
others; then the limit, the results, the condition and the order of each part.
-/

namespace QueryServer.Sql

inductive ResultItem where
  | column (t : Term) (name : String)
  | expr (e : Expr) (given : Option String)
  deriving Repr

structure Output where
  term : Term
  name : String
  given : Option String
  deriving Repr

structure Selected where
  query : Query
  columns : List (String × Affinity)

/-- Selects that have names, each with what became of it. -/
abbrev NamedSelects := List (String × Except Fault Selected)

/-- The entries of a result list over a scope; there is none where rows come from no table. -/
def expandResult (scope : Option Scope) : List ResultColumn → Except Fault (List ResultItem)
  | [] => .ok []
  | .star :: rest => do
    match scope with
    | none => throw .noTablesSpecified
    | some s => return (s.all.map fun (t, name) => .column t name) ++ (← expandResult scope rest)
  | .tableStar table :: rest => do
    match scope with
    | some s =>
      if s.label.any (sameName table) then
        return (s.all.map fun (t, name) => .column t name) ++ (← expandResult scope rest)
      else throw (.noSuchTable table)
    | none => throw (.noSuchTable table)
  | .expr e given :: rest => do return .expr e given :: (← expandResult scope rest)

/-- The name that a result has by its expression. -/
def Expr.resultName : Expr → String
  | .name text _ => text
  | .qualified _ _ column => column
  | _ => ""

def outputsOf (n : Naming) : List ResultItem → Except Fault (List Output)
  | [] => .ok []
  | .column t name :: rest => do
    return ⟨t, name, none⟩ :: (← outputsOf n rest)
  | .expr e given :: rest => do
    let t ← n.resolve e
    return ⟨t, given.getD e.resultName, given⟩ :: (← outputsOf n rest)

namespace Output

def aliases (os : List Output) : List (String × Term) :=
  os.filterMap fun o => o.given.map (·, o.term)

def columns (os : List Output) : List (String × Affinity) :=
  os.map fun o => (o.name, o.term.affinity?.getD .blob)

end Output

/-- The integer that an expression is, if it is written as one of at most 31 bits. -/
def Expr.position? : Expr → Option Int
  | .integer digits =>
    let n := Numeric.naturalOf digits
    if n < 1 <<< 31 then some n else none
  | .unary .negate e => e.position?.map (- ·)
  | .unary .plus e => e.position?
  | _ => none

def outputAt (os : List Output) (term : Nat) (position : Int) : Except Fault (Nat × Output) :=
  if position < 1 then .error (.orderOutOfRange term os.length)
  else
    let i := position.toNat - 1
    match os[i]? with
    | some o => .ok (i, o)
    | none => .error (.orderOutOfRange term os.length)

def sortKey (n : Naming) (os : List Output) (o : OrderTerm) (term : Nat) : Except Fault SortKey := do
  match o.expr.position? with
  | some position => return ⟨(← outputAt os term position).2.term, o.descending⟩
  | none =>
    match o.expr with
    | .name text quoting =>
      match os.find? fun x => x.given.any (sameName text) with
      | some x => return ⟨x.term, o.descending⟩
      | none => return ⟨← n.lookup text quoting, o.descending⟩
    | e => return ⟨← n.resolve e, o.descending⟩

/-- A sort key of a compound, which must be one of its results. -/
def compoundSortKey (os : List Output) (o : OrderTerm) (term : Nat) : Except Fault SortKey := do
  let place (i : Nat) : SortKey := ⟨.column i .blob, o.descending⟩
  match o.expr.position? with
  | some position => return place (← outputAt os term position).1
  | none =>
    match o.expr with
    | .name text _ =>
      match os.findIdx? fun x => sameName x.name text with
      | some i => return place i
      | none => throw (.orderUnmatched term)
    | _ => throw (.orderUnmatched term)

/-- A condition on single rows, which cannot ask for all of them. -/
def rowCondition (t : Term) : Except Fault Term :=
  match t.aggregates with
  | [] => .ok t
  | (_, _, name) :: _ => .error (.aggregateMisplaced name)

structure Opened where
  scope : Option Scope
  origin : Origin
  /-- The shape of the table, if rows come from one. -/
  shape : Option Shape := none

def Selected.opened (s : Selected) (label : Option String) : Opened where
  scope := some { label, columns := s.columns }
  origin := .query s.query

def TableName.find (schema : Schema) (table : TableName) : Except Fault Table := do
  let db ← schema
  match (if table.schema.all (sameName "main") then db.readable? table.name else none) with
  | some t => return t
  | none => throw (.noSuchTable table.shown)

def openTable (schema : Schema) (named : NamedSelects) (table : TableName)
    (given : Option String) : Except Fault Opened := do
  let label := given.getD table.name
  match table.schema, named.find? fun x => sameName x.1 table.name with
  | none, some (_, s) => return (← s).opened (some label)
  | _, _ =>
    let t ← table.find schema
    return ⟨some (.ofTable t label), .table t.name .byNumber, some t.shape⟩

/-- The part of a compound behind an operator: its width must be that of the part before. -/
abbrev Neighbour := Option (Nat × CompoundOp)

def checkWidth (width : Nat) : Neighbour → Except Fault Unit
  | some (w, op) => if w = width then .ok () else .error (.compoundWidths op.shown)
  | none => .ok ()

structure Draft where
  relation : Relation
  order : List SortKey
  outputs : List Output

def draftCore (distinct : Bool) (columns : List ResultColumn) (opened : Opened)
    (filter : Option Expr) (order : List OrderTerm) (next : Neighbour) : Except Fault Draft := do
  let scope := opened.scope.getD {}
  let items ← expandResult opened.scope columns
  let outputs ← outputsOf { scope, aggregates := true } items
  let result := outputs.map (·.term)
  let summed := !(Term.aggregatesOfAll result).isEmpty
  let n : Naming := { scope, aliases := Output.aliases outputs, aggregates := summed }
  let condition ← filter.mapM n.resolve
  let keys ← order.zipIdx.mapM fun (o, i) => sortKey n outputs o (i + 1)
  checkWidth outputs.length next
  let condition ← condition.mapM rowCondition
  let origin := match opened.origin, opened.shape with
    | .table name _, some shape => .table name (.choose shape condition result keys)
    | origin, _ => origin
  return ⟨.core distinct origin condition result, keys, outputs⟩

/-- A list of values, resolved from its last row to its first. -/
def draftValues (rows : List (List Expr)) (next : Neighbour) : Except Fault Draft := do
  let terms ← rows.reverse.mapM ({ : Naming }.resolveAll)
  let width := (rows.head?.map List.length).getD 0
  checkWidth width next
  let outputs := ((terms.getLast?).getD []).zipIdx.map fun (t, i) =>
    (⟨t, s!"column{i + 1}", none⟩ : Output)
  return ⟨.values terms.reverse, [], outputs⟩

/-- What cannot be mended by any table: a clause at the wrong place, or rows of different widths. -/
def Body.malformed? : Body → Option Fault
  | .core .. => none
  | .values rows =>
    match rows with
    | [] => none
    | r :: rest => if rest.all (·.length == r.length) then none else some .valueWidths
  | .compound _ left right => left.malformed?.or right.malformed?

def Select.malformed? : Select → Option Fault
  | .mk body _ _ _ misplaced =>
    match misplaced with
    | some (clause, op) => some (.clauseMisplaced clause op.shown)
    | none => body.malformed?
  | .withTable _ _ definition rest => definition.malformed?.or rest.malformed?

def renamed (table : String) (columns : List String) (s : Selected) : Except Fault Selected :=
  if columns.isEmpty then .ok s
  else if columns.length = s.columns.length then
    .ok { s with columns := columns.zip (s.columns.map (·.2)) }
  else .error (.definitionWidth table s.columns.length columns.length)

mutual

def Source.open (schema : Schema) (named : NamedSelects) : Source → Except Fault Opened
  | .nothing => .ok ⟨none, .single, none⟩
  | .table name given => openTable schema named name given
  | .subquery s given => do return (← s.toQuery schema named).opened given

/-- Looks up all tables, the last ones first. -/
def Body.openAll (schema : Schema) (named : NamedSelects) : Body → Except Fault Unit
  | .core _ columns source _ => do
    let opened ← source.open schema named
    let _ ← expandResult opened.scope columns
  | .values _ => .ok ()
  | .compound _ left right => do
    right.openAll schema named
    left.openAll schema named

/-- A body as a relation, the last part first. -/
def Body.draft (schema : Schema) (named : NamedSelects) (order : List OrderTerm) (next : Neighbour) :
    Body → Except Fault Draft
  | .core distinct columns source filter => do
    draftCore distinct columns (← source.open schema named) filter order next
  | .values rows => draftValues rows next
  | .compound op left right => do
    let r ← right.draft schema named [] next
    let l ← left.draft schema named [] (some (r.outputs.length, op))
    let keys ← order.zipIdx.mapM fun (o, i) => compoundSortKey l.outputs o (i + 1)
    return ⟨.compound op l.relation r.relation, keys, l.outputs⟩

/-- The query of a select. Selects with names are only asked for where they are used. -/
def Select.toQuery (schema : Schema) (named : NamedSelects) : Select → Except Fault Selected
  | .mk body order limit offset _ => do
    body.openAll schema named
    let limit ← limit.mapM { : Naming }.resolve
    let offset ← offset.mapM { : Naming }.resolve
    let d ← body.draft schema named order none
    return ⟨.mk d.relation d.order limit offset, Output.columns d.outputs⟩
  | .withTable name columns definition rest =>
    let defined := (definition.toQuery schema named).bind (renamed name columns)
    rest.toQuery schema ((name, defined) :: named)

end

def Select.prepare (schema : Schema) (s : Select) : Except Fault Selected :=
  match s.malformed? with
  | some f => .error f
  | none => s.toQuery schema []

end QueryServer.Sql
