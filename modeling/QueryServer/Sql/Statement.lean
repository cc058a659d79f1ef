import QueryServer.Sql.Expr
/-!
Statements as they are written.
-/

namespace QueryServer.Sql

structure TableName where
  schema : Option String := none
  name : String
  deriving DecidableEq, Repr, Inhabited

def TableName.shown (t : TableName) : String :=
  match t.schema with
  | some s => s ++ "." ++ t.name
  | none => t.name

inductive ResultColumn where
  | star
  | tableStar (table : String)
  | expr (e : Expr) (given : Option String)
  deriving Repr

inductive CompoundOp where
  | union
  | unionAll
  | intersect
  | except
  deriving DecidableEq, Repr

def CompoundOp.shown : CompoundOp → String
  | union => "UNION"
  | unionAll => "UNION ALL"
  | intersect => "INTERSECT"
  | except => "EXCEPT"

structure OrderTerm where
  expr : Expr
  descending : Bool := false
  deriving Repr

/-- A clause that only the last part of a compound may have. -/
inductive LastClause where
  | order
  | limit
  deriving DecidableEq, Repr

mutual

inductive Source where
  | nothing
  | table (name : TableName) (given : Option String)
  | subquery (s : Select) (given : Option String)

inductive Body where
  | core (distinct : Bool) (columns : List ResultColumn) (source : Source) (filter : Option Expr)
  | values (rows : List (List Expr))
  | compound (op : CompoundOp) (left right : Body)

inductive Select where
  | mk (body : Body) (order : List OrderTerm) (limit offset : Option Expr)
      (misplaced : Option (LastClause × CompoundOp))
  /-- A select that may use another one by a name. -/
  | withTable (name : String) (columns : List String) (definition rest : Select)

end

inductive Conflict where
  | abort
  | fail
  | ignore
  | replace
  | rollback
  deriving DecidableEq, Repr

/-- The table and the columns that a foreign key refers to; no columns stand for its primary key. -/
structure Reference where
  table : String
  /-- The table's name with its quotes. -/
  written : String
  columns : List String
  deriving DecidableEq, Repr

inductive ColumnConstraint where
  | primaryKey (autoincrement : Bool)
  | notNull
  | unique
  | check (e : Expr) (label : String)
  | default (e : Expr)
  | references (r : Reference)
  /-- When orphans of the last foreign key are looked for. -/
  | deferred (yes : Bool)
  deriving Repr

structure ColumnDefinition where
  name : String
  type : String
  constraints : List ColumnConstraint
  deriving Repr

inductive TableConstraint where
  | primaryKey (columns : List String) (autoincrement : Bool)
  | unique (columns : List String)
  | check (e : Expr) (label : String)
  | foreignKey (columns : List String) (r : Reference) (deferred : Bool)
  deriving Repr

structure TableHead where
  ifNotExists : Bool
  table : TableName
  /-- The table's name as it was written, with its quotes. -/
  written : String
  deriving DecidableEq, Repr

structure TableDefinition where
  columns : List ColumnDefinition
  constraints : List TableConstraint
  /-- The source from the table's name on. -/
  text : String
  deriving Repr

structure IndexDefinition where
  unique : Bool
  ifNotExists : Bool
  index : TableName
  table : String
  columns : List String
  text : String
  deriving DecidableEq, Repr

inductive InsertSource where
  | select (s : Select)
  | defaults

inductive TransactionMode where
  | deferred
  | immediate
  | exclusive
  deriving DecidableEq, Repr

inductive Statement where
  | select (s : Select)
  | insert (conflict : Conflict) (table : TableName) (columns : Option (List String))
      (source : InsertSource) (returning : List ResultColumn)
  | update (conflict : Conflict) (table : TableName) (given : Option String)
      (changes : List (String × Expr)) (filter : Option Expr) (returning : List ResultColumn)
  | delete (table : TableName) (given : Option String) (filter : Option Expr)
      (returning : List ResultColumn)
  | createTable (head : TableHead) (definition : TableDefinition)
  | dropTable (ifExists : Bool) (table : TableName)
  | createIndex (definition : IndexDefinition)
  | dropIndex (ifExists : Bool) (index : TableName)
  | begin (mode : TransactionMode)
  | commit
  | rollback
  | savepoint (name : String)
  | release (name : String)
  | rollbackTo (name : String)
  | pragma (schema : Option String) (name : String) (value : Option String)
  | vacuum
  | explain (s : Statement)

end QueryServer.Sql
