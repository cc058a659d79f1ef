import QueryServer.Sql.Term
/-!
Tables: their shape and the rows they hold. Rows have numbers that differ, and no two rows agree
in all columns of a key. Every row that is written passes through `Table.accept`.
-/

namespace QueryServer.Sql

structure Column where
  name : String
  affinity : Affinity
  notNull : Bool
  default : Term
  deriving Repr

/-- Columns in which no two rows agree. -/
abbrev Key := List Nat

/-- Columns whose values must occur in a row of another table. No columns of that table stand
for its primary key. -/
structure ForeignKey where
  places : List Nat
  parent : String
  parentColumns : List String
  /-- Orphans are only looked for when a transaction is committed. -/
  deferred : Bool := false
  deriving DecidableEq, Repr

structure Index where
  name : String
  key : Key
  unique : Bool
  definition : String
  /-- Its row in the catalog. -/
  serial : Nat := 0
  page : Nat := 0
  deriving DecidableEq, Repr

structure Shape where
  columns : List Column
  /-- The column that holds the number of the row. -/
  numberColumn : Option Nat := none
  /-- Whether numbers of rows are never used again. -/
  autoincrement : Bool := false
  primaryKey : Option Key := none
  /-- Keys other than the number of the row, in the order of their definition. -/
  keys : List Key := []
  /-- Conditions that hold in every row, with their names. -/
  checks : List (String × Term) := []
  foreignKeys : List ForeignKey := []
  indexes : List Index := []
  deriving Repr, Inhabited

namespace Shape

def columnNames (s : Shape) : List String :=
  s.columns.map (·.name)

def place? (s : Shape) (name : String) : Option Nat :=
  s.columns.findIdx? fun c => sameName c.name name

/-- All keys, with those of unique indexes. -/
def uniqueKeys (s : Shape) : List Key :=
  s.keys ++ (s.indexes.filter (·.unique)).map (·.key)

/-- The place of the row's number behind the columns. -/
def numberPlace (s : Shape) : Nat :=
  s.columns.length

/-- Whether a name stands for the number of the row where no column has it. -/
def isNumberName (name : String) : Bool :=
  ["rowid", "oid", "_rowid_"].any (sameName name)

def numberName (s : Shape) : String :=
  (s.numberColumn.bind fun i => s.columnNames[i]?).getD "rowid"

end Shape

structure Record where
  number : Int64
  values : Tuple
  deriving DecidableEq, Repr, Inhabited

/-- The values of a row, and its number behind them. -/
def Record.tuple (r : Record) : Tuple :=
  r.values ++ [.integer r.number]

/-- Whether two rows agree in all columns of a key; null agrees with nothing. -/
def Key.agree (k : Key) (a b : Record) : Bool :=
  k.all fun i =>
    let x := a.values.getD i .null
    !x.isNull && Datum.order x (b.values.getD i .null) == .eq

def Key.repeated (k : Key) : List Record → Bool
  | [] => false
  | r :: rest => rest.any (Key.agree k r) || Key.repeated k rest

structure Table where
  name : String
  shape : Shape
  /-- In the order of their numbers. -/
  rows : List Record := []
  definition : String := ""
  /-- The first page of the table, then those of its keys. -/
  pages : List Nat := []
  /-- The row of the table in the catalog. Those of its keys follow. -/
  serial : Nat := 0
  deriving Repr, Inhabited

namespace Table

def row? (t : Table) (number : Int64) : Option Record :=
  t.rows.find? (·.number == number)

def place (r : Record) : List Record → List Record
  | [] => [r]
  | x :: xs => if r.number < x.number then r :: x :: xs else x :: place r xs

/-- Whether two rows cannot stand in the table together. -/
def clash (t : Table) (a b : Record) : Bool :=
  a.number == b.number || t.shape.uniqueKeys.any fun k => Key.agree k a b

def keyViolation (t : Table) (k : Key) : Fault :=
  .uniqueViolated t.name (k.filterMap fun i => t.shape.columnNames[i]?)

/-- The violation that a row would be among others: of its number first, then of the key that was
defined last. -/
def violation? (t : Table) (others : List Record) (r : Record) : Option Fault :=
  if others.any (·.number == r.number) then some (.uniqueViolated t.name [t.shape.numberName])
  else
    (t.shape.uniqueKeys.reverse.find? fun k => others.any (Key.agree k r)).map t.keyViolation

/-- Writes a row, in the place of an old one if there is one. A row that violates a key is
refused, left out, or takes the place of those that it clashes with. -/
def accept (t : Table) (mode : Conflict) (old : Option Int64) (r : Record) :
    Except Fault (Option Table) :=
  let others := t.rows.filter fun x => some x.number != old
  match t.violation? others r with
  | none => .ok (some { t with rows := place r others })
  | some fault =>
    match mode with
    | .ignore => .ok none
    | .replace => .ok (some { t with rows := place r (others.filter fun x => !t.clash r x) })
    | _ => .error fault

def erase (t : Table) (numbers : List Int64) : Table :=
  { t with rows := t.rows.filter fun r => !numbers.contains r.number }

/-- A row's values with a default in the place of each null that is not allowed; only a replacing
statement does this. -/
def filled (t : Table) (mode : Conflict) (values : Tuple) : Except Fault Tuple :=
  if mode = .replace then
    (t.shape.columns.zip values).mapM fun (c, d) =>
      if c.notNull && d.isNull then c.default.eval [] [] else .ok d
  else .ok values

def nullViolation? (t : Table) (values : Tuple) : Option Fault :=
  ((t.shape.columns.zip values).find? fun (c, d) => c.notNull && d.isNull).map fun (c, _) =>
    .notNullViolated t.name c.name

def checkViolation? (r : Record) : List (String × Term) → Except Fault (Option Fault)
  | [] => .ok none
  | (label, condition) :: rest => do
    if (← condition.eval [] r.tuple).truth? = some false then return some (.checkViolated label)
    else checkViolation? r rest

/-- Whether a row satisfies what is asked of single rows; one that does not is refused, or left
out where violations are ignored. -/
def passes (t : Table) (mode : Conflict) (r : Record) : Except Fault Bool := do
  let violation ← match t.nullViolation? r.values with
    | some fault => pure (some fault)
    | none => checkViolation? r t.shape.checks
  match violation with
  | none => return true
  | some fault => if mode = .ignore then return false else throw fault

def lastNumber (t : Table) : Option Int64 :=
  t.rows.getLast?.map (·.number)

end Table

/-- The number of a row that a value stands for; null asks for a new one. -/
def Datum.toNumber (d : Datum) : Except Fault (Option Int64) :=
  match d.preferNumber.preferInteger with
  | .null => .ok none
  | .integer n => .ok (some n)
  | _ => .error .datatypeMismatch

end QueryServer.Sql
