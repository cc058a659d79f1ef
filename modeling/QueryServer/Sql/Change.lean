import QueryServer.Sql.Query
/-!
Changes of rows whose names have been resolved, and what they do to a database. A change that
fails leaves the database as it was, unless it is told to keep the rows that it had written.
-/

namespace QueryServer.Sql

structure Changed where
  database : Database
  rows : List Tuple := []
  deriving Repr

/-- A fault, with what it leaves of a change. -/
structure Broken where
  fault : Fault
  database : Database
  deriving Repr

abbrev ChangeResult := Except Broken Changed

/-- What is left of a change that a fault has ended. The rows before it are kept if the change is to
stop at a constraint, and if they leave no orphans. -/
def Broken.keeping (mode : Conflict) (before after : Database) (f : Fault) : Broken :=
  if mode = .fail && f.isConstraint then
    match before.keepingReferences after with
    | .error orphaned => ⟨orphaned, before⟩
    | .ok kept => ⟨f, kept⟩
  else ⟨f, before⟩

structure Insertion where
  table : String
  mode : Conflict
  places : List Nat
  /-- The values; without them all columns have their defaults. -/
  source : Option Query
  returning : List Term

structure Modification where
  table : String
  mode : Conflict
  /-- The new values with their columns; of two for one column, the first one counts. -/
  changes : List (Nat × Term)
  filter : Option Term
  returning : List Term
  deriving Repr

structure Deletion where
  table : String
  filter : Option Term
  returning : List Term
  deriving Repr

/-- A table being written to: its rows, the largest number it has counted, and the rows that the
statement returns, latest first. -/
structure Draught where
  table : Table
  counter : Int
  returned : List Tuple := []
  deriving Repr

namespace Draught

def freeNumber? (t : Table) : Option Int64 :=
  ((List.range (t.rows.length + 1)).map fun i => Int64.ofNat (i + 1)).find? fun n =>
    (t.row? n).isNone

/-- A number for a new row: the one after the last. Behind the largest number any free one will do;
it is the first one here, where others draw by chance. Numbers that are never used again come to an
end there. -/
def newNumber (d : Draught) : Except Fault Int64 :=
  let next := (d.table.lastNumber.map (·.toInt + 1)).getD 1
  let next := if d.table.shape.autoincrement then max next (d.counter + 1) else next
  if next ≤ Numeric.maxInt then .ok (Int64.ofInt next)
  else if d.table.shape.autoincrement then .error .full
  else
    match freeNumber? d.table with
    | some n => .ok n
    | none => .error .full

/-- Adds a row that has passed all checks on single rows, or leaves it out. -/
def write (d : Draught) (mode : Conflict) (old : Option Int64) (r : Record)
    (returning : List Term) : Except Fault Draught := do
  if ← d.table.passes mode r then
    match ← d.table.accept mode old r with
    | some t =>
      let row ← Term.evalAll [] r.tuple returning
      return { d with table := t, returned := row :: d.returned }
    | none => return d
  else return d

end Draught

/-- Values as the columns of a table store them, with the row's number in its column. -/
def Shape.stored (s : Shape) (number : Int64) (values : Tuple) : Tuple :=
  (s.columns.zip values).zipIdx.map fun ((c, d), i) =>
    if s.numberColumn = some i then .integer number else d.store c.affinity

namespace Insertion

/-- The value at a place: the one that is given, or the default of the column. -/
def valueAt (p : Insertion) (s : Shape) (given : Tuple) (i : Nat) : Except Fault Datum :=
  match p.places.idxOf? i with
  | some k => .ok (given.getD k .null)
  | none =>
    match s.columns[i]? with
    | some c => c.default.eval [] []
    | none => .ok .null

def writeRow (p : Insertion) (d : Draught) (given : Tuple) : Except Fault Draught := do
  let s := d.table.shape
  let values ← (List.range s.columns.length).mapM (p.valueAt s given)
  let numberPlace :=
    if p.places.contains s.numberPlace then s.numberPlace
    else s.numberColumn.getD s.numberPlace
  let asked ← (← p.valueAt s given numberPlace).toNumber
  let number ← match asked with
    | some n => pure n
    | none => d.newNumber
  let d := { d with counter := max d.counter number.toInt }
  let values ← d.table.filled p.mode (s.stored number values)
  d.write p.mode none ⟨number, values⟩ p.returning

/-- Writes rows until one of them cannot be written. -/
def writeRows (p : Insertion) (d : Draught) : List Tuple → Draught × Option Fault
  | [] => (d, none)
  | given :: rest =>
    match p.writeRow d given with
    | .ok d' => p.writeRows d' rest
    | .error f => (d, some f)

def given (p : Insertion) (db : Database) : Except Fault (List Tuple) :=
  match p.source with
  | some q => q.rows db
  | none => .ok [[]]

/-- The database with the rows that were written, and the counter of their numbers. -/
def settle (db : Database) (d : Draught) : Database :=
  let db := db.put d.table
  if d.table.shape.autoincrement then db.setCounter d.table.name d.counter else db

def run (p : Insertion) (db : Database) : ChangeResult :=
  match db.table? p.table, p.given db with
  | none, _ => .error ⟨.noSuchTable p.table, db⟩
  | _, .error f => .error ⟨f, db⟩
  | some t, .ok rows =>
    match p.writeRows ⟨t, db.counter t.name, []⟩ rows with
    | (d, some f) => .error (.keeping p.mode db (db.put d.table) f)
    | (d, none) =>
      match db.keepingReferences (settle db d) with
      | .error f => .error ⟨f, db⟩
      | .ok db' => .ok ⟨db', d.returned.reverse⟩

end Insertion

def Table.selected (t : Table) : Option Term → Except Fault (List Int64)
  | none => .ok (t.rows.map (·.number))
  | some condition => do
    return (← t.rows.filterM fun r => condition.holds r.tuple).map (·.number)

namespace Modification

def writeRow (p : Modification) (d : Draught) (number : Int64) : Except Fault Draught := do
  match d.table.row? number with
  | none => return d
  | some old =>
    let s := d.table.shape
    let news ← p.changes.mapM fun (i, t) => do return (i, ← t.eval [] old.tuple)
    let value (i : Nat) : Datum :=
      ((news.find? (·.1 = i)).map (·.2)).getD (old.values.getD i .null)
    let number' ← match news.find? fun x => x.1 = s.numberPlace ∨ some x.1 = s.numberColumn with
      | none => pure number
      | some (_, v) =>
        match ← v.toNumber with
        | some n => pure n
        | none => throw .datatypeMismatch
    let values := s.stored number' ((List.range s.columns.length).map value)
    let values ← d.table.filled p.mode values
    d.write p.mode (some number) ⟨number', values⟩ p.returning

def writeRows (p : Modification) (d : Draught) : List Int64 → Draught × Option Fault
  | [] => (d, none)
  | number :: rest =>
    match p.writeRow d number with
    | .ok d' => p.writeRows d' rest
    | .error f => (d, some f)

def run (p : Modification) (db : Database) : ChangeResult :=
  match db.table? p.table with
  | none => .error ⟨.noSuchTable p.table, db⟩
  | some t =>
    match t.selected p.filter with
    | .error f => .error ⟨f, db⟩
    | .ok numbers =>
      match p.writeRows ⟨t, 0, []⟩ numbers with
      | (d, some f) => .error (.keeping p.mode db (db.put d.table) f)
      | (d, none) =>
        match db.keepingReferences (db.put d.table) with
        | .error f => .error ⟨f, db⟩
        | .ok db' => .ok ⟨db', d.returned.reverse⟩

end Modification

namespace Deletion

def attempt (p : Deletion) (db : Database) (t : Table) : Except Fault Changed := do
  let numbers ← t.selected p.filter
  let gone := t.rows.filter fun r => numbers.contains r.number
  let rows ← gone.mapM fun r => Term.evalAll [] r.tuple p.returning
  return ⟨← db.keepingReferences (db.put (t.erase numbers)), rows⟩

def run (p : Deletion) (db : Database) : ChangeResult :=
  match db.table? p.table with
  | none => .error ⟨.noSuchTable p.table, db⟩
  | some t => (p.attempt db t).mapError (⟨·, db⟩)

end Deletion
end QueryServer.Sql
