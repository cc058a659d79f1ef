import QueryServer.Sql.Change.Resolution
/-!
Tables from their definitions, and tables that are dropped.
-/

namespace QueryServer.Sql

/-- Names that only the store itself gives to tables. -/
def isReservedName (name : String) : Bool :=
  "sqlite_".toList.isPrefixOf (folded name)

/-- Why a table cannot be made under this head; nothing is wrong with one that exists and may. -/
def TableHead.fault? (head : TableHead) (db : Database) : Option Fault :=
  match head.table.schema with
  | some s => if sameName s "main" then named else some (.unknownDatabase s)
  | none => named
where
  named : Option Fault :=
    if isReservedName head.table.name then some (.reservedName head.table.name)
    else if (db.table? head.table.name).isSome then
      if head.ifNotExists then none else some (.tableExists head.written)
    else if (db.index? head.table.name).isSome then some (.indexNamed head.table.name)
    else none

def Shape.addKey (s : Shape) (k : Key) : Shape :=
  if s.keys.contains k then s else { s with keys := s.keys ++ [k] }

/-- Makes columns the primary key; a lone integer column becomes the number of the row. -/
def Shape.addPrimaryKey (s : Shape) (table : String) (types : List String) (k : Key)
    (autoincrement : Bool) : Except Fault Shape :=
  if s.primaryKey.isSome then .error (.severalPrimaryKeys table)
  else
    let s := { s with primaryKey := some k }
    match k with
    | [i] =>
      if sameName (types.getD i "") "INTEGER" then
        .ok { s with numberColumn := some i, autoincrement }
      else if autoincrement then .error .autoincrementNotInteger
      else .ok (s.addKey k)
    | _ => if autoincrement then .error .autoincrementNotInteger else .ok (s.addKey k)

def Shape.placesOf (s : Shape) (names : List String) : Except Fault (List Nat) :=
  names.mapM fun name =>
    match s.place? name with
    | some i => .ok i
    | none => .error (.noSuchColumn name)

def Shape.addForeignKey (s : Shape) (places : List Nat) (r : Reference) (deferred : Bool) :
    Except Fault Shape :=
  if r.columns.isEmpty || r.columns.length == places.length then
    .ok { s with foreignKeys := s.foreignKeys ++ [⟨places, r.table, r.columns, deferred⟩] }
  else .error .foreignKeyWidths

/-- Says of the last foreign key when its orphans are looked for. -/
def Shape.deferLast (s : Shape) (deferred : Bool) : Shape :=
  { s with foreignKeys := s.foreignKeys.dropLast ++
      (s.foreignKeys.getLast?.map fun f => { f with deferred }).toList }

/-- What is known while a table is being defined: its columns so far and conditions that are still
to be looked up. -/
structure Outline where
  shape : Shape := { columns := [] }
  types : List String := []
  conditions : List (Expr × String) := []

namespace Outline

def onLast (o : Outline) (f : Column → Column) : Outline :=
  let columns := o.shape.columns
  { o with shape := { o.shape with
      columns := columns.dropLast ++ (columns.getLast?.map f).toList } }

def constrain (table : String) (o : Outline) : ColumnConstraint → Except Fault Outline
  | .primaryKey autoincrement => do
    let place := o.shape.columns.length - 1
    return { o with shape := ← o.shape.addPrimaryKey table o.types [place] autoincrement }
  | .notNull => .ok (o.onLast fun c => { c with notNull := true })
  | .unique => .ok { o with shape := o.shape.addKey [o.shape.columns.length - 1] }
  | .check e label => .ok { o with conditions := o.conditions ++ [(e, label)] }
  | .default e => do
    let value ← { : Naming }.resolve e
    return o.onLast fun c => { c with default := value }
  | .references r => do
    let place := o.shape.columns.length - 1
    if 1 < r.columns.length then
      throw (.foreignKeyTooWide (o.shape.columnNames.getD place "") r.written)
    return { o with shape := ← o.shape.addForeignKey [place] r false }
  | .deferred yes => .ok { o with shape := o.shape.deferLast yes }

def column (table : String) (o : Outline) (d : ColumnDefinition) : Except Fault Outline := do
  if (o.shape.place? d.name).isSome then throw (.duplicateColumn d.name)
  let c : Column := ⟨d.name, .ofType d.type, false, .literal .null⟩
  let o := { o with shape := { o.shape with columns := o.shape.columns ++ [c] },
                    types := o.types ++ [d.type] }
  d.constraints.foldlM (constrain table) o

def constrainTable (table : String) (o : Outline) : TableConstraint → Except Fault Outline
  | .primaryKey columns autoincrement => do
    let places ← o.shape.placesOf columns
    return { o with shape := ← o.shape.addPrimaryKey table o.types places autoincrement }
  | .unique columns => do
    return { o with shape := o.shape.addKey (← o.shape.placesOf columns) }
  | .check e label => .ok { o with conditions := o.conditions ++ [(e, label)] }
  | .foreignKey columns r deferred => do
    let places ← columns.mapM fun name =>
      match o.shape.place? name with
      | some i => Except.ok i
      | none => .error (.unknownForeignKeyColumn name)
    return { o with shape := ← o.shape.addForeignKey places r deferred }

end Outline

def Table.define (name : String) (d : TableDefinition) : Except Fault Table := do
  let o ← d.columns.foldlM (Outline.column name) {}
  let o ← d.constraints.foldlM (Outline.constrainTable name) o
  let empty : Table := { name, shape := o.shape, definition := "CREATE TABLE " ++ d.text }
  let n : Naming := { scope := .ofTable empty name }
  let checks ← o.conditions.mapM fun (e, label) => do return (label, ← n.resolve e)
  return { empty with shape := { o.shape with checks } }

namespace Database

/-- Adds a new table, and the table of counters if it is the first one to need it. -/
def create (db : Database) (t : Table) : Database :=
  let db := db.append t
  if t.shape.autoincrement && (db.table? counterName).isNone then db.append counters else db

/-- Removes a table with its counter. Its rows go first, and must not leave orphans. -/
def drop (db : Database) (name : String) : Except Fault Database := do
  match db.table? name with
  | none => throw (.noSuchTable name)
  | some t =>
    let _ ← db.keepingReferences (db.put { t with rows := [] })
    return (db.remove name).dropCounter t.name

end Database

/-- The index that a definition describes, with its table; none if it exists and may. -/
def IndexDefinition.prepare (schema : Schema) (d : IndexDefinition) :
    Except Fault (Option (Table × Index)) := do
  let within := d.index.schema.getD "main"
  let db ← schema
  if !sameName within "main" && !sameName within "temp" then throw (.unknownDatabase within)
  match db.readable? d.table with
  | none => throw (.noSuchTable ((if sameName within "main" then "main." else "") ++ d.table))
  | some t =>
    let name := d.index.name
    if sameName within "temp" then throw (.temporaryIndex t.name)
    if isReservedName t.name then throw (.notIndexable t.name)
    if isReservedName name then throw (.reservedName name)
    if (db.table? name).isSome then throw (.tableNamed name)
    if (db.index? name).isSome then
      if d.ifNotExists then return none else throw (.indexExists name)
    let key ← t.shape.placesOf d.columns
    let definition := (if d.unique then "CREATE UNIQUE INDEX " else "CREATE INDEX ") ++ d.text
    return some (t, { name, key, unique := d.unique, definition })

namespace Database

/-- Makes an index for a table. No two rows may agree in one that is unique. -/
def addIndex (db : Database) (table : String) (i : Index) : Except Fault Database :=
  match db.table? table with
  | none => .error (.noSuchTable table)
  | some t =>
    if i.unique && Key.repeated i.key t.rows then .error (t.keyViolation i.key)
    else
      let i := { i with serial := db.nextSerial, page := (db.freePages 1).headD 0 }
      .ok (db.put { t with shape := { t.shape with indexes := t.shape.indexes ++ [i] } })

def dropIndex (db : Database) (table index : String) : Database :=
  match db.table? table with
  | none => db
  | some t =>
    let indexes := t.shape.indexes.filter fun i => !sameName i.name index
    db.put { t with shape := { t.shape with indexes } }

def isKeyIndex (db : Database) (name : String) : Bool :=
  db.tables.any fun t => (List.range t.shape.keys.length).any fun i =>
    sameName s!"sqlite_autoindex_{t.name}_{i + 1}" name

end Database

/-- The index that a statement drops, with its table; none if it does not exist and need not. -/
def TableName.findIndex (schema : Schema) (ifExists : Bool) (index : TableName) :
    Except Fault (Option (Table × Index)) := do
  let db ← schema
  let here := index.schema.all (sameName "main")
  match (if here then db.index? index.name else none) with
  | some found => return some found
  | none =>
    if here && db.isKeyIndex index.name then throw .indexOfKey
    else if ifExists then return none
    else throw (.noSuchIndex index.shown)

def TableName.findDroppable (schema : Schema) (ifExists : Bool) (table : TableName) :
    Except Fault (Option Table) := do
  let db ← schema
  match (if table.schema.all (sameName "main") then db.readable? table.name else none) with
  | some t => if isReservedName t.name then throw (.notDroppable t.name) else return some t
  | none => if ifExists then return none else throw (.noSuchTable table.shown)

end QueryServer.Sql
