import QueryServer.Sql.Table
/-!
Databases: tables, the catalog that lists them, and the counters of row numbers.
-/

namespace QueryServer.Sql

structure Database where
  tables : List Table := []
  deriving Repr, Inhabited

abbrev Schema := Except Fault Database

/-- The table that counts the numbers of rows that are never used again. -/
def counterName : String := "sqlite_sequence"

/-- The names of the table that lists all tables and keys. -/
def isCatalogName (name : String) : Bool :=
  ["sqlite_master", "sqlite_schema"].any (sameName name)

namespace Database

def table? (db : Database) (name : String) : Option Table :=
  db.tables.find? fun t => sameName t.name name

def put (db : Database) (t : Table) : Database :=
  { db with tables := db.tables.map fun u => if sameName u.name t.name then t else u }

def remove (db : Database) (name : String) : Database :=
  { db with tables := db.tables.filter fun t => !sameName t.name name }

/-- So many pages that no table uses, the lowest ones first. -/
def freePages (db : Database) (n : Nat) : List Nat :=
  let used := db.tables.flatMap fun t => t.pages ++ t.shape.indexes.map (·.page)
  ((List.range (used.length + n)).map (· + 2)).filter (!used.contains ·) |>.take n

/-- The rows of the catalog for one table: itself, its keys, and the indexes made for it. -/
def catalogRows (t : Table) : List Record :=
  let row (serial page : Nat) (kind name : String) (definition : Datum) : Record :=
    ⟨Int64.ofNat serial, [.ofString kind, .ofString name, .ofString t.name,
      .integer (Int64.ofNat page), definition]⟩
  row t.serial (t.pages.getD 0 0) "table" t.name (.ofString t.definition) ::
    ((List.range t.shape.keys.length).map fun i =>
      row (t.serial + i + 1) (t.pages.getD (i + 1) 0) "index"
        s!"sqlite_autoindex_{t.name}_{i + 1}" .null) ++
    t.shape.indexes.map fun i => row i.serial i.page "index" i.name (.ofString i.definition)

def entries (db : Database) : List Record :=
  (db.tables.flatMap catalogRows).foldr Table.place []

/-- The row of the catalog that is filled next. -/
def nextSerial (db : Database) : Nat :=
  (db.entries.getLast?.map (·.number.toInt.toNat)).getD 0 + 1

def append (db : Database) (t : Table) : Database :=
  { db with tables := db.tables ++
    [{ t with pages := db.freePages (1 + t.shape.keys.length), serial := db.nextSerial }] }

def index? (db : Database) (name : String) : Option (Table × Index) :=
  db.tables.findSome? fun t => (t.shape.indexes.find? (sameName ·.name name)).map (t, ·)

def plainColumn (name : String) (affinity : Affinity) : Column :=
  { name, affinity, notNull := false, default := .literal .null }

def counters : Table where
  name := counterName
  shape := { columns := [plainColumn "name" .blob, plainColumn "seq" .blob] }
  definition := "CREATE TABLE sqlite_sequence(name,seq)"

def catalog (db : Database) : Table where
  name := "sqlite_master"
  shape := { columns := [plainColumn "type" .text, plainColumn "name" .text,
    plainColumn "tbl_name" .text, plainColumn "rootpage" .integer, plainColumn "sql" .text] }
  rows := db.entries

def readable? (db : Database) (name : String) : Option Table :=
  if isCatalogName name then some db.catalog else db.table? name

def counterRow? (db : Database) (table : String) : Option Record :=
  (db.table? counterName).bind fun t =>
    t.rows.find? fun r => r.values.head? == some (.ofString table)

def counter (db : Database) (table : String) : Int :=
  match db.counterRow? table with
  | some r => max 0 (r.values.getD 1 .null).asInt.toInt
  | none => 0

def setCounter (db : Database) (table : String) (n : Int) : Database :=
  match db.table? counterName with
  | none => db
  | some t =>
    let number := match db.counterRow? table with
      | some r => r.number
      | none => (t.lastNumber.getD 0) + 1
    let r : Record := ⟨number, [.ofString table, .integer (Int64.ofInt n)]⟩
    db.put { t with rows := Table.place r (t.rows.filter (·.number != number)) }

def dropCounter (db : Database) (table : String) : Database :=
  match db.table? counterName with
  | none => db
  | some t => db.put
      { t with rows := t.rows.filter fun r => r.values.head? != some (.ofString table) }

end Database
end QueryServer.Sql
