import QueryServer.Sql.Database
/-!
Foreign keys. A row is an orphan if it refers to a row that does not exist; no statement may leave
more orphans than it found.
-/

namespace QueryServer.Sql

namespace Shape

/-- The columns of a parent table that a foreign key names, as far as they are there. -/
def named (s : Shape) (f : ForeignKey) : List Nat :=
  if f.parentColumns.isEmpty then s.primaryKey.getD [] else f.parentColumns.filterMap s.place?

/-- The columns of a parent table that a foreign key refers to, if they are its row number or one
of its keys. -/
def referenced? (s : Shape) (f : ForeignKey) : Option (List Nat) := do
  let places ← if f.parentColumns.isEmpty then s.primaryKey else f.parentColumns.mapM s.place?
  let isNumber := s.numberColumn.any fun i => places = [i]
  let isKey := s.uniqueKeys.any fun k => k.length == places.length && k.all places.contains
  if places.length = f.places.length && (isNumber || isKey) then some places else none

end Shape

namespace ForeignKey

/-- The values of a row that refer to another one, unless one of them is null. -/
def values? (f : ForeignKey) (r : Record) : Option Tuple :=
  let values := f.places.map fun i => r.values.getD i .null
  if values.any (·.isNull) then none else some values

/-- Whether a row has these values in these columns, as those columns compare them. -/
def matchesRow (parent : Shape) (places : List Nat) (values : Tuple) (r : Record) : Bool :=
  (places.zip values).all fun (i, d) =>
    let affinity := ((parent.columns[i]?).map (·.affinity)).getD .blob
    Datum.order (d.store affinity) (r.values.getD i .null) == .eq

/-- Whether a row refers to nothing that exists. -/
def isOrphan (f : ForeignKey) (db : Database) (r : Record) : Bool :=
  match f.values? r with
  | none => false
  | some values =>
    match db.table? f.parent with
    | none => true
    | some parent =>
      match parent.shape.referenced? f with
      | none => true
      | some places => !parent.rows.any (matchesRow parent.shape places values)

/-- A fault if the foreign key of a table refers to no table or to columns that are no key. -/
def check (f : ForeignKey) (db : Database) (child : String) : Except Fault Unit :=
  match db.table? f.parent with
  | none => .error (.noSuchTable ("main." ++ f.parent))
  | some parent =>
    match parent.shape.referenced? f with
    | none => .error (.foreignKeyMismatch child f.parent)
    | some _ => .ok ()

end ForeignKey

namespace Database

def orphans (db : Database) : List Record :=
  db.tables.flatMap fun t => t.shape.foreignKeys.flatMap fun f => t.rows.filter (f.isOrphan db)

/-- A change, unless it leaves more orphans. -/
def keepingReferences (before after : Database) : Except Fault Database :=
  if before.orphans.length < after.orphans.length then .error .foreignKeyViolated else .ok after

/-- The foreign keys that refer to a table, with the tables that have them, the newest one first. -/
def referrers (db : Database) (parent : String) : List (Table × ForeignKey) :=
  (db.tables.flatMap fun t =>
    (t.shape.foreignKeys.filter fun f => sameName f.parent parent).map (t, ·)).reverse

end Database
end QueryServer.Sql
