import QueryServer.Sql.Change
import QueryServer.Sql.Query.Selection
/-!
Changes from the statements that ask for them. The table comes first, then the columns that are
named, then the values, and what is returned at last.
-/

namespace QueryServer.Sql

def TableName.findModifiable (schema : Schema) (table : TableName) : Except Fault Table := do
  let t ← table.find schema
  if isCatalogName t.name then throw (.notModifiable t.name) else return t

/-- The place of a column, or of the row's number by one of its names. -/
def Shape.placeOrNumber? (s : Shape) (name : String) : Option Nat :=
  match s.place? name with
  | some i => some i
  | none => if Shape.isNumberName name then some s.numberPlace else none

def returningTerms (n : Naming) (columns : List ResultColumn) : Except Fault (List Term) := do
  return (← outputsOf n (← expandResult (some n.scope) columns)).map (·.term)

/-- The foreign keys of a table must refer to keys. The newest one is looked at first. -/
def checkForeignKeys (db : Database) (t : Table) (concerned : ForeignKey → Bool) :
    Except Fault Unit :=
  (t.shape.foreignKeys.reverse.filter concerned).forM (·.check db t.name)

/-- One row alone makes no orphans where it takes no other row's place, but it may mend some that
are only looked for later. -/
def checkInsertReferrers (db : Database) (t : Table) (alone : Bool) : Except Fault Unit :=
  ((db.referrers t.name).filter fun (_, f) => f.deferred || !alone).forM fun (child, f) =>
    f.check db child.name

/-- The foreign keys that refer to a table must refer to its keys. -/
def checkReferrers (db : Database) (t : Table) (concerned : ForeignKey → Bool) :
    Except Fault Unit :=
  ((db.referrers t.name).filter fun (_, f) => concerned f).forM fun (child, f) =>
    f.check db child.name

def InsertSource.isSingle : InsertSource → Bool
  | .defaults => true
  | .select (.mk (.values [_]) ..) => true
  | .select _ => false

def Shape.isNumberPlace (s : Shape) (i : Nat) : Bool :=
  i = s.numberPlace || some i = s.numberColumn

/-- Whether rows that are written to these places may take the place of others, if these keys of
theirs are new. -/
def Shape.mayReplace (s : Shape) (mode : Conflict) (places : List Nat) (keys : List Key) : Bool :=
  mode = .replace && (!keys.isEmpty || places.any s.isNumberPlace)

def InsertSource.toQuery (schema : Schema) : InsertSource → Except Fault (Option (Query × Nat))
  | .defaults => .ok none
  | .select s => do
    let q ← s.prepare schema
    return some (q.query, q.columns.length)

def insertPlaces (t : Table) (shown : String) : Option (List String) → Except Fault (List Nat)
  | none => .ok (List.range t.shape.columns.length)
  | some names => names.mapM fun name =>
    match t.shape.placeOrNumber? name with
    | some i => .ok i
    | none => .error (.tableHasNoColumn shown name)

def checkValueCount (shown : String) (columns : Option (List String)) (places values : Nat) :
    Except Fault Unit :=
  if places = values then .ok ()
  else if columns.isSome then .error (.columnListWidth values places)
  else .error (.tableWidth shown places values)

def Insertion.prepare (schema : Schema) (mode : Conflict) (table : TableName)
    (columns : Option (List String)) (source : InsertSource) (returning : List ResultColumn) :
    Except Fault Insertion := do
  let t ← table.findModifiable schema
  let places ← insertPlaces t table.shown columns
  let query ← source.toQuery schema
  match query with
  | some (_, width) => checkValueCount table.shown columns places.length width
  | none => pure ()
  let places := if query.isSome then places else []
  checkForeignKeys (← schema) t fun _ => true
  checkInsertReferrers (← schema) t
    (source.isSingle && !t.shape.mayReplace mode places t.shape.uniqueKeys)
  let returning ← returningTerms { scope := .ofTable t t.name } returning
  return { table := t.name, mode, places, source := query.map (·.1), returning }

/-- One change of an update: the value is looked up before the column. -/
def changeOf (t : Table) (n : Naming) (column : String) (e : Expr) : Except Fault (Nat × Term) := do
  let value ← n.resolve e
  match t.shape.placeOrNumber? column with
  | some i => return (i, value)
  | none => throw (.noSuchColumn column)

/-- The foreign keys of a table, and those that refer to it, as far as an update looks at them. The
keys that it changes come first, then all if its rows may take the place of others, and those that
refer to the table once more from the oldest one on. -/
def checkChanged (db : Database) (t : Table) (mode : Conflict) (changed : List Nat) :
    Except Fault Unit := do
  let referrers := db.referrers t.name
  let touches (places : List Nat) : Bool := places.any fun i =>
    changed.contains i || some i = t.shape.numberColumn && changed.any t.shape.isNumberPlace
  let refersToItself (f : ForeignKey) := sameName f.parent t.name
  let concerned := t.shape.foreignKeys.any (touches ·.places) ||
    referrers.any fun (_, f) => touches (t.shape.named f)
  let keys := if t.shape.foreignKeys.any fun f => refersToItself f && touches f.places
    then t.shape.uniqueKeys else t.shape.uniqueKeys.filter fun k => k.any changed.contains
  if concerned then
    checkForeignKeys db t fun f => refersToItself f || touches f.places
    checkReferrers db t fun f => touches (t.shape.named f)
  if t.shape.mayReplace mode changed keys then
    checkForeignKeys db t fun _ => true
    checkReferrers db t fun _ => true
  if concerned then referrers.reverse.forM fun (child, f) => f.check db child.name

def Modification.prepare (schema : Schema) (mode : Conflict) (table : TableName)
    (given : Option String) (changes : List (String × Expr)) (filter : Option Expr)
    (returning : List ResultColumn) : Except Fault Modification := do
  let t ← table.findModifiable schema
  let n : Naming := { scope := .ofTable t (given.getD t.name) }
  let changes ← changes.mapM fun (column, e) => changeOf t n column e
  let filter ← filter.mapM n.resolve
  checkChanged (← schema) t mode (changes.map (·.1))
  return { table := t.name, mode, changes := changes.reverse, filter,
           returning := ← returningTerms n returning }

def Deletion.prepare (schema : Schema) (table : TableName) (given : Option String)
    (filter : Option Expr) (returning : List ResultColumn) : Except Fault Deletion := do
  let t ← table.findModifiable schema
  let n : Naming := { scope := .ofTable t (given.getD t.name) }
  let filter ← filter.mapM n.resolve
  checkForeignKeys (← schema) t fun _ => true
  checkReferrers (← schema) t fun _ => true
  return { table := t.name, filter, returning := ← returningTerms n returning }

end QueryServer.Sql
