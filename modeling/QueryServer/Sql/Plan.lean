import QueryServer.Sql.Definition
/-!
Plans: statements that have been prepared against the tables of a store, and what they do when
they run. A plan runs on a connection of its own, so no transaction is open before it.
-/

namespace QueryServer.Sql

inductive Plan where
  | query (q : Query)
  | insert (p : Insertion)
  | modify (p : Modification)
  | delete (p : Deletion)
  | create (t : Table)
  | drop (table : String)
  | index (table : String) (i : Index)
  | dropIndex (table index : String)
  | begin (mode : TransactionMode)
  | resave
  /-- A statement that can only fail where no transaction is open. -/
  | refused (f : Fault)
  | nothing

/-- The settings that are kept in the store. -/
def isStoredSetting (name : String) : Bool :=
  ["user_version", "application_id"].any (sameName name)

/-- The plan of a statement. A setting that is not kept in the store changes nothing here; what it
does to a process is done while it is prepared. -/
def Statement.plan (schema : Schema) : Statement → Except Fault Plan
  | .select s => do return .query (← s.prepare schema).query
  | .insert mode table columns source returning => do
    return .insert (← Insertion.prepare schema mode table columns source returning)
  | .update mode table given changes filter returning => do
    return .modify (← Modification.prepare schema mode table given changes filter returning)
  | .delete table given filter returning => do
    return .delete (← Deletion.prepare schema table given filter returning)
  | .createTable head definition => do
    let db ← schema
    match head.fault? db with
    | some f => throw f
    | none =>
      if (db.table? head.table.name).isSome then return .nothing
      else return .create (← Table.define head.table.name definition)
  | .dropTable ifExists table => do
    match ← table.findDroppable schema ifExists with
    | some t => return .drop t.name
    | none => return .nothing
  | .createIndex definition => do
    match ← definition.prepare schema with
    | some (t, i) => return .index t.name i
    | none => return .nothing
  | .dropIndex ifExists index => do
    match ← index.findIndex schema ifExists with
    | some (t, i) => return .dropIndex t.name i.name
    | none => return .nothing
  | .begin mode => .ok (.begin mode)
  | .commit => .ok (.refused .nothingToCommit)
  | .rollback => .ok (.refused .nothingToRollBack)
  | .savepoint _ => .ok (.begin .deferred)
  | .release name => .ok (.refused (.noSuchSavepoint name))
  | .rollbackTo name => .ok (.refused (.noSuchSavepoint name))
  | .pragma database name value => do
    let _ ← schema
    match database.filter fun s => !sameName s "main" && !sameName s "temp" with
    | some s => throw (.unknownDatabase s)
    | none => return if value.isSome && isStoredSetting name then .resave else .nothing
  | .vacuum => .ok .resave
  | .explain s => do
    let _ ← s.plan schema
    return .nothing

structure Rights where
  readOnly : Bool := false
  /-- Another connection holds the right to write. -/
  locked : Bool := false
  deriving DecidableEq, Repr

structure Effect where
  committed : Schema
  /-- What an open transaction would commit. -/
  pending : Option Schema := none
  result : Except Fault (List Tuple)

namespace Effect

def keep (schema : Schema) (result : Except Fault (List Tuple)) : Effect where
  committed := schema
  result := result

/-- A change that is committed at once. -/
def ofChange : ChangeResult → Effect
  | .ok c => { committed := .ok c.database, result := .ok c.rows }
  | .error b => { committed := .ok b.database, result := .error b.fault }

end Effect

def Rights.writable (r : Rights) (schema : Schema) : Except Fault Database :=
  if r.readOnly then .error .readOnly
  else if r.locked then .error .locked
  else schema

def Effect.write (r : Rights) (schema : Schema) (f : Database → ChangeResult) : Effect :=
  match r.writable schema with
  | .ok db => ofChange (f db)
  | .error fault => keep schema (.error fault)

/-- Opens a transaction. One that is to write at once needs the right to. -/
def Effect.open (r : Rights) (schema : Schema) (mode : TransactionMode) : Effect :=
  let opened : Except Fault Unit :=
    match mode with
    | .deferred => .ok ()
    | _ =>
      if r.readOnly then schema.map fun _ => ()
      else (r.writable schema).map fun _ => ()
  match opened with
  | .ok () => { committed := schema, pending := some schema, result := .ok [] }
  | .error f => keep schema (.error f)

namespace Plan

def run (r : Rights) (schema : Schema) : Plan → Effect
  | query q => .keep schema <| match schema with
    | .ok db => q.rows db
    | .error _ => q.rows {}
  | insert p => .write r schema p.run
  | modify p => .write r schema p.run
  | delete p => .write r schema p.run
  | create t => .write r schema fun db => .ok { database := db.create t }
  | drop table => .write r schema fun db =>
      match db.drop table with
      | .ok db' => .ok { database := db' }
      | .error f => .error ⟨f, db⟩
  | index table i => .write r schema fun db =>
      match db.addIndex table i with
      | .ok db' => .ok { database := db' }
      | .error f => .error ⟨f, db⟩
  | dropIndex table name => .write r schema fun db => .ok { database := db.dropIndex table name }
  | begin mode => .open r schema mode
  | resave => .write r schema fun db => .ok { database := db }
  | refused f => .keep schema (.error f)
  | nothing => .keep schema (.ok [])

/-- Plans of statements that open a transaction and take the right to write at once. -/
def writesAtOnce : Plan → Bool
  | begin mode => mode ≠ .deferred
  | _ => false

end Plan
end QueryServer.Sql
