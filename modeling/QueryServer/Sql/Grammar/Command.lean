import QueryServer.Sql.Grammar.Definition
import QueryServer.Sql.Grammar.Selection
/-!
Whole statements, and the statements of a source one after another.
-/

namespace QueryServer.Sql.Grammar

def conflict : Grammar Conflict := do
  if ← keyword? .OR then
    if ← keyword? .IGNORE then return .ignore
    else if ← keyword? .REPLACE then return .replace
    else if ← keyword? .ABORT then return .abort
    else if ← keyword? .FAIL then return .fail
    else do
      keyword .ROLLBACK
      return .rollback
  else return .abort

def returning : Grammar (List ResultColumn) := do
  if ← keyword? .RETURNING then commaSeparated resultColumn else return []

def insertInto (c : Conflict) : Grammar Statement := do
  keyword .INTO
  let table ← tableName
  let _ ← clause? .AS name
  let columns ← if ← atSymbol .open then some <$> nameList else pure none
  let source ←
    if ← keyword? .DEFAULT then do
      keyword .VALUES
      pure InsertSource.defaults
    else InsertSource.select <$> select
  return .insert c table columns source (← returning)

def assignment : Grammar (String × Expr) := do
  let column ← name
  symbol .equal
  return (column, ← expr)

def update : Grammar Statement := do
  let c ← conflict
  let table ← tableName
  let given ← clause? .AS name
  keyword .SET
  let changes ← commaSeparated assignment
  let filter ← clause? .WHERE expr
  return .update c table given changes filter (← returning)

def delete : Grammar Statement := do
  keyword .FROM
  let table ← tableName
  let given ← clause? .AS name
  let filter ← clause? .WHERE expr
  return .delete table given filter (← returning)

def ifExists : Grammar Bool := do
  if ← keyword? .IF then
    keyword .EXISTS
    return true
  else return false

def drop : Grammar Statement := do
  if ← keyword? .INDEX then
    let ifExists ← ifExists
    return .dropIndex ifExists (← tableName)
  else
    keyword .TABLE
    let ifExists ← ifExists
    return .dropTable ifExists (← tableName)

/-- The word for a transaction and its name, which may both be missing. -/
def transaction : Grammar Unit := do
  if ← keyword? .TRANSACTION then let _ ← name?

/-- At most one word that tells when a transaction takes the right to write. -/
def transactionMode : Grammar TransactionMode := do
  if ← keyword? .IMMEDIATE then return .immediate
  else if ← keyword? .EXCLUSIVE then return .exclusive
  else do
    let _ ← keyword? .DEFERRED
    return .deferred

def beginTransaction : Grammar Statement := do
  let mode ← transactionMode
  transaction
  return .begin mode

def rollback : Grammar Statement := do
  transaction
  if ← keyword? .TO then
    let _ ← keyword? .SAVEPOINT
    return .rollbackTo (← name)
  else return .rollback

def settingValue : Grammar String := do
  match ← peek with
  | some (.keyword k) =>
    if k = .ON ∨ k = .DELETE ∨ k = .DEFAULT then return String.ofList (← take).text
    else name
  | some (.symbol .minus) =>
    signedNumber
    return "-"
  | some (.symbol .plus) =>
    signedNumber
    return "+"
  | some (.integer digits) =>
    let _ ← take
    return String.ofList digits
  | some (.hexadecimal digits) =>
    let _ ← take
    return "0x" ++ String.ofList digits
  | some (.decimal text) =>
    let _ ← take
    return String.ofList text
  | _ => name

def pragma : Grammar Statement := do
  let table ← tableName
  if ← symbol? .equal then return .pragma table.schema table.name (some (← settingValue))
  else if ← symbol? .open then
    let value ← settingValue
    symbol .close
    return .pragma table.schema table.name (some value)
  else return .pragma table.schema table.name none

/-- A statement that begins with this keyword, which has been taken. Views, triggers, changes of
tables that exist, attached databases and all that serves the planner are left out. -/
def statementAfter : Keyword → Grammar Statement
  | .INSERT => do insertInto (← conflict)
  | .REPLACE => insertInto .replace
  | .UPDATE => update
  | .DELETE => delete
  | .CREATE => create
  | .DROP => drop
  | .BEGIN => beginTransaction
  | .COMMIT => do
    transaction
    return .commit
  | .END => do
    transaction
    return .commit
  | .ROLLBACK => rollback
  | .SAVEPOINT => do return .savepoint (← name)
  | .RELEASE => do
    let _ ← keyword? .SAVEPOINT
    return .release (← name)
  | .PRAGMA => pragma
  | .VACUUM => do
    let _ ← name?
    return .vacuum
  | _ => stuck

def plainStatement : Grammar Statement := do
  match ← peek with
  | some (.keyword .SELECT) => return .select (← select)
  | some (.keyword .VALUES) => return .select (← select)
  | some (.keyword .WITH) => return .select (← select)
  | some (.keyword k) =>
    if [.INSERT, .REPLACE, .UPDATE, .DELETE, .CREATE, .DROP, .BEGIN, .COMMIT, .END, .ROLLBACK,
        .SAVEPOINT, .RELEASE, .PRAGMA, .VACUUM].contains k then
      let _ ← take
      statementAfter k
    else stuck
  | _ => stuck

def statement : Grammar Statement := do
  if ← keyword? .EXPLAIN then
    if ← keyword? .QUERY then keyword .PLAN
    return .explain (← plainStatement)
  else plainStatement

end Grammar

/-- A statement with the lexemes that it was read from. -/
structure Parsed where
  statement : Statement
  lexemes : List Lexeme

/-- Lexemes from the first one on that is no semicolon. -/
def skipEmpty (ls : List Lexeme) : List Lexeme :=
  ls.dropWhile (·.token = .symbol .semicolon)

/-- The first statement of a source and what follows it; nothing if there is none. A statement
ends at a semicolon or at the end of the source. -/
def Parsed.next? (ls : List Lexeme) : Except Unparsed (Option (Parsed × List Lexeme)) :=
  match skipEmpty ls with
  | [] => .ok none
  | start =>
    match Grammar.statement start with
    | .error u => .error u
    | .ok (s, rest) =>
      match rest with
      | [] => .ok (some (⟨s, start⟩, []))
      | l :: after =>
        if l.token = .symbol .semicolon then
          .ok (some (⟨s, start.take (start.length - rest.length)⟩, after))
        else .error ⟨rest, none⟩

end QueryServer.Sql
