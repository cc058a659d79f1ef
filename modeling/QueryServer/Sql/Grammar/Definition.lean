import QueryServer.Sql.Grammar.Expression
/-!
Definitions of tables.
-/

namespace QueryServer.Sql.Grammar

def trimmed (cs : List Char) : List Char :=
  ((cs.dropWhile Lexeme.isSpace).reverse.dropWhile Lexeme.isSpace).reverse

def sourceBetween (start finish : List Lexeme) : List Char :=
  match start, finish with
  | a :: _, b :: _ => a.textUntil b
  | a :: _, [] => a.text ++ a.rest
  | [], _ => []

def checkCondition : Grammar (Expr × String) := do
  symbol .open
  let start ← remaining
  let e ← expr
  let finish ← remaining
  symbol .close
  return (e, String.ofList (trimmed (sourceBetween start finish)))

/-- The changes that may touch rows to which others refer. -/
def referredChange : Grammar Unit := do
  if ← keyword? .DELETE then return
  else if ← keyword? .UPDATE then return
  else keyword .INSERT

/-- What a foreign key says about matching, which means nothing, and about changes of the rows that
it refers to, for which nothing is done. -/
def referenceClauses : Nat → Grammar Unit
  | 0 => return
  | n + 1 => do
    if ← keyword? .MATCH then
      let _ ← name
      referenceClauses n
    else if ← keyword? .ON then
      referredChange
      keyword .NO
      keyword .ACTION
      referenceClauses n
    else return

/-- The first word as it is written, with its quotes. -/
def writtenFirst (ls : List Lexeme) : String :=
  String.ofList ((ls.head?.map (·.text)).getD [])

def foreignTable : Grammar Reference := do
  keyword .REFERENCES
  let written := writtenFirst (← remaining)
  let table ← name
  let columns ← optionalNameList
  referenceClauses (← remaining).length
  return { table, written, columns }

/-- What stands after `DEFERRABLE`: whether orphans are looked for at the end. -/
def initially : Grammar Bool := do
  if ← keyword? .INITIALLY then
    if ← keyword? .DEFERRED then return true
    else
      keyword .IMMEDIATE
      return false
  else return false

def deferral? : Grammar (Option Bool) := do
  if ← keyword? .NOT then
    keyword .DEFERRABLE
    let _ ← initially
    return some false
  else if ← keyword? .DEFERRABLE then return some (← initially)
  else return none

/-- The value of a word: a truth value if it is bare and names one, else a text. -/
def wordValue (t : Token) (word : String) : Datum :=
  match t with
  | .name _ .bare =>
    if sameName word "true" then .ofBool true
    else if sameName word "false" then .ofBool false
    else .ofString word
  | _ => .ofString word

def defaultValue : Grammar Expr := do
  if ← symbol? .open then
    let e ← expr
    symbol .close
    return e
  match ← peek with
  | some (.symbol .plus) => operand (exprFuel (← remaining).length)
  | some (.symbol .minus) => operand (exprFuel (← remaining).length)
  | some (.hexadecimal _) => operand (exprFuel (← remaining).length)
  | some t =>
    match literalOf? t with
    | some e => do
      let _ ← take
      return e
    | none => return .literal (wordValue t (← name))
  | none => stuck

/-- One constraint of a column, with the name before it if there is one. That a constraint says
itself what becomes of a row that violates it is left out. -/
def columnConstraint? (label : Option String) : Grammar (Option ColumnConstraint) := do
  match ← peek with
  | some (.keyword .PRIMARY) =>
    keyword .PRIMARY
    keyword .KEY
    let _ ← keyword? .ASC
    return some (.primaryKey (← keyword? .AUTOINCREMENT))
  | some (.keyword .NOT) =>
    keyword .NOT
    if ← keyword? .DEFERRABLE then
      let _ ← initially
      return some (.deferred false)
    else
      keyword .NULL
      return some .notNull
  | some (.keyword .DEFERRABLE) =>
    keyword .DEFERRABLE
    return some (.deferred (← initially))
  | some (.keyword .UNIQUE) =>
    keyword .UNIQUE
    return some .unique
  | some (.keyword .CHECK) =>
    keyword .CHECK
    let (e, text) ← checkCondition
    return some (.check e (label.getD text))
  | some (.keyword .DEFAULT) =>
    keyword .DEFAULT
    return some (.default (← defaultValue))
  | some (.keyword .REFERENCES) => return some (.references (← foreignTable))
  | _ => return none

def constraintLabel? : Grammar (Option String) := clause? .CONSTRAINT name

def columnConstraints : Nat → Grammar (List ColumnConstraint)
  | 0 => return []
  | n + 1 => do
    let label ← constraintLabel?
    match ← columnConstraint? label with
    | some c => return c :: (← columnConstraints n)
    | none => if label.isSome then columnConstraints n else return []

def column : Grammar ColumnDefinition := do
  let columnName ← name
  let type ← declaredType
  let constraints ← columnConstraints (← remaining).length
  return { name := columnName, type, constraints }

def tableConstraint? (label : Option String) : Grammar (Option TableConstraint) := do
  match ← peek with
  | some (.keyword .PRIMARY) =>
    keyword .PRIMARY
    keyword .KEY
    symbol .open
    let columns ← commaSeparated name
    let auto ← keyword? .AUTOINCREMENT
    symbol .close
    return some (.primaryKey columns auto)
  | some (.keyword .UNIQUE) =>
    keyword .UNIQUE
    return some (.unique (← nameList))
  | some (.keyword .CHECK) =>
    keyword .CHECK
    let (e, text) ← checkCondition
    return some (.check e (label.getD text))
  | some (.keyword .FOREIGN) =>
    keyword .FOREIGN
    keyword .KEY
    let columns ← nameList
    let table ← foreignTable
    return some (.foreignKey columns table ((← deferral?).getD false))
  | _ => return none

/-- Constraints of a table, with or without commas between them. -/
def tableConstraints : Nat → Grammar (List TableConstraint)
  | 0 => return []
  | n + 1 => do
    let label ← constraintLabel?
    match ← tableConstraint? label with
    | some c =>
      let _ ← symbol? .comma
      return c :: (← tableConstraints n)
    | none => if label.isSome then tableConstraints n else return []

def atTableConstraint : Grammar Bool := do
  match ← peek with
  | some (.keyword k) => return [.CONSTRAINT, .PRIMARY, .UNIQUE, .CHECK, .FOREIGN].contains k
  | _ => return false

/-- The columns of a table from the second one on, then its constraints. -/
def moreColumns : Nat → List ColumnDefinition →
    Grammar (List ColumnDefinition × List TableConstraint)
  | 0, _ => stuck
  | n + 1, done => do
    if ← symbol? .comma then
      if ← atTableConstraint then
        return (done.reverse, ← tableConstraints (n + 1))
      else moreColumns n ((← column) :: done)
    else return (done.reverse, [])

/-- Marks the failures of a production as lying inside the definition of a table. -/
def opening {α : Type} (head : TableHead) (g : Grammar α) : Grammar α := fun ls =>
  (g ls).mapError fun u => { u with opened := some head }

def ifNotExists : Grammar Bool := do
  if ← keyword? .IF then
    keyword .NOT
    keyword .EXISTS
    return true
  else return false

/-- A name with the source from its last part on. -/
def nameAndSource : Grammar (TableName × List Lexeme) := do
  let start ← remaining
  let table ← tableName
  return (table, start.drop (start.length - (← remaining).length - 1))

def createTable : Grammar Statement := do
  keyword .TABLE
  let ifNotExists ← ifNotExists
  let (table, start) ← nameAndSource
  let head : TableHead := { ifNotExists, table, written := writtenFirst start }
  if !(← atSymbol .open) then stuck
  opening head do
    symbol .open
    let first ← column
    let (columns, constraints) ← moreColumns (← remaining).length [first]
    let finish ← remaining
    symbol .close
    let text := match start, finish with
      | a :: _, b :: _ => a.textThrough b
      | _, _ => []
    return .createTable head { columns, constraints, text := String.ofList text }

/-- A column of an index. -/
def indexedColumn : Grammar String := do
  let column ← name
  let _ ← keyword? .ASC
  return column

def createIndex : Grammar Statement := do
  let unique ← keyword? .UNIQUE
  keyword .INDEX
  let ifNotExists ← ifNotExists
  let (index, start) ← nameAndSource
  keyword .ON
  let table ← name
  symbol .open
  let columns ← commaSeparated indexedColumn
  symbol .close
  let text := String.ofList (sourceBetween start (← remaining))
  return .createIndex { unique, ifNotExists, index, table, columns, text }

def create : Grammar Statement := do
  if ← atKeyword .TABLE then createTable else createIndex

end QueryServer.Sql.Grammar
