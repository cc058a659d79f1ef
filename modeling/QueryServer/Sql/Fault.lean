import QueryServer.Sql.Statement
/-!
Why the store refuses a command, and how it says so.
-/

namespace QueryServer.Sql

inductive Fault where
  /-- Characters that form no token. -/
  | unrecognized (text : String)
  /-- A token that cannot continue the statement. -/
  | unexpected (text : String)
  /-- The source ends inside a statement. -/
  | incomplete
  | severalStatements
  /-- The number of values that the statement waits for; it gets none. -/
  | parameters (needed : Nat)
  | parameterNumber
  | noSuchTable (name : String)
  | noSuchColumn (name : String)
  | noSuchFunction (name : String)
  | noSuchSavepoint (name : String)
  | unknownDatabase (name : String)
  | wrongArguments (function : String)
  /-- A function of whole rows where there are no rows. -/
  | aggregateRefused (function : String)
  /-- A function of whole rows in a condition on single rows. -/
  | aggregateMisplaced (function : String)
  | tupleMisused
  | literalTooLarge (text : String)
  | escapeLength
  | noTablesSpecified
  | orderOutOfRange (term columns : Nat)
  | orderUnmatched (term : Nat)
  | compoundWidths (op : String)
  | valueWidths
  | clauseMisplaced (clause : LastClause) (before : String)
  | tableWidth (table : String) (columns values : Nat)
  | columnListWidth (values columns : Nat)
  | definitionWidth (table : String) (values columns : Nat)
  | tableHasNoColumn (table column : String)
  | tableExists (table : String)
  | indexExists (index : String)
  /-- The name of a table that is to be made is that of an index. -/
  | indexNamed (index : String)
  /-- The name of an index that is to be made is that of a table. -/
  | tableNamed (table : String)
  | reservedName (table : String)
  | duplicateColumn (column : String)
  | severalPrimaryKeys (table : String)
  | autoincrementNotInteger
  | foreignKeyTooWide (column parent : String)
  | foreignKeyWidths
  | unknownForeignKeyColumn (column : String)
  | foreignKeyMismatch (child parent : String)
  | notModifiable (table : String)
  | notDroppable (table : String)
  | temporaryIndex (table : String)
  | notIndexable (table : String)
  | noSuchIndex (name : String)
  | indexOfKey
  | uniqueViolated (table : String) (columns : List String)
  | notNullViolated (table column : String)
  | checkViolated (label : String)
  | foreignKeyViolated
  | datatypeMismatch
  | integerOverflow
  | tooBig
  | full
  | nothingToCommit
  | nothingToRollBack
  | locked
  | readOnly
  | notADatabase
  | noMemory
  deriving DecidableEq, Repr

namespace Fault

/-- Whether a row was refused because of what a table demands of single rows. -/
def isConstraint : Fault → Bool
  | .uniqueViolated .. | .notNullViolated .. | .checkViolated _ => true
  | _ => false

def ordinalEnding (n : Nat) : String :=
  if n % 100 / 10 = 1 then "th"
  else match n % 10 with
    | 1 => "st"
    | 2 => "nd"
    | 3 => "rd"
    | _ => "th"

def columnOf (table column : String) : String :=
  table ++ "." ++ column

def message : Fault → String
  | unrecognized text => "unrecognized token: \"" ++ text ++ "\""
  | unexpected text => "near \"" ++ text ++ "\": syntax error"
  | incomplete => "incomplete input"
  | severalStatements => "Multiple statements provided"
  | parameters needed =>
    s!"Wrong number of parameters passed to query. Got 0, needed {needed}"
  | parameterNumber => "variable number must be between ?1 and ?32766"
  | noSuchTable name => "no such table: " ++ name
  | noSuchColumn name => "no such column: " ++ name
  | noSuchFunction name => "no such function: " ++ name
  | noSuchSavepoint name => "no such savepoint: " ++ name
  | unknownDatabase name => "unknown database " ++ name
  | wrongArguments function => s!"wrong number of arguments to function {function}()"
  | aggregateRefused function => s!"misuse of aggregate function {function}()"
  | aggregateMisplaced function => s!"misuse of aggregate: {function}()"
  | tupleMisused => "row value misused"
  | literalTooLarge text => "hex literal too big: " ++ text
  | escapeLength => "ESCAPE expression must be a single character"
  | noTablesSpecified => "no tables specified"
  | orderOutOfRange term columns =>
    s!"{term}{ordinalEnding term} ORDER BY term out of range - should be between 1 and {columns}"
  | orderUnmatched term =>
    s!"{term}{ordinalEnding term} ORDER BY term does not match any column in the result set"
  | compoundWidths op =>
    s!"SELECTs to the left and right of {op} do not have the same number of result columns"
  | valueWidths => "all VALUES must have the same number of terms"
  | clauseMisplaced .order op => s!"ORDER BY clause should come after {op} not before"
  | clauseMisplaced .limit op => s!"LIMIT clause should come after {op} not before"
  | tableWidth table columns values =>
    s!"table {table} has {columns} columns but {values} values were supplied"
  | columnListWidth values columns => s!"{values} values for {columns} columns"
  | definitionWidth table values columns =>
    s!"table {table} has {values} values for {columns} columns"
  | tableHasNoColumn table column => s!"table {table} has no column named {column}"
  | tableExists table => s!"table {table} already exists"
  | indexExists index => s!"index {index} already exists"
  | indexNamed index => s!"there is already an index named {index}"
  | tableNamed table => s!"there is already a table named {table}"
  | reservedName table => "object name reserved for internal use: " ++ table
  | duplicateColumn column => "duplicate column name: " ++ column
  | severalPrimaryKeys table => "table \"" ++ table ++ "\" has more than one primary key"
  | autoincrementNotInteger => "AUTOINCREMENT is only allowed on an INTEGER PRIMARY KEY"
  | foreignKeyTooWide column parent =>
    s!"foreign key on {column} should reference only one column of table {parent}"
  | foreignKeyWidths =>
    "number of columns in foreign key does not match the number of columns in the referenced table"
  | unknownForeignKeyColumn column =>
    "unknown column \"" ++ column ++ "\" in foreign key definition"
  | foreignKeyMismatch child parent =>
    "foreign key mismatch - \"" ++ child ++ "\" referencing \"" ++ parent ++ "\""
  | notModifiable table => s!"table {table} may not be modified"
  | notDroppable table => s!"table {table} may not be dropped"
  | temporaryIndex table => "cannot create a TEMP index on non-TEMP table \"" ++ table ++ "\""
  | notIndexable table => s!"table {table} may not be indexed"
  | noSuchIndex name => "no such index: " ++ name
  | indexOfKey => "index associated with UNIQUE or PRIMARY KEY constraint cannot be dropped"
  | uniqueViolated table columns =>
    "UNIQUE constraint failed: " ++ ", ".intercalate (columns.map (columnOf table))
  | notNullViolated table column => "NOT NULL constraint failed: " ++ columnOf table column
  | checkViolated label => "CHECK constraint failed: " ++ label
  | foreignKeyViolated => "FOREIGN KEY constraint failed"
  | datatypeMismatch => "datatype mismatch"
  | integerOverflow => "integer overflow"
  | tooBig => "string or blob too big"
  | full => "database or disk is full"
  | nothingToCommit => "cannot commit - no transaction is active"
  | nothingToRollBack => "cannot rollback - no transaction is active"
  | locked => "database is locked"
  | readOnly => "attempt to write a readonly database"
  | notADatabase => "file is not a database"
  | noMemory => "out of memory"

end Fault
end QueryServer.Sql
