import QueryServer.Sql.Lexer
import QueryServer.Sql.Statement
/-!
Productions of the grammar as functions that take lexemes from the front of a list. They look at
one lexeme at a time, so a production fails at the first lexeme that cannot continue the
statement.
-/

namespace QueryServer.Sql

/-- The lexemes at which a statement cannot go on; none are left where the source ended too soon. -/
structure Unparsed where
  rest : List Lexeme
  /-- The table whose definition had been opened by then. -/
  opened : Option TableHead := none
  deriving DecidableEq, Repr

/-- A production. -/
abbrev Grammar := StateT (List Lexeme) (Except Unparsed)

namespace Grammar

def stuck {α : Type} : Grammar α := fun ls => .error ⟨ls, none⟩

/-- The next token, which stays. -/
def peek : Grammar (Option Token) := fun ls => .ok (ls.head?.map (·.token), ls)

def remaining : Grammar (List Lexeme) := fun ls => .ok (ls, ls)

def take : Grammar Lexeme := fun ls =>
  match ls with
  | l :: rest => .ok (l, rest)
  | [] => .error ⟨[], none⟩

/-- Takes the next lexeme if it is this token. -/
def token? (t : Token) : Grammar Bool := fun ls =>
  match ls with
  | l :: rest => if l.token = t then .ok (true, rest) else .ok (false, ls)
  | [] => .ok (false, ls)

def token (t : Token) : Grammar Unit := do
  if ← token? t then pure () else stuck

def keyword? (k : Keyword) : Grammar Bool := token? (.keyword k)

def keyword (k : Keyword) : Grammar Unit := token (.keyword k)

def symbol? (s : Symbol) : Grammar Bool := token? (.symbol s)

def symbol (s : Symbol) : Grammar Unit := token (.symbol s)

def atKeyword (k : Keyword) : Grammar Bool := do return (← peek) = some (.keyword k)

def atSymbol (s : Symbol) : Grammar Bool := do return (← peek) = some (.symbol s)

/-- The name that a lexeme is where an alias or a type may stand. -/
def bareNameOf? (l : Lexeme) : Option String :=
  match l.token with
  | .name text _ => some text
  | .string text => some text
  | .keyword k => if k.canBeName then some (String.ofList l.text) else none
  | _ => none

/-- The name that a lexeme is where a table or a column is named. -/
def nameOf? (l : Lexeme) : Option String :=
  match l.token with
  | .keyword k =>
    if k.canBeName || k.isJoin || k = .INDEXED then some (String.ofList l.text) else none
  | _ => bareNameOf? l

def named? (f : Lexeme → Option String) : Grammar (Option String) := fun ls =>
  match ls with
  | l :: rest =>
    match f l with
    | some name => .ok (some name, rest)
    | none => .ok (none, ls)
  | [] => .ok (none, ls)

def name? : Grammar (Option String) := named? nameOf?

def bareName? : Grammar (Option String) := named? bareNameOf?

def name : Grammar String := do
  match ← name? with
  | some n => return n
  | none => stuck

def clause? {α : Type} (k : Keyword) (g : Grammar α) : Grammar (Option α) := do
  if ← keyword? k then return some (← g) else return none

def optionalAlias : Grammar (Option String) := do
  if ← keyword? .AS then return some (← name) else bareName?

def tableName : Grammar TableName := do
  let first ← name
  if ← symbol? .dot then return { schema := some first, name := ← name }
  else return { name := first }

/-- The items of a list that has begun, separated by commas. `bound` limits their number. -/
def moreItems {α : Type} (item : Grammar α) : Nat → List α → Grammar (List α)
  | 0, done => return done.reverse
  | n + 1, done => do
    if ← symbol? .comma then moreItems item n ((← item) :: done) else return done.reverse

def commaSeparated {α : Type} (item : Grammar α) : Grammar (List α) := do
  let first ← item
  moreItems item (← remaining).length [first]

def nameList : Grammar (List String) := do
  symbol .open
  let names ← commaSeparated name
  symbol .close
  return names

def optionalNameList : Grammar (List String) := do
  if ← atSymbol .open then nameList else return []

end Grammar
end QueryServer.Sql
