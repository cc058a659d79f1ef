import QueryServer.Sql.Lexer
import QueryServer.Sql.Reference
/-!
From expressions to terms: names are looked up in the columns of one source of rows. Looking up
goes on after an unknown function, so of several faults in an expression the last one is
reported; an unknown column ends it.
-/

namespace QueryServer.Sql

structure Scope where
  label : Option String := none
  columns : List (String × Affinity) := []
  numbered : Bool := false
  numberColumn : Option Nat := none

namespace Scope

def ofTable (t : Table) (label : String) : Scope where
  label := some label
  columns := t.shape.columns.map fun c => (c.name, c.affinity)
  numbered := true
  numberColumn := t.shape.numberColumn

def column (s : Scope) (i : Nat) : Term :=
  .column i (((s.columns[i]?).map (·.2)).getD .blob)

/-- The column with a name, or the number of the row. -/
def find? (s : Scope) (name : String) : Option Term :=
  match s.columns.findIdx? fun c => sameName c.1 name with
  | some i => some (s.column i)
  | none =>
    if s.numbered && Shape.isNumberName name then some (.column s.columns.length .integer)
    else none

def all (s : Scope) : List (Term × String) :=
  s.columns.zipIdx.map fun ((name, affinity), i) => (.column i affinity, name)

end Scope

structure Naming where
  scope : Scope := {}
  /-- Names of results, which stand behind those of columns. -/
  aliases : List (String × Term) := []
  aggregates : Bool := false

/-- A look-up with the fault that was met last. -/
abbrev Resolve := StateT (Option Fault) (Except Fault)

namespace Resolve

/-- A fault after which the look-up goes on. -/
def note (f : Fault) : Resolve Unit := set (some f)

def finish {α : Type} (r : Resolve α) : Except Fault α :=
  match r.run none with
  | .error f => .error f
  | .ok (_, some f) => .error f
  | .ok (a, none) => .ok a

end Resolve

def decimalValue (negative : Bool) (digits : List Char) : Datum :=
  let n : Int := Numeric.naturalOf digits
  let n := if negative then -n else n
  if Numeric.fits n then .integer (Int64.ofInt n)
  else .real (Numeric.readReal (if negative then '-' :: digits else digits)).1

/-- The integer of hexadecimal digits, which are the bits of its two's complement. -/
def hexadecimalValue? (digits : List Char) : Option Int64 :=
  let n := digits.foldl (fun n c => n * 16 + Lexeme.hexValue c) 0
  if n < UInt64.size then some (Int64.ofInt n) else none

def negatedLiteral? : Expr → Option (Except Fault Datum)
  | .integer digits => some (.ok (decimalValue true digits))
  | .literal (.real x) => some (.ok (.real (.ofMagnitude (!x.isNegative) x.magnitude)))
  | .hexadecimal digits text =>
    let tooLarge : Fault := .literalTooLarge ("-" ++ String.ofList text)
    some <| match hexadecimalValue? digits with
      | some n => if n.toInt = Numeric.minInt then .error tooLarge else .ok (.integer (-n))
      | none => .error tooLarge
  | _ => none

/-- A literal, or a fault that does not end the look-up. -/
def literalOrNote : Except Fault Datum → Resolve Term
  | .ok d => return .literal d
  | .error f => do
    Resolve.note f
    return .literal .null

namespace Naming

/-- What a name stands for: a column, a result, a text if it is in double quotes, or a truth
value. -/
def lookup (n : Naming) (name : String) (quoting : Quoting) : Except Fault Term :=
  match n.scope.find? name with
  | some t => .ok t
  | none =>
    match n.aliases.find? fun a => sameName a.1 name with
    | some (_, t) => .ok t
    | none =>
      if quoting = .double then .ok (.literal (.ofString name))
      else if quoting = .bare ∧ sameName name "true" then .ok (.literal (.ofBool true))
      else if quoting = .bare ∧ sameName name "false" then .ok (.literal (.ofBool false))
      else .error (.noSuchColumn name)

def lookupIn (n : Naming) (schema : Option String) (table column : String) : Except Fault Term :=
  let shown := (schema.map (· ++ ".")).getD "" ++ table ++ "." ++ column
  if n.scope.label.any (sameName table) && schema.all (sameName "main") then
    match n.scope.find? column with
    | some t => .ok t
    | none => .error (.noSuchColumn shown)
  else .error (.noSuchColumn shown)

mutual

def term (n : Naming) : Expr → Resolve Term
  | .literal d => return .literal d
  | .integer digits => return .literal (decimalValue false digits)
  | .hexadecimal digits text => literalOrNote <|
      match hexadecimalValue? digits with
      | some v => .ok (.integer v)
      | none => .error (.literalTooLarge (String.ofList text))
  | .name text quoting => n.lookup text quoting
  | .qualified schema table column => n.lookupIn schema table column
  | .parameter _ => return .literal .null
  | .unary .negate e =>
    match negatedLiteral? e with
    | some d => literalOrNote d
    | none => do return .negate (← n.term e)
  | .unary .plus e => do return .plain (← n.term e)
  | .unary .bitNot e => do return .bitNot (← n.term e)
  | .unary .not e => do return .not (← n.term e)
  | .binary op a b => do
    let x ← n.term a
    let y ← n.term b
    return match op with
      | .or => .or x y
      | .and => .and x y
      | .is => .sameness x y
      | .isNot => .not (.sameness x y)
      | .compare c => .comparison c x y
      | .bits o => .bits o x y
      | .arithmetic o => .arithmetic o x y
      | .concat => .concat x y
  | .isNull e => do return .isNull (← n.term e)
  | .choose c a b => do
    let condition ← n.term c
    let yes ← n.term a
    return .choose condition yes (← n.term b)
  | .cast e type => do
    return .cast (if type.isEmpty then .numeric else .ofType type) (← n.term e)
  | .call function distinct args => do
    match Callable.find function args.length with
    | .error f =>
      Resolve.note f
      let _ ← n.terms args
      return .literal .null
    | .ok (.scalar f) => return .call f (← n.terms args)
    | .ok (.aggregate f) =>
      if !n.aggregates then Resolve.note (.aggregateRefused function)
      let ts ← Naming.terms { n with aggregates := false } args
      return .aggregate f distinct (ts.headD (.literal (.ofBool true))) function
  | .callStar function => do
    match Callable.find function 0 with
    | .error f =>
      Resolve.note f
      return .literal .null
    | .ok (.scalar f) => return .call f []
    | .ok (.aggregate f) =>
      if !n.aggregates then Resolve.note (.aggregateRefused function)
      return .aggregate f false (.literal (.ofBool true)) function
  | .tuple items => do
    let _ ← n.terms items
    throw .tupleMisused

def terms (n : Naming) : List Expr → Resolve (List Term)
  | [] => return []
  | e :: es => do
    let t ← n.term e
    return t :: (← n.terms es)

end

def resolve (n : Naming) (e : Expr) : Except Fault Term :=
  (n.term e).finish

def resolveAll (n : Naming) (es : List Expr) : Except Fault (List Term) :=
  es.mapM n.resolve

end Naming
end QueryServer.Sql
