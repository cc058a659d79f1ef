import QueryServer.Sql.Function
/-!
Terms: expressions whose names have been resolved to places in a row. A term has a value in a row
and, where it sums up rows, in a list of them.
-/

namespace QueryServer.Sql

inductive Term where
  | literal (d : Datum)
  /-- The value at a place of the row, with the affinity of its column. -/
  | column (place : Nat) (affinity : Affinity)
  /-- The same value, which no longer stands for a column. -/
  | plain (t : Term)
  | negate (t : Term)
  | bitNot (t : Term)
  | not (t : Term)
  | isNull (t : Term)
  | and (a b : Term)
  | or (a b : Term)
  | compare (op : Comparison) (affinity : Affinity) (a b : Term)
  /-- Equality that holds between nulls too. -/
  | same (affinity : Affinity) (a b : Term)
  | arithmetic (op : Arithmetic) (a b : Term)
  | bits (op : BitOp) (a b : Term)
  | concat (a b : Term)
  | choose (condition yes no : Term)
  | cast (affinity : Affinity) (t : Term)
  | call (f : Scalar) (args : List Term)
  /-- A function of all rows, with the name it was called by. -/
  | aggregate (f : Aggregate) (distinct : Bool) (arg : Term) (name : String)
  deriving Repr, Inhabited

namespace Term

/-- The affinity that a term has by itself. -/
def affinity? : Term → Option Affinity
  | column _ a => some a
  | cast a _ => some a
  | _ => none

/-- A comparison under the affinity that its sides ask for. -/
def comparison (op : Comparison) (a b : Term) : Term :=
  compare op (.ofComparison a.affinity? b.affinity?) a b

/-- An equality between nulls too, under the affinity that its sides ask for. -/
def sameness (a b : Term) : Term :=
  same (.ofComparison a.affinity? b.affinity?) a b

mutual

def aggregates : Term → List (Aggregate × Term × String)
  | literal _ => []
  | column _ _ => []
  | plain t => t.aggregates
  | negate t => t.aggregates
  | bitNot t => t.aggregates
  | not t => t.aggregates
  | isNull t => t.aggregates
  | and a b => a.aggregates ++ b.aggregates
  | or a b => a.aggregates ++ b.aggregates
  | compare _ _ a b => a.aggregates ++ b.aggregates
  | same _ a b => a.aggregates ++ b.aggregates
  | arithmetic _ a b => a.aggregates ++ b.aggregates
  | bits _ a b => a.aggregates ++ b.aggregates
  | concat a b => a.aggregates ++ b.aggregates
  | choose c a b => c.aggregates ++ a.aggregates ++ b.aggregates
  | cast _ t => t.aggregates
  | call _ ts => aggregatesOfAll ts
  | aggregate f _ arg name => [(f, arg, name)]

def aggregatesOfAll : List Term → List (Aggregate × Term × String)
  | [] => []
  | t :: ts => t.aggregates ++ aggregatesOfAll ts

end

mutual

def places : Term → List Nat
  | literal _ => []
  | column i _ => [i]
  | plain t => t.places
  | negate t => t.places
  | bitNot t => t.places
  | not t => t.places
  | isNull t => t.places
  | and a b => a.places ++ b.places
  | or a b => a.places ++ b.places
  | compare _ _ a b => a.places ++ b.places
  | same _ a b => a.places ++ b.places
  | arithmetic _ a b => a.places ++ b.places
  | bits _ a b => a.places ++ b.places
  | concat a b => a.places ++ b.places
  | choose c a b => c.places ++ a.places ++ b.places
  | cast _ t => t.places
  | call _ ts => placesOfAll ts
  | aggregate _ _ arg _ => arg.places

def placesOfAll : List Term → List Nat
  | [] => []
  | t :: ts => t.places ++ placesOfAll ts

end

mutual

/-- The value of a term in a row; `rows` are what functions of all rows range over. -/
def eval (rows : List Tuple) (row : Tuple) : Term → Except Fault Datum
  | literal d => .ok d
  | column i _ => .ok (row.getD i .null)
  | plain t => t.eval rows row
  | negate t => do return Arithmetic.apply .subtract (.integer 0) (← t.eval rows row)
  | bitNot t => do return (← t.eval rows row).complement
  | not t => do return (← t.eval rows row).inverted
  | isNull t => do return .ofBool (← t.eval rows row).isNull
  | and a b => do
    let x ← a.eval rows row
    if x.truth? = some false then return .ofBool false else return x.both (← b.eval rows row)
  | or a b => do
    let x ← a.eval rows row
    if x.truth? = some true then return .ofBool true else return x.either (← b.eval rows row)
  | compare op aff a b => do return .compare op aff (← a.eval rows row) (← b.eval rows row)
  | same aff a b => do return .ofBool (Datum.same aff (← a.eval rows row) (← b.eval rows row))
  | arithmetic op a b => do return op.apply (← a.eval rows row) (← b.eval rows row)
  | bits op a b => do return op.apply (← a.eval rows row) (← b.eval rows row)
  | concat a b => do return (← a.eval rows row).concat (← b.eval rows row)
  | choose c a b => do
    if (← c.eval rows row).truth? = some true then a.eval rows row else b.eval rows row
  | cast aff t => do return (← t.eval rows row).cast aff
  | call f args => do f.apply (← evalAll rows row args)
  | aggregate f distinct arg _ => do
    return f.apply distinct (← rows.mapM fun r => arg.eval [] r)

def evalAll (rows : List Tuple) (row : Tuple) : List Term → Except Fault (List Datum)
  | [] => .ok []
  | t :: ts => do return (← t.eval rows row) :: (← evalAll rows row ts)

end

def holds (row : Tuple) (t : Term) : Except Fault Bool := do
  return (← t.eval [] row).truth? = some true

end Term
end QueryServer.Sql
