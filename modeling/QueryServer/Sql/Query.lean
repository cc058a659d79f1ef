import QueryServer.Sql.Scope
/-!
Queries whose names have been resolved, and their rows.
-/

namespace QueryServer.Sql

def compareTuples : Tuple → Tuple → Ordering
  | [], [] => .eq
  | [], _ => .lt
  | _, [] => .gt
  | a :: as, b :: bs => (Datum.order a b).then (compareTuples as bs)

def sortBy {α : Type} (order : α → α → Ordering) (rows : List α) : List α :=
  rows.mergeSort fun a b => order a b != .gt

/-- The order in which the rows of a table are visited. -/
inductive Scan where
  | byNumber
  /-- By the values of a key, then by number. -/
  | byKey (k : Key) (descending : Bool)
  deriving DecidableEq, Repr

/-- The rows of a table in the order of a scan, each with its number behind its values. -/
def Scan.rows (s : Scan) (t : Table) : List Tuple :=
  match s with
  | byNumber => t.rows.map Record.tuple
  | byKey k descending =>
    let values (r : Record) : Tuple := k.map fun i => r.values.getD i .null
    let sorted := (sortBy (fun a b => compareTuples (values a) (values b)) t.rows).map Record.tuple
    if descending then sorted.reverse else sorted

structure SortKey where
  term : Term
  descending : Bool
  deriving Repr

mutual

inductive Origin where
  | single
  | table (name : String) (scan : Scan)
  | query (q : Query)

inductive Relation where
  | core (distinct : Bool) (origin : Origin) (filter : Option Term) (result : List Term)
  | values (rows : List (List Term))
  | compound (op : CompoundOp) (left right : Relation)

inductive Query where
  | mk (relation : Relation) (order : List SortKey) (limit offset : Option Term)

end

/-- A row of a result with the row that it was made from. -/
structure Produced where
  source : Tuple
  result : Tuple
  deriving DecidableEq, Repr

namespace Produced

def ofResult (row : Tuple) : Produced := ⟨row, row⟩

def sameResult (a b : Produced) : Bool :=
  compareTuples a.result b.result == .eq

end Produced

/-- Rows in order, of equal ones only the last. -/
def distinctSorted (rows : List Tuple) : List Tuple :=
  let sorted := sortBy compareTuples rows
  (sorted.reverse.foldl (fun kept r =>
    match kept with
    | k :: _ => if compareTuples k r == .eq then kept else r :: kept
    | [] => [r]) [])

/-- The rows of a compound. All but a plain union are sets and come in order. -/
def CompoundOp.combine (op : CompoundOp) (left right : List Tuple) : List Tuple :=
  let has (rows : List Tuple) (r : Tuple) : Bool := rows.any fun x => compareTuples x r == .eq
  match op with
  | unionAll => left ++ right
  | union => distinctSorted (left ++ right)
  | intersect => (distinctSorted left).filter (has right)
  | except => (distinctSorted left).filter fun r => !has right r

/-- The row that stands for all rows where a result sums them up: one with the greatest or the
least value if the result asks for it, else the first. -/
def representative (result : List Term) (rows : List Tuple) : Except Fault Tuple := do
  let first := rows.headD []
  match (Term.aggregatesOfAll result).find? fun a => a.1 != .count with
  | none => return first
  | some (f, arg, _) =>
    let direction : Ordering := if f == .max then .gt else .lt
    let valued ← rows.mapM fun r => do return (← arg.eval [] r, r)
    let best := (valued.filter (!·.1.isNull)).foldl (fun (best : Option (Datum × Tuple)) x =>
      match best with
      | some b => if Datum.order x.1 b.1 == direction then some x else best
      | none => some x) none
    return (best.map (·.2)).getD first

def produce (distinct : Bool) (filter : Option Term) (result : List Term) (rows : List Tuple) :
    Except Fault (List Produced) := do
  let kept ← match filter with
    | none => pure rows
    | some condition => rows.filterM condition.holds
  let produced ←
    if (Term.aggregatesOfAll result).isEmpty then
      kept.mapM fun r => do return (⟨r, ← Term.evalAll [] r result⟩ : Produced)
    else do
      let row ← representative result kept
      pure [⟨row, ← Term.evalAll kept row result⟩]
  return if distinct then distinctBy Produced.sameResult produced else produced

def compareKeys : List SortKey → Tuple → Tuple → Ordering
  | k :: ks, a :: as, b :: bs =>
    (if k.descending then Datum.order b a else Datum.order a b).then (compareKeys ks as bs)
  | _, _, _ => .eq

def arranged (order : List SortKey) (rows : List Produced) : Except Fault (List Tuple) := do
  if order.isEmpty || rows.length ≤ 1 then return rows.map (·.result)
  let keyed ← rows.mapM fun p => do
    return (← Term.evalAll [] p.source (order.map (·.term)), p.result)
  return (sortBy (fun a b => compareKeys order a.1 b.1) keyed).map (·.2)

def boundOf (t : Term) : Except Fault Int := do
  match (← t.eval [] []).preferNumber.preferInteger with
  | .integer n => return n.toInt
  | _ => throw .datatypeMismatch

/-- A part of the rows; a negative limit keeps all of them. -/
def window (limit offset : Option Term) (rows : List Tuple) : Except Fault (List Tuple) := do
  let kept ← limit.mapM boundOf
  let skipped ← offset.mapM boundOf
  let rest := rows.drop (skipped.getD 0).toNat
  return match kept with
    | some n => if n < 0 then rest else rest.take n.toNat
    | none => rest

mutual

def Origin.rows (db : Database) : Origin → Except Fault (List Tuple)
  | .single => .ok [[]]
  | .table name scan =>
    match db.readable? name with
    | some t => .ok (scan.rows t)
    | none => .error (.noSuchTable name)
  | .query q => q.rows db

def Relation.rows (db : Database) : Relation → Except Fault (List Produced)
  | .core distinct origin filter result => do
    produce distinct filter result (← origin.rows db)
  | .values rows => do
    return (← rows.mapM (Term.evalAll [] [])).map Produced.ofResult
  | .compound op left right => do
    let l ← left.rows db
    let r ← right.rows db
    return (op.combine (l.map (·.result)) (r.map (·.result))).map Produced.ofResult

def Query.rows (db : Database) : Query → Except Fault (List Tuple)
  | .mk relation order limit offset => do
    window limit offset (← arranged order (← relation.rows db))

end
end QueryServer.Sql
