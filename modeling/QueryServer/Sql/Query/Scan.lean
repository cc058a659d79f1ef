import QueryServer.Sql.Query
/-!
The choice of a scan. A condition on the number of rows or on a key decides first, then the order
that is asked for; else a key that holds all columns in use is read in place of the table.
-/

namespace QueryServer.Sql.Scan

def conjuncts : Term → List Term
  | .and a b => conjuncts a ++ conjuncts b
  | t => [t]

def placeIn? (places : List Nat) : Term → Option Nat
  | .column i _ => if places.contains i then some i else none
  | _ => none

/-- Whether a condition bounds a column at one of these places by a value. -/
def bounds (places : List Nat) : Term → Bool
  | .compare op _ a b =>
    op != .unequal &&
      (((placeIn? places a).isSome && b.places.isEmpty) ||
        ((placeIn? places b).isSome && a.places.isEmpty))
  | .same _ a b =>
    ((placeIn? places a).isSome && b.places.isEmpty) ||
      ((placeIn? places b).isSome && a.places.isEmpty)
  | .isNull a => (placeIn? places a).isSome
  | .or a b => fixes places a && fixes places b
  | _ => false
where
  /-- Whether a condition names the values that a column may have. -/
  fixes (places : List Nat) : Term → Bool
    | .compare .equal _ a b =>
      ((placeIn? places a).isSome && b.places.isEmpty) ||
        ((placeIn? places b).isSome && a.places.isEmpty)
    | .or a b => fixes places a && fixes places b
    | _ => false

def numberPlaces (s : Shape) : List Nat :=
  s.numberPlace :: s.numberColumn.toList

/-- The columns by which rows can be read in order, beside their number. -/
def orders (s : Shape) : List Key :=
  s.keys ++ s.indexes.map (·.key)

def choose (s : Shape) (filter : Option Term) (result : List Term) (order : List SortKey) : Scan :=
  let conditions := (filter.map conjuncts).getD []
  let bounded (places : List Nat) : Bool := conditions.any (bounds places)
  let used := Term.placesOfAll (result ++ filter.toList ++ order.map (·.term))
  let descending := (order.head?.map (·.descending)).getD false
  let leads (places : List Nat) : Bool :=
    (order.head?.bind fun k => placeIn? places k.term).isSome
  if bounded (numberPlaces s) then .byNumber
  else
    match (orders s).find? fun k => bounded (k.take 1) with
    | some k => .byKey k (leads (k.take 1) && descending)
    | none =>
      if leads (numberPlaces s) then .byNumber
      else
        match (orders s).find? fun k => leads (k.take 1) with
        | some k => .byKey k descending
        | none =>
          match (orders s).find? fun k => used.all (k ++ numberPlaces s).contains with
          | some k => .byKey k false
          | none => .byNumber

end QueryServer.Sql.Scan
