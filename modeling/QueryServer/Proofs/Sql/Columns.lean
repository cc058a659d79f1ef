import QueryServer.Proofs.Sql.Projection
import QueryServer.Sql.Query.Selection
/-!
The columns of a select that could be prepared. Its result lists are those that are written, part
by part and from left to right, and each of them has as many entries as the select has columns.
-/

namespace QueryServer.Sql

variable {db : Database} {schema : Schema} {row : Tuple}

/-- The number of values in a row of a relation, by its first part. -/
def Relation.width : Relation → Nat
  | .core _ _ _ result => result.length
  | .values lists => (lists.head?.map List.length).getD 0
  | .compound _ left _ => left.width

/-- All parts of a relation are equally wide. -/
def Relation.Even : Relation → Prop
  | .core .. => True
  | .values lists => ∀ ts ∈ lists, ts.length = (lists.head?.map List.length).getD 0
  | .compound _ left right => left.Even ∧ right.Even ∧ left.width = right.width

theorem Projected.length {result : List Term} {kept : List Tuple} (h : Projected result kept row) :
    row.length = result.length := by
  obtain ⟨source, group, -, -, hvalues⟩ := h
  exact hvalues.length_eq.symm

/-- The terms of a result list: stars stand for the columns of the source, and expressions are
looked up, in the order in which they are written. -/
inductive Listed (scope : Option Scope) : List ResultColumn → List Term → Prop where
  | nil : Listed scope [] []
  | star {s : Scope} {columns : List ResultColumn} {ts : List Term} (hs : scope = some s)
      (h : Listed scope columns ts) : Listed scope (.star :: columns) (s.all.map (·.1) ++ ts)
  | tableStar {s : Scope} {table : String} {columns : List ResultColumn} {ts : List Term}
      (hs : scope = some s) (hlabel : s.label.any (sameName table)) (h : Listed scope columns ts) :
      Listed scope (.tableStar table :: columns) (s.all.map (·.1) ++ ts)
  | expr {e : Expr} {given : Option String} {t : Term} {columns : List ResultColumn}
      {ts : List Term} (ht : Naming.resolve { scope := scope.getD {}, aggregates := true } e = .ok t)
      (h : Listed scope columns ts) : Listed scope (.expr e given :: columns) (t :: ts)

/-- The result lists of a relation are those that its body has, part by part. -/
def Body.Lists (schema : Schema) (named : NamedSelects) : Body → Relation → Prop
  | .core _ columns source _, r => ∃ opened distinct origin filter result,
      source.open schema named = .ok opened ∧ r = .core distinct origin filter result ∧
        Listed opened.scope columns result
  | .values lists, r => ∃ terms, r = .values terms ∧
      List.Forall₂ (fun es ts => ({ : Naming }).resolveAll es = .ok ts) lists terms
  | .compound op left right, r => ∃ a b, r = .compound op a b ∧ left.Lists schema named a ∧
      right.Lists schema named b

/-- The same for a select, whose names stand for what they were defined as. -/
def Select.Lists (schema : Schema) (named : NamedSelects) : Select → Relation → Prop
  | .mk body _ _ _ _, r => body.Lists schema named r
  | .withTable name columns definition rest, r =>
    rest.Lists schema
      ((name, (definition.toQuery schema named).bind (renamed name columns)) :: named) r

/-- A draft is as wide as its outputs, and as what stands behind the operator that follows it. -/
structure Draft.Even (d : Draft) (next : Neighbour) : Prop where
  relation : d.relation.Even
  width : d.relation.width = d.outputs.length
  next : ∀ w op, next = some (w, op) → d.outputs.length = w

end QueryServer.Sql
