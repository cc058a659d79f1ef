import QueryServer.Proofs.Sql.Soundness
import QueryServer.Proofs.Sql.Users
/-!
Users that are looked up by their names. The answer is made of the rows that have the name, in the
order of one key or another.
-/

namespace QueryServer.Sql
open Relations

variable {db : Database} {t : Table}

/-- The condition that a row is that of a user. -/
def named (u : String) : Term :=
  .compare .equal .text (.column 0 .text) (.literal (.ofString u))

/-- All columns of a user. -/
def allColumns : List Term :=
  [.column 0 .text, .column 1 .text, .column 2 .text]

/-- The query for the users of a name. -/
def lookup (u : String) : Query :=
  .mk (.core false (.table users.name (.byKey [0] false)) (some (named u)) allColumns) [] none none

theorem plan_finding (hu : db.KeepsUsers t) (u : String) :
    (Grammar.finding u).plan (.ok db) = .ok (.query (lookup u)) := by
  have hopen : openTable (.ok db) [] { name := "users" } none =
      .ok ⟨some (.ofTable users "users"), .table users.name .byNumber,
        some (users.shape.indexed t.shape.indexes)⟩ := by
    have hfind : TableName.find (.ok db) { name := "users" } = .ok t :=
      Insertion.find_users hu rfl rfl
    rw [← hu.shape_eq]
    simp only [openTable, List.find?_nil, hfind, bind, Except.bind, hu.name, Scope.ofTable,
      hu.columns]
    rw [hu.shape_eq]
    rfl
  simp only [Grammar.finding, Statement.plan, Select.prepare, Select.malformed?, Body.malformed?,
    Select.toQuery, Body.openAll, Body.draft, Source.open, hopen, bind, Except.bind]
  rfl

theorem Datum.compareBytes_self (a : Bytes) : compareBytes a a = .eq := by
  induction a with
  | nil => rfl
  | cons x xs ih => simp [compareBytes, ih]

/-- A column of texts equals a text only where it has the same bytes. -/
theorem Datum.equal_iff {d : Datum} {b : Bytes} (hd : d.isTextual) :
    (compare .equal .text d (text b)).truth? = some true ↔ d = text b := by
  cases d with
  | integer n | real x => cases hd
  | null => exact iff_of_false nofun nofun
  | blob a => exact iff_of_false (fun h => by cases h) nofun
  | text a =>
    have hcompare : compare .equal .text (text a) (text b) =
        ofBool (compareBytes a b == .eq) := rfl
    rw [hcompare, text.injEq]
    constructor
    · intro h
      refine eq_of_compareBytes ?_
      cases horder : compareBytes a b with
      | eq => rfl
      | lt | gt =>
        rw [horder] at h
        cases h
    · rintro rfl
      rw [compareBytes_self]
      rfl

theorem username_tuple {r : Record} (hr : isNamed r.values) :
    username r.tuple = username r.values := by
  cases hvalues : r.values with
  | nil =>
    rw [hvalues] at hr
    cases hr
  | cons d values =>
    rw [Record.tuple, hvalues]
    rfl

theorem holds_named {r : Record} (hr : isNamed r.values) (u : String) :
    (named u).holds r.tuple = .ok (decide (username r.tuple = .ofString u)) := by
  have htext : (username r.values).isTextual := by
    cases hvalues : r.values with
    | nil => rfl
    | cons d values => rwa [hvalues] at hr
  rw [← username_tuple hr] at htext
  exact congrArg Except.ok (decide_eq_decide.mpr (Datum.equal_iff htext))

/-- The values that the query tells of a row. -/
def shown (row : Tuple) : Tuple :=
  [row.getD 0 .null, row.getD 1 .null, row.getD 2 .null]

theorem produce_named {u : String} {rows kept : List Tuple}
    (hkept : rows.filterM (named u).holds = .ok kept) :
    produce false (some (named u)) allColumns rows =
      .ok (kept.map fun row => ⟨row, shown row⟩) := by
  have hproduced : (kept.mapM fun row => do
      return (⟨row, ← Term.evalAll [] row allColumns⟩ : Produced)) =
      (.ok (kept.map fun row => ⟨row, shown row⟩) : Except Fault _) :=
    List.mapM_pure
  simp only [bind, Except.bind] at hproduced
  simp only [produce, hkept, bind, Except.bind]
  have hplain : (Term.aggregatesOfAll allColumns).isEmpty := rfl
  rw [if_pos hplain, hproduced]
  rfl

/-- The rows that are found are those of the name. -/
theorem rows_lookup (hu : db.KeepsUsers t) (hnamed : ∀ r ∈ t.rows, isNamed r.values) (u : String) :
    ∃ found : List Record, found.Perm (t.rows.filter fun r => username r.values = .ofString u) ∧
      (lookup u).rows db = .ok (found.map fun r => shown r.tuple) := by
  obtain ⟨sorted, hsorted, hperm⟩ : ∃ sorted : List Record,
      Scan.rows (.byKey [0] false) t = sorted.map Record.tuple ∧ sorted.Perm t.rows :=
    ⟨_, rfl, List.mergeSort_perm _ _⟩
  have hrows : (Origin.table users.name (.byKey [0] false)).rows db =
      .ok (sorted.map Record.tuple) := by
    rw [Origin.rows, Insertion.readable_users hu rfl, ← hsorted]
  have hnamed : ∀ r ∈ sorted, isNamed r.values := fun r hr => hnamed r (hperm.mem_iff.mp hr)
  have hkept : (sorted.map Record.tuple).filterM (named u).holds =
      .ok ((sorted.filter fun r => username r.values = .ofString u).map Record.tuple) := by
    rw [filterM_of_ok (p := fun row => username row = .ofString u), List.filter_map]
    · refine congrArg (fun rs => Except.ok (List.map Record.tuple rs)) ?_
      refine List.filter_congr fun r hr => ?_
      rw [Function.comp_apply, username_tuple (hnamed r hr)]
    · intro row hrow
      obtain ⟨r, hr, rfl⟩ := List.mem_map.mp hrow
      exact holds_named (hnamed r hr) u
  refine ⟨sorted.filter fun r => username r.values = .ofString u, hperm.filter _, ?_⟩
  have hrelation : (Relation.core false (.table users.name (.byKey [0] false)) (some (named u))
      allColumns).rows db =
      .ok ((sorted.filter fun r => username r.values = .ofString u).map fun r =>
        ⟨r.tuple, shown r.tuple⟩) := by
    simp only [Relation.rows, hrows, bind, Except.bind, produce_named hkept, List.map_map]
    rfl
  simp only [lookup, Query.rows, hrelation, bind, Except.bind, arranged, List.isEmpty_nil,
    Bool.true_or, if_true, List.map_map]
  rfl

end QueryServer.Sql
