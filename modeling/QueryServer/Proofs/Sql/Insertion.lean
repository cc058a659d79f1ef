import QueryServer.Proofs.Sequence
import QueryServer.Proofs.Sql.Rows
import QueryServer.Store.Relations
/-!
Insertions of users. Main statement: a row whose username is not there yet is added to the table, on
whatever conflict the statement says, and nothing else in the database changes.
-/

namespace QueryServer.Sql
open Relations

/-- The shape of a table with these indexes in place of those that were made for it. -/
def Shape.indexed (s : Shape) (indexes : List Index) : Shape :=
  { s with indexes }

def Shape.bare (s : Shape) : Shape :=
  s.indexed []

/-- A table for users. There may be indexes for it, as long as users of different names differ in
all that must differ. -/
structure Table.ForUsers (t : Table) : Prop where
  bare : t.shape.bare = users.shape
  keyed : ∀ k ∈ t.shape.uniqueKeys, 0 ∈ k

/-- A database with a table for users that can be added to. -/
structure Database.KeepsUsers (db : Database) (t : Table) : Prop extends t.ForUsers where
  found : db.table? users.name = some t
  name : t.name = users.name
  ordered : Table.Ordered t.rows
  supported : db.Supports t false

/-- A database with the table of users as every store has it. -/
structure Database.HasUsers (db : Database) (t : Table) : Prop extends db.KeepsUsers t where
  shape : t.shape = users.shape

theorem Table.ForUsers.of_shape {t : Table} (h : t.shape = users.shape) : t.ForUsers := by
  constructor <;> rw [h]
  · rfl
  · decide

theorem Table.ForUsers.shape_eq {t : Table} (h : t.ForUsers) :
    t.shape = users.shape.indexed t.shape.indexes := by
  rw [← h.bare]
  rfl

theorem Table.ForUsers.columns {t : Table} (h : t.ForUsers) :
    t.shape.columns = users.shape.columns :=
  (congrArg Shape.columns h.bare :)

theorem Table.ForUsers.not_autoincrement {t : Table} (h : t.ForUsers) :
    t.shape.autoincrement = false :=
  (congrArg Shape.autoincrement h.bare :)

theorem Table.ForUsers.foreignKeys {t : Table} (h : t.ForUsers) : t.shape.foreignKeys = [] :=
  (congrArg Shape.foreignKeys h.bare :)

/-- The name in the values of a user. -/
def username (row : Tuple) : Datum :=
  row.getD 0 .null

/-- The insertion is of one user with these values, as the table stores them. It leaves the number
of the row to the table, and returns nothing or something that can be computed. -/
structure Insertion.Enters (p : Insertion) (db : Database) (row : Tuple) : Prop where
  table : p.table = users.name
  unnumbered : users.shape.numberPlace ∉ p.places
  values : ∃ given values, p.given db = .ok [given] ∧
    (List.range users.shape.columns.length).mapM (p.valueAt users.shape given) = .ok values ∧
    users.shape.stored 0 values = row
  returns : ∀ n, ∃ shown, Term.evalAll [] (Record.tuple ⟨n, row⟩) p.returning = .ok shown

theorem isTextual_username (values : Tuple) (m : Int64) :
    (username (users.shape.stored m values)).isTextual := by
  cases values with
  | nil => rfl
  | cons d values => exact Datum.isTextual_store d

namespace Table

variable {t : Table} {row : Tuple} {n : Int64}

/-- A new name under a new number violates nothing. -/
theorem violation?_of_new (ht : t.ForUsers) (htext : (username row).isTextual)
    (hnumber : ∀ x ∈ t.rows, x.number ≠ n)
    (hnew : ∀ x ∈ t.rows, username x.values ≠ username row) :
    t.violation? t.rows ⟨n, row⟩ = none := by
  have hnumbers : t.rows.any (·.number == n) = false := by
    simpa [List.any_eq_false] using hnumber
  have hkeys : (t.shape.uniqueKeys.reverse.find? fun k => t.rows.any (Key.agree k ⟨n, row⟩)) =
      none := by
    rw [List.find?_eq_none]
    intro k hk hclash
    obtain ⟨x, hx, hagree⟩ := List.any_eq_true.mp hclash
    have hname := List.all_eq_true.mp hagree 0 (ht.keyed k (List.mem_reverse.mp hk))
    simp only [Bool.and_eq_true, beq_iff_eq] at hname
    exact hnew x hx (Datum.eq_of_order htext hname.2).symm
  simp [violation?, hnumbers, hkeys]

/-- No column of a user needs a value. -/
theorem notNull_users : ∀ c ∈ users.shape.columns, c.notNull = false := by
  simp [users, textColumn, Database.plainColumn]

theorem filled_users (hcolumns : t.shape.columns = users.shape.columns) (mode : Conflict)
    (m : Int64) (values : Tuple) :
    t.filled mode (users.shape.stored m values) = .ok (users.shape.stored m values) := by
  unfold filled
  rw [hcolumns]
  split
  · rcases values with _ | ⟨name, _ | ⟨password, _ | ⟨date, rest⟩⟩⟩ <;> rfl
  · rfl

theorem passes_users (ht : t.ForUsers) (mode : Conflict) (r : Record) :
    t.passes mode r = .ok true := by
  have hnull : t.nullViolation? r.values = none := by
    rw [nullViolation?, ht.columns, Option.map_eq_none_iff, List.find?_eq_none]
    intro x hx
    simp [notNull_users x.1 (List.of_mem_zip hx).1]
  have hchecks : t.shape.checks = [] := (congrArg Shape.checks ht.bare :)
  unfold passes
  rw [hnull, hchecks]
  rfl

end Table

theorem Draught.write_of_new {d : Draught} {row shown : Tuple} {n : Int64}
    {returning : List Term} (mode : Conflict) (ht : d.table.ForUsers)
    (htext : (username row).isTextual) (hnumber : ∀ x ∈ d.table.rows, x.number ≠ n)
    (hnew : ∀ x ∈ d.table.rows, username x.values ≠ username row)
    (hshown : Term.evalAll [] (Record.tuple ⟨n, row⟩) returning = .ok shown) :
    d.write mode none ⟨n, row⟩ returning = .ok { d with
      table := { d.table with rows := Table.place ⟨n, row⟩ d.table.rows }
      returned := shown :: d.returned } := by
  have hothers : (d.table.rows.filter fun x => some x.number != none) = d.table.rows := by
    simp
  have haccept : d.table.accept mode none ⟨n, row⟩ =
      .ok (some { d.table with rows := Table.place ⟨n, row⟩ d.table.rows }) := by
    rw [Table.accept, hothers, Table.violation?_of_new ht htext hnumber hnew]
  simp only [write, Table.passes_users ht, haccept, hshown, bind, Except.bind, pure,
    Except.pure, if_true]

namespace Insertion

variable {p : Insertion} {db : Database} {t : Table} {row : Tuple}

/-- The number of the row is none of the values that are given. -/
theorem writeRow_eq {d : Draught} {given values : Tuple} (hp : p.Enters db row)
    (ht : d.table.ForUsers)
    (hvalues : (List.range users.shape.columns.length).mapM (p.valueAt users.shape given) =
      .ok values)
    (hrow : users.shape.stored 0 values = row) :
    p.writeRow d given = d.newNumber >>= fun n =>
      Draught.write { d with counter := max d.counter n.toInt } p.mode none ⟨n, row⟩
        p.returning := by
  have hplace : (if p.places.contains users.shape.numberPlace then users.shape.numberPlace
      else users.shape.numberColumn.getD users.shape.numberPlace) = users.shape.numberPlace := by
    split <;> rfl
  have hasked : p.valueAt users.shape given users.shape.numberPlace = .ok .null := by
    unfold valueAt
    rw [List.idxOf?_eq_none_iff.mpr hp.unnumbered]
    rfl
  have hnull : Datum.toNumber .null = .ok none := rfl
  have hstored : ∀ n, users.shape.stored n values = row := fun _ => hrow
  have hfilled : ∀ n, d.table.filled p.mode (users.shape.stored n values) = .ok row := fun n =>
    (Table.filled_users ht.columns p.mode n values).trans (congrArg Except.ok (hstored n))
  -- indexes have no part in the values of a row
  have hbare : p.valueAt d.table.shape given = p.valueAt users.shape given ∧
      d.table.shape.stored = users.shape.stored ∧
      d.table.shape.numberPlace = users.shape.numberPlace ∧
      d.table.shape.numberColumn = users.shape.numberColumn := by
    rw [← ht.bare]
    exact ⟨rfl, rfl, rfl, rfl⟩
  unfold writeRow
  simp only [hbare, ht.columns, hvalues, hplace, hasked, hnull, hfilled, bind, Except.bind]

/-- The table gives a number to the row, and keeps it. -/
theorem writeRow_of_enters {d : Draught} {given values : Tuple} (hp : p.Enters db row)
    (ht : d.table.ForUsers) (hordered : Table.Ordered d.table.rows)
    (hvalues : (List.range users.shape.columns.length).mapM (p.valueAt users.shape given) =
      .ok values)
    (hrow : users.shape.stored 0 values = row)
    (hnew : ∀ x ∈ d.table.rows, username x.values ≠ username row)
    (hroom : ∃ n, d.table.row? n = none) :
    ∃ d' n, p.writeRow d given = .ok d' ∧ (∀ x ∈ d.table.rows, x.number ≠ n) ∧
      d'.table = { d.table with rows := Table.place ⟨n, row⟩ d.table.rows } := by
  have hauto : d.table.shape.autoincrement = false := ht.not_autoincrement
  obtain ⟨n, hn, hfree⟩ := Draught.exists_newNumber hordered hauto hroom
  obtain ⟨shown, hshown⟩ := hp.returns n
  have hrun := writeRow_eq hp ht hvalues hrow
  rw [hn] at hrun
  have hwrite := Draught.write_of_new (d := { d with counter := max d.counter n.toInt }) p.mode
    ht (hrow ▸ isTextual_username values 0) hfree hnew hshown
  exact ⟨_, n, hrun.trans hwrite, hfree, rfl⟩

/-- When all numbers are taken, no user can be added. -/
theorem run_of_taken (hu : db.KeepsUsers t) (hp : p.Enters db row)
    (htaken : ∀ n, t.row? n ≠ none) : p.run db = .error ⟨.full, db⟩ := by
  obtain ⟨given, values, hgiven, hvalues, hrow⟩ := hp.values
  have hwritten : p.writeRow ⟨t, db.counter t.name, []⟩ given = .error .full := by
    rw [writeRow_eq hp hu.toForUsers hvalues hrow,
      Draught.newNumber_of_taken hu.ordered hu.not_autoincrement htaken]
    rfl
  have hwrites : p.writeRows ⟨t, db.counter t.name, []⟩ [given] =
      (⟨t, db.counter t.name, []⟩, some .full) := by
    simp [writeRows, hwritten]
  simp [run, hp.table, hu.found, hgiven, hwrites, Broken.keeping, Fault.isConstraint]

/-- A new user is added, and nothing else changes. -/
theorem run_of_enters (hu : db.KeepsUsers t) (hp : p.Enters db row)
    (hnew : ∀ x ∈ t.rows, username x.values ≠ username row)
    (hroom : ∃ n, t.row? n = none) :
    ∃ t' n rows, p.run db = .ok ⟨db.put t', rows⟩ ∧ (db.put t').KeepsUsers t' ∧
      t'.shape = t.shape ∧ (db.Supports t true → (db.put t').Supports t' true) ∧
      t'.rows.Perm (⟨n, row⟩ :: t.rows) := by
  obtain ⟨given, values, hgiven, hvalues, hrow⟩ := hp.values
  obtain ⟨d, n, hwritten, hfree, htable⟩ := writeRow_of_enters (d := ⟨t, db.counter t.name, []⟩) hp
    hu.toForUsers hu.ordered hvalues hrow hnew hroom
  have hname : d.table.name = t.name := by rw [htable]
  have hshape : d.table.shape = t.shape := by rw [htable]
  have hperm : d.table.rows.Perm (⟨n, row⟩ :: t.rows) := by
    rw [htable]
    exact Table.place_perm _ _
  have hfound : db.table? t.name = some t := by rw [hu.name]; exact hu.found
  have hself : sameName t.name users.name := by rw [hu.name]; exact sameName_iff.mpr rfl
  have hwrites : p.writeRows ⟨t, db.counter t.name, []⟩ [given] = (d, none) := by
    simp [writeRows, hwritten]
  have hsettle : settle db d = db.put d.table := by
    simp [settle, hshape, hu.not_autoincrement]
  have hkeeping := Database.keepingReferences_put hname hfound hshape
    hu.foreignKeys (fun x hx => hperm.mem_iff.mpr (List.mem_cons_of_mem _ hx))
  have hsupported {replaces : Bool} (hs : db.Supports t replaces) :
      (db.put d.table).Supports d.table replaces :=
    Database.supports_put hname hfound hshape hs
  refine ⟨d.table, n, d.returned.reverse, ?_,
    ⟨⟨?_, ?_⟩, ?_, ?_, ?_, hsupported hu.supported⟩, hshape, hsupported, hperm⟩
  · simp only [run, hp.table, hu.found, hgiven, hwrites, hsettle, hkeeping]
  · rw [hshape, hu.bare]
  · rw [hshape]
    exact hu.keyed
  · rw [Database.table?_put hname hfound, if_pos hself]
  · rw [hname, hu.name]
  · rw [htable]
    exact Table.ordered_place hu.ordered hfree

end Insertion
end QueryServer.Sql
