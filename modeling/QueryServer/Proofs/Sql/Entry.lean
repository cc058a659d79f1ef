import QueryServer.Proofs.Sql.Insertion
import QueryServer.Proofs.Sql.Reads
/-!
Commands that enter users. One that gives the values for a user does so over all tables that hold
the users, for what it means can be told from its text.
-/

namespace QueryServer
open Sql Relations

namespace Sql

variable {db : Database} {t : Table} {mode : Conflict} {table : TableName}
  {columns : Option (List String)} {items : List Expr} {row : Tuple}

namespace Insertion

/-- The insertion of one list of values into the users. -/
def ofValues (mode : Conflict) (table : TableName) (columns : Option (List String))
    (items : List Expr) : Except Fault Insertion := do
  let places ← insertPlaces users table.shown columns
  let terms ← ({ : Naming }).resolveAll items
  checkValueCount table.shown columns places.length terms.length
  return { table := users.name, mode, places, source := some (.mk (.values [terms]) [] none none),
           returning := [] }

/-- The values of the one row that an insertion writes without a look at any table. -/
def row? (p : Insertion) : Option Tuple :=
  match p.places.contains users.shape.numberPlace, p.given {} with
  | false, .ok [given] =>
    ((List.range users.shape.columns.length).mapM (p.valueAt users.shape given)).toOption.map
      (users.shape.stored 0)
  | _, _ => none

theorem readable_users (hu : db.KeepsUsers t) {name : String} (hname : sameName name users.name) :
    db.readable? name = some t := by
  have hcatalog : isCatalogName name = false := by
    have hsame : sameName name = sameName users.name :=
      funext fun other => (sameName_congr hname other).1
    rw [isCatalogName, hsame]
    decide +kernel
  rw [Database.readable?, hcatalog, Database.table?_congr hname]
  exact hu.found

theorem find_users (hu : db.KeepsUsers t) (hname : sameName table.name users.name)
    (hmain : table.schema.all (sameName "main")) : table.find (.ok db) = .ok t := by
  simp only [TableName.find, bind, Except.bind, hmain, if_true, readable_users hu hname]
  rfl

theorem findModifiable_users (hu : db.KeepsUsers t) (hname : sameName table.name users.name)
    (hmain : table.schema.all (sameName "main")) : table.findModifiable (.ok db) = .ok t := by
  have hplain : isCatalogName users.name = false := by decide +kernel
  simp only [TableName.findModifiable, find_users hu hname hmain, bind, Except.bind, hu.name,
    hplain]
  rfl

theorem toQuery_values (schema : Schema) (items : List Expr) :
    (InsertSource.select (.mk (.values [items]) [] none none none)).toQuery schema = (do
      let terms ← ({ : Naming }).resolveAll items
      return some (.mk (.values [terms]) [] none none, terms.length)) := by
  have hprepare : (Select.mk (.values [items]) [] none none none).prepare schema = (do
      let terms ← ({ : Naming }).resolveAll items
      return ⟨.mk (.values [terms]) [] none none, Output.columns
        (terms.zipIdx.map fun x => ⟨x.1, s!"column{x.2 + 1}", none⟩)⟩) := by
    simp only [Select.prepare, Select.malformed?, Body.malformed?, List.all_nil, if_true,
      Select.toQuery, Body.openAll, Body.draft, draftValues, checkWidth, List.reverse_singleton,
      List.mapM_cons, List.mapM_nil, Option.mapM_none, bind_assoc, pure_bind]
    cases ({ : Naming }).resolveAll items <;> rfl
  simp only [InsertSource.toQuery, hprepare]
  cases ({ : Naming }).resolveAll items with
  | error f => rfl
  | ok terms => simp [bind, Except.bind, pure, Except.pure, Output.columns]

theorem checkInsertReferrers_of_supports {replaces : Bool} (hs : db.Supports t replaces) :
    checkInsertReferrers db t (!replaces) = .ok () := by
  refine forM_of_ok fun x hx => ?_
  obtain ⟨hx, hf⟩ := List.mem_filter.mp hx
  exact hs x hx (by simpa using hf)

/-- What it means to insert values does not depend on what is in the tables, as long as the foreign
keys that are looked at refer to keys. -/
theorem prepare_of_values (hu : db.KeepsUsers t) (hr : mode = .replace → db.Supports t true)
    (hname : sameName table.name users.name) (hmain : table.schema.all (sameName "main")) :
    prepare (.ok db) mode table columns (.select (.mk (.values [items]) [] none none none)) [] =
      ofValues mode table columns items := by
  have hplaces : insertPlaces t table.shown columns = insertPlaces users table.shown columns := by
    have hbare : insertPlaces { t with shape := t.shape.bare } table.shown columns =
        insertPlaces t table.shown columns := rfl
    rw [← hbare, hu.bare]
    rfl
  have hkeys : checkForeignKeys db t (fun _ => true) = .ok () := by
    simp only [checkForeignKeys, hu.foreignKeys]
    rfl
  have hreferrers : ∀ places keys,
      checkInsertReferrers db t (true && !t.shape.mayReplace mode places keys) = .ok () := by
    intro places keys
    rw [Bool.true_and]
    refine checkInsertReferrers_of_supports ?_
    cases hreplace : t.shape.mayReplace mode places keys with
    | false => exact hu.supported
    | true => exact hr (by simpa using (Bool.and_eq_true_iff.mp hreplace).1)
  have hsingle : (InsertSource.select (.mk (.values [items]) [] none none none)).isSingle = true :=
    rfl
  unfold prepare ofValues
  rw [findModifiable_users hu hname hmain, toQuery_values]
  simp only [bind, Except.bind, hplaces, hsingle]
  cases insertPlaces users table.shown columns with
  | error f => rfl
  | ok places =>
    cases ({ : Naming }).resolveAll items with
    | error f => rfl
    | ok terms =>
      simp only [pure, Except.pure, hkeys, hreferrers, hu.name]
      cases checkValueCount table.shown columns places.length terms.length <;> rfl

theorem given_of_values {p : Insertion} {terms : List Term}
    (hp : p.source = some (.mk (.values [terms]) [] none none)) (db : Database) :
    p.given db = p.given {} := by
  simp only [given, hp, Query.rows, Relation.rows]

theorem enters_of_row? {p : Insertion} (hp : ofValues mode table columns items = .ok p)
    (hrow : p.row? = some row) (db : Database) : p.Enters db row := by
  obtain ⟨places, -, hp⟩ := (except_bind_eq_ok _ _ _).mp hp
  obtain ⟨terms, -, hp⟩ := (except_bind_eq_ok _ _ _).mp hp
  obtain ⟨-, -, hp⟩ := (except_bind_eq_ok _ _ _).mp hp
  cases hp
  unfold row? at hrow
  split at hrow
  · rename_i given hplaces hgiven
    obtain ⟨values, hvalues, hrow⟩ := Option.map_eq_some_iff.mp hrow
    refine ⟨rfl, by simpa using hplaces, ⟨given, values, ?_, ?_, hrow⟩, fun n => ⟨[], rfl⟩⟩
    · rw [given_of_values rfl, hgiven]
    · cases hmap : (List.range users.shape.columns.length).mapM (valueAt _ users.shape given) with
      | error f =>
        rw [hmap] at hvalues
        cases hvalues
      | ok values' =>
        rw [hmap] at hvalues
        cases hvalues
        rfl
  · cases hrow

end Insertion

/-- A text with one statement and no parameters is prepared as that statement. -/
theorem Prepared.only?_of_parsed {schema : Schema} {text : String} {parsed : Parsed}
    {rest : List Lexeme} {plan : Plan}
    (hparsed : Parsed.next? (Lexeme.scan text.toList) = .ok (some (parsed, rest)))
    (hrest : Parsed.next? rest = .ok none)
    (hnone : ∀ l ∈ parsed.lexemes, isParameter l.token = false)
    (hplan : parsed.statement.plan schema = .ok plan) :
    only? schema text = .ok (some ⟨plan, 0⟩) := by
  have hfirst : next? schema (Lexeme.scan text.toList) = .ok (some (⟨plan, 0⟩, rest)) := by
    simp only [next?, hparsed, parameters_of_none hnone, hplan]
    rfl
  have hlast : next? schema rest = .ok none := by
    simp only [next?, hrest]
  simp only [only?, hfirst, hlast, bind, Except.bind]
  rfl

/-- The values of the user that a statement enters, if it lists them. -/
def Statement.listed? : Statement → Option Tuple
  | .insert mode table columns (.select (.mk (.values [items]) [] none none none)) [] =>
    if sameName table.name users.name && table.schema.all (sameName "main") then
      match Insertion.ofValues mode table columns items with
      | .ok p => p.row?
      | .error _ => none
    else none
  | _ => none

/-- A row of the statement may take the place of another one. -/
def Statement.replaces : Statement → Bool
  | .insert mode .. => mode = .replace
  | _ => false

theorem Statement.plan_of_listed {s : Statement} (h : s.listed? = some row)
    (hu : db.KeepsUsers t) (hr : s.replaces → db.Supports t true) :
    ∃ p, s.plan (.ok db) = .ok (.insert p) ∧ p.Enters db row := by
  unfold listed? at h
  split at h
  · split at h
    · rename_i mode table columns items hnames
      obtain ⟨hname, hmain⟩ := Bool.and_eq_true_iff.mp hnames
      split at h
      · rename_i p hp
        refine ⟨p, ?_, Insertion.enters_of_row? hp h db⟩
        have hr : mode = .replace → db.Supports t true := by simpa [replaces] using hr
        simp only [plan, Insertion.prepare_of_values hu hr hname hmain, hp]
        rfl
      · cases h
    · cases h
  · cases h

end Sql

namespace Command

variable {c : Command} {db : Database} {t : Table} {row : Tuple}

/-- The command is one statement without parameters, which inserts a user with these values. -/
def Enters (c : Command) (db : Database) (row : Tuple) : Prop :=
  ∃ p, Prepared.only? (.ok db) c.text = .ok (some ⟨.insert p, 0⟩) ∧ p.Enters db row

/-- The values of the user that a command enters, if it lists them. -/
def listed? (c : Command) : Option Tuple :=
  match Parsed.next? (Lexeme.scan c.text.toList) with
  | .ok (some (parsed, rest)) =>
    match Parsed.next? rest with
    | .ok none =>
      if parsed.lexemes.any fun l => isParameter l.token then none else parsed.statement.listed?
    | _ => none
  | _ => none

/-- A row of the command's statement may take the place of another one. -/
def replaces (c : Command) : Bool :=
  match Parsed.next? (Lexeme.scan c.text.toList) with
  | .ok (some (parsed, _)) => parsed.statement.replaces
  | _ => false

/-- What lists the values of a user enters it wherever there is a table for users. -/
theorem enters_of_listed (h : c.listed? = some row) (hu : db.KeepsUsers t)
    (hr : c.replaces → db.Supports t true) : c.Enters db row := by
  unfold listed? at h
  split at h
  · rename_i parsed rest hparsed
    split at h
    · rename_i hrest
      split at h
      · cases h
      · rename_i hparameters
        have hr : parsed.statement.replaces → db.Supports t true := by
          simpa [replaces, hparsed] using hr
        obtain ⟨p, hplan, henters⟩ := Statement.plan_of_listed h hu hr
        have hnone : ∀ l ∈ parsed.lexemes, isParameter l.token = false := by
          simpa using hparameters
        exact ⟨p, Prepared.only?_of_parsed hparsed hrest hnone hplan, henters⟩
    · cases h
  · cases h

/-- A text of blanks holds no statement. -/
theorem not_blank_of_only? {schema : Schema} {p : Prepared}
    (h : Prepared.only? schema c.text = .ok (some p)) : c.isBlank = false := by
  obtain ⟨l, ls, hscan, hbegins⟩ := first_of_prepared h
  obtain ⟨hspelled, hleads⟩ := Lexeme.first_of_scan hscan
  have hinitial : ∃ d, l.text.head? = some d ∧ Text.isBlank d = false := by
    unfold Lexeme.isOther at hbegins
    split at hbegins
    · rename_i k hk
      exact initial_of_keyword hspelled hk
    · rename_i hk
      exact ⟨';', hspelled.semicolon hk, by decide⟩
    · cases hbegins
  obtain ⟨d, hd, hb⟩ := hinitial
  obtain ⟨first, rest, htrim, -⟩ := hleads d hd hb
  exact not_blank_of_trimStart htrim

/-- An insertion is no read. -/
theorem write_of_enters (h : c.Enters db row) : c.isBlank = false ∧ c.kind = .write := by
  obtain ⟨p, hp, -⟩ := h
  refine ⟨not_blank_of_only? hp, ?_⟩
  cases hk : c.kind with
  | write => rfl
  | read =>
    obtain ⟨q, hq⟩ := query_of_read hk hp
    cases hq

end Command
end QueryServer
