import QueryServer.Proofs.Sql.Rows
import QueryServer.Store.Relations
/-!
The relations of a store. Those that are missing are made behind the tables that are there, empty,
with at most an empty table of counters; nothing that is there changes.
-/

namespace QueryServer
open Sql

namespace Sql.Database

variable {db after : Database} {t : Table} {name : String}

theorem table?_append (hmade : after.tables = db.tables ++ made) (name : String) :
    after.table? name = (db.table? name).or (made.find? fun t => sameName t.name name) := by
  rw [table?, hmade, List.find?_append]
  rfl

theorem table?_of_kept (hp : db.tables <+: after.tables) (h : db.table? name = some t) :
    after.table? name = some t := by
  obtain ⟨made, hmade⟩ := hp
  rw [table?_append hmade.symm, h, Option.some_or]

theorem missing_of_kept (hp : db.tables <+: after.tables) (h : after.table? name = none) :
    db.table? name = none := by
  cases ht : db.table? name with
  | none => rfl
  | some t =>
    rw [table?_of_kept hp ht] at h
    cases h

end Sql.Database

namespace Relations

/-- The table is one of these relations, or that of the counters, and was missing. -/
def Made (db : Database) (rs : List Table) (t : Table) : Prop :=
  ∃ r pages serial, t = { r with pages, serial } ∧ db.table? r.name = none ∧
    (r ∈ rs ∨ r = Database.counters)

variable {db after : Database} {r t : Table} {rs made : List Table}

theorem Made.of_kept {rs' : List Table} (ht : Made after rs t) (hp : db.tables <+: after.tables)
    (hrs : rs ⊆ rs') : Made db rs' t := by
  obtain ⟨r, pages, serial, rfl, hmissing, hr⟩ := ht
  exact ⟨r, pages, serial, rfl, Database.missing_of_kept hp hmissing, hr.imp_left (hrs ·)⟩

theorem made_append (hr : db.table? r.name = none) :
    ∃ t, (db.append r).tables = db.tables ++ [t] ∧ Made db [r] t ∧ t.name = r.name :=
  ⟨_, rfl, ⟨r, _, _, rfl, hr, .inl (List.mem_singleton.mpr rfl)⟩, rfl⟩

theorem made_create (hr : db.table? r.name = none) :
    ∃ made, (db.create r).tables = db.tables ++ made ∧ (∀ t ∈ made, Made db [r] t) ∧
      ∃ t ∈ made, t.name = r.name := by
  obtain ⟨t, htables, hmade, hname⟩ := made_append hr
  unfold Database.create
  dsimp only
  split
  · rename_i hcounters
    rw [Bool.and_eq_true, Option.isNone_iff_eq_none] at hcounters
    have hp : db.tables <+: (db.append r).tables := ⟨_, htables.symm⟩
    obtain ⟨u, hu, humade, -⟩ := made_append (r := Database.counters) hcounters.2
    refine ⟨[t, u], by rw [hu, htables, List.append_assoc]; rfl, ?_, t, by simp, hname⟩
    intro x hx
    rcases List.mem_pair.mp hx with rfl | rfl
    · exact hmade
    · obtain ⟨r', pages, serial, rfl, hmissing, hr'⟩ := humade
      refine ⟨r', pages, serial, rfl, Database.missing_of_kept hp hmissing, .inr ?_⟩
      simpa using hr'
  · exact ⟨[t], htables, by simpa using hmade, t, by simp, hname⟩

/-- A relation is made if it is missing. -/
theorem made_ensure (db : Database) (r : Table) :
    ∃ made, (ensure db r).tables = db.tables ++ made ∧ (∀ t ∈ made, Made db [r] t) ∧
      ((ensure db r).table? r.name).isSome := by
  unfold ensure
  split
  · rename_i hr
    exact ⟨[], by simp, by simp, hr⟩
  · rename_i hr
    obtain ⟨made, htables, hmade, t, ht, hname⟩ := made_create (Option.not_isSome_iff_eq_none.mp hr)
    refine ⟨made, htables, hmade, ?_⟩
    rw [Database.table?, List.find?_isSome]
    refine ⟨t, by rw [htables]; exact List.mem_append_right _ ht, ?_⟩
    rw [hname]
    exact sameName_iff.mpr rfl

theorem made_foldl (rs : List Table) (db : Database) :
    ∃ made, (rs.foldl ensure db).tables = db.tables ++ made ∧ (∀ t ∈ made, Made db rs t) ∧
      ∀ r ∈ rs, ((rs.foldl ensure db).table? r.name).isSome := by
  induction rs generalizing db with
  | nil => exact ⟨[], by simp⟩
  | cons r rs ih =>
    obtain ⟨made, htables, hmade, hfound⟩ := made_ensure db r
    obtain ⟨more, hrest, hmore, hall⟩ := ih (ensure db r)
    have hp : db.tables <+: (ensure db r).tables := ⟨made, htables.symm⟩
    refine ⟨made ++ more, ?_, ?_, ?_⟩
    · rw [List.foldl_cons, hrest, htables, List.append_assoc]
    · intro t ht
      rcases List.mem_append.mp ht with ht | ht
      · exact (hmade t ht).of_kept (List.prefix_refl _) (by simp)
      · exact (hmore t ht).of_kept hp (by simp)
    · intro r' hr'
      rcases List.mem_cons.mp hr' with rfl | hr'
      · obtain ⟨t, ht⟩ := Option.isSome_iff_exists.mp hfound
        rw [List.foldl_cons, Database.table?_of_kept ⟨more, hrest.symm⟩ ht]
        rfl
      · exact hall r' hr'

theorem foldl_ensure_of_found (h : ∀ r ∈ rs, (db.table? r.name).isSome) :
    rs.foldl ensure db = db := by
  induction rs with
  | nil => rfl
  | cons r rs ih =>
    obtain ⟨hr, hrs⟩ := List.forall_mem_cons.mp h
    rw [List.foldl_cons, ensure, if_pos hr]
    exact ih hrs

theorem ensureAll_of_complete (h : complete db) : ensureAll db = db :=
  foldl_ensure_of_found (List.all_eq_true.mp h)

/-- No two relations have the same name, and none has that of the counters. -/
theorem eq_of_sameName (hr : r ∈ all) (ht : t ∈ all ∨ t = Database.counters)
    (h : sameName t.name r.name) : t = r := by
  simp only [all, List.mem_cons, List.not_mem_nil, or_false] at hr ht
  rcases hr with rfl | rfl | rfl <;> rcases ht with (rfl | rfl | rfl) | rfl <;>
    first | rfl | exact absurd h (by decide)

theorem rows_of_made (ht : Made db all t) : t.rows = [] := by
  obtain ⟨r, pages, serial, rfl, -, hr⟩ := ht
  simp only [all, List.mem_cons, List.not_mem_nil, or_false] at hr
  rcases hr with (rfl | rfl | rfl) | rfl <;> rfl

/-- What was there is there unchanged, and the relations that were missing were made. -/
structure Completion (before after : Database) : Prop where
  kept : before.tables <+: after.tables
  tables : ∀ name t, before.table? name = some t → after.table? name = some t
  counters : ∀ name, after.counterRow? name = before.counterRow? name
  complete : ∀ r ∈ all, (after.table? r.name).isSome
  missing : ∀ r ∈ all, before.table? r.name = none →
    ∃ pages serial, after.table? r.name = some { r with rows := [], pages, serial }
  /-- Nothing else was made, but the table of counters where it was missing. -/
  made : ∀ t ∈ after.tables.drop before.tables.length, t.rows = [] ∧ Made before all t

theorem completion_ensureAll (db : Database) : Completion db (ensureAll db) := by
  obtain ⟨made, htables, hmade, hfound⟩ := made_foldl all db
  change (ensureAll db).tables = _ at htables
  have hp : db.tables <+: (ensureAll db).tables := ⟨made, htables.symm⟩
  refine ⟨hp, fun _ _ => Database.table?_of_kept hp, ?_, hfound, ?_, ?_⟩
  · intro name
    unfold Database.counterRow?
    rw [Database.table?_append htables]
    cases hcounters : db.table? counterName with
    | some t => rfl
    | none =>
      cases ht : made.find? fun t => sameName t.name counterName with
      | none => rfl
      | some t => simp [rows_of_made (hmade t (List.mem_of_find?_eq_some ht))]
  · intro r hr hmissing
    obtain ⟨t, ht⟩ := Option.isSome_iff_exists.mp (hfound r hr)
    change (ensureAll db).table? r.name = _ at ht
    have hfind := ht
    rw [Database.table?_append htables, hmissing, Option.none_or] at hfind
    have hempty := rows_of_made (hmade t (List.mem_of_find?_eq_some hfind))
    obtain ⟨r', pages, serial, rfl, -, hr'⟩ := hmade t (List.mem_of_find?_eq_some hfind)
    obtain rfl := eq_of_sameName hr hr' (by simpa using List.find?_some hfind)
    exact ⟨pages, serial, by rw [ht, ← hempty]⟩
  · intro t ht
    rw [htables, List.drop_left] at ht
    exact ⟨rows_of_made (hmade t ht), hmade t ht⟩

end Relations
end QueryServer
