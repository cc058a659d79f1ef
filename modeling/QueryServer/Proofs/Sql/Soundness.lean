import QueryServer.Proofs.Sql.Effect
import QueryServer.Proofs.Sql.Insertion
import QueryServer.Proofs.Store.Relations
/-!
What a store keeps true of its table of users, whatever statements it runs: the rows stand in the
order of their numbers, and the names are values that a column of texts can hold.
-/

namespace QueryServer.Sql
open Relations

/-- The row begins with a value that a column of texts can hold. -/
def isNamed (row : Tuple) : Bool :=
  row.head?.any Datum.isTextual

theorem isNamed_stored {n : Int64} {values : Tuple} (h : values ≠ []) :
    isNamed (users.shape.stored n values) := by
  cases values with
  | nil => contradiction
  | cons d values => exact Datum.isTextual_store d

namespace Table

structure Sound (t : Table) : Prop where
  ordered : Ordered t.rows
  named : t.shape.bare = users.shape → ∀ r ∈ t.rows, isNamed r.values

/-- What becomes of a table that is written to. -/
structure Follows (t t' : Table) : Prop where
  name : t'.name = t.name
  shape : t'.shape = t.shape
  sound : t.Sound → t'.Sound

variable {t t' t'' : Table} {r : Record} {rows : List Record} {mode : Conflict}

theorem Follows.refl (t : Table) : t.Follows t :=
  ⟨rfl, rfl, id⟩

theorem Follows.trans (h : t.Follows t') (h' : t'.Follows t'') : t.Follows t'' :=
  ⟨h'.name.trans h.name, h'.shape.trans h.shape, h'.sound ∘ h.sound⟩

theorem sound_of_empty (h : t.rows = []) : t.Sound := by
  constructor <;> simp [h, Ordered]

theorem follows_filter (t : Table) (p : Record → Bool) :
    t.Follows { t with rows := t.rows.filter p } where
  name := rfl
  shape := rfl
  sound ht := ⟨ht.ordered.filter p, fun hs r hr => ht.named hs r (List.mem_of_mem_filter hr)⟩

theorem follows_place (hr : t.shape.bare = users.shape → isNamed r.values)
    (hrows : rows.Sublist t.rows) (hnumber : ∀ x ∈ rows, x.number ≠ r.number) :
    t.Follows { t with rows := place r rows } where
  name := rfl
  shape := rfl
  sound ht := by
    refine ⟨ordered_place (ht.ordered.sublist hrows) hnumber, fun hs x hx => ?_⟩
    rcases List.mem_cons.mp ((place_perm r rows).mem_iff.mp hx) with rfl | hx
    · exact hr hs
    · exact ht.named hs x (hrows.subset hx)

theorem number_of_violation? (h : t.violation? rows r = none) :
    ∀ x ∈ rows, x.number ≠ r.number := by
  unfold violation? at h
  split at h
  · cases h
  · rename_i hnumbers
    simpa using hnumbers

/-- A row finds its place among the others; those that it replaces have gone before. -/
theorem follows_accept {old : Option Int64} (hr : t.shape.bare = users.shape → isNamed r.values)
    (h : t.accept mode old r = .ok (some t')) : t.Follows t' := by
  unfold accept at h
  dsimp only at h
  split at h
  · rename_i hnone
    cases h
    exact follows_place hr List.filter_sublist (number_of_violation? hnone)
  · cases mode <;> cases h
    refine follows_place hr (List.filter_sublist.trans List.filter_sublist) fun x hx hn => ?_
    have hclash := (List.mem_filter.mp hx).2
    simp [clash, hn] at hclash

end Table

theorem Draught.follows_write {d d' : Draught} {mode : Conflict} {old : Option Int64} {r : Record}
    {returning : List Term} (hr : d.table.shape.bare = users.shape → isNamed r.values)
    (h : d.write mode old r returning = .ok d') : d.table.Follows d'.table := by
  unfold write at h
  obtain ⟨passed, -, h⟩ := (except_bind_eq_ok _ _ _).mp h
  split at h
  · obtain ⟨accepted, haccepted, h⟩ := (except_bind_eq_ok _ _ _).mp h
    cases accepted with
    | none =>
      cases h
      exact .refl _
    | some t =>
      obtain ⟨shown, -, h⟩ := (except_bind_eq_ok _ _ _).mp h
      cases h
      exact Table.follows_accept hr haccepted
  · cases h
    exact .refl _

/-- Users are written as their columns store them. -/
theorem Table.isNamed_filled {t : Table} {mode : Conflict} {n : Int64} {values row : Tuple}
    (hvalues : values.length = t.shape.columns.length)
    (h : t.filled mode (t.shape.stored n values) = .ok row)
    (hshape : t.shape.bare = users.shape) : isNamed row := by
  have hcolumns : t.shape.columns = users.shape.columns := (congrArg Shape.columns hshape :)
  have hstored : t.shape.bare.stored n values = users.shape.stored n values := by rw [hshape]
  change t.filled mode (t.shape.bare.stored n values) = .ok row at h
  rw [hstored, filled_users hcolumns] at h
  cases h
  refine isNamed_stored fun hnone => ?_
  rw [hnone, hcolumns] at hvalues
  cases hvalues

theorem Draught.follows_stored {d d' e : Draught} {mode : Conflict} {old : Option Int64}
    {n : Int64} {values : Tuple} {returning : List Term} (hd : e.table = d.table)
    (hvalues : values.length = d.table.shape.columns.length)
    (h : (do
      let row ← d.table.filled mode (d.table.shape.stored n values)
      e.write mode old ⟨n, row⟩ returning) = .ok d') : d.table.Follows d'.table := by
  obtain ⟨row, hrow, h⟩ := (except_bind_eq_ok _ _ _).mp h
  rw [← hd] at hvalues hrow ⊢
  exact follows_write (Table.isNamed_filled hvalues hrow) h

namespace Insertion

variable {p : Insertion} {d d' : Draught} {db db' : Database} {given : Tuple}

theorem follows_writeRow (h : p.writeRow d given = .ok d') : d.table.Follows d'.table := by
  obtain ⟨values, hvalues, h⟩ := (except_bind_eq_ok _ _ _).mp h
  obtain ⟨asked, -, h⟩ := (except_bind_eq_ok _ _ _).mp h
  obtain ⟨number, -, h⟩ := (except_bind_eq_ok _ _ _).mp h
  have hlength := length_of_mapM hvalues
  rw [List.length_range] at hlength
  -- the number is the one that was asked for, or a new one
  split at h
  all_goals
    obtain ⟨n, -, h⟩ := (except_bind_eq_ok _ _ _).mp h
    exact Draught.follows_stored (e := { d with counter := max d.counter n.toInt }) rfl hlength h

theorem follows_writeRows (p : Insertion) (d : Draught) (rows : List Tuple) :
    d.table.Follows (p.writeRows d rows).1.table := by
  induction rows generalizing d with
  | nil => exact .refl _
  | cons given rows ih =>
    unfold writeRows
    split
    · rename_i d' hd
      exact (follows_writeRow hd).trans (ih d')
    · exact .refl _

end Insertion

namespace Modification

variable {p : Modification} {d d' : Draught}

theorem follows_writeRow {n : Int64} (h : p.writeRow d n = .ok d') :
    d.table.Follows d'.table := by
  unfold writeRow at h
  split at h
  · cases h
    exact .refl _
  · obtain ⟨news, -, h⟩ := (except_bind_eq_ok _ _ _).mp h
    split at h
    · obtain ⟨n, -, h⟩ := (except_bind_eq_ok _ _ _).mp h
      exact Draught.follows_stored rfl (by simp) h
    · obtain ⟨asked, -, h⟩ := (except_bind_eq_ok _ _ _).mp h
      split at h
      · obtain ⟨n, -, h⟩ := (except_bind_eq_ok _ _ _).mp h
        exact Draught.follows_stored rfl (by simp) h
      · cases h

theorem follows_writeRows (p : Modification) (d : Draught) (numbers : List Int64) :
    d.table.Follows (p.writeRows d numbers).1.table := by
  induction numbers generalizing d with
  | nil => exact .refl _
  | cons n numbers ih =>
    unfold writeRows
    split
    · rename_i d' hd
      exact (follows_writeRow hd).trans (ih d')
    · exact .refl _

end Modification

namespace Database

variable {db db' : Database} {t t' : Table} {name : String}

/-- The table of users, if there is one, is sound. -/
def Sound (db : Database) : Prop :=
  ∀ t, db.table? users.name = some t → t.Sound

theorem sound_replace (hdb : db.Sound) (h : db.table? name = some t) (hname : t'.name = t.name)
    (ht : t.Sound → t'.Sound) : (db.put t').Sound := by
  have hself : db.table? t.name = some t := by
    have hname : sameName t.name name := by simpa using List.find?_some h
    rwa [table?_congr hname]
  intro u hu
  rw [table?_put hname hself] at hu
  split at hu
  · rename_i husers
    cases hu
    exact ht (hdb t ((table?_congr husers db).symm.trans hself))
  · exact hdb u hu

theorem sound_put (hdb : db.Sound) (h : db.table? name = some t) (ht : t.Follows t') :
    (db.put t').Sound :=
  sound_replace hdb h ht.name ht.sound

/-- Indexes come and go without the rows. -/
theorem sound_reindex (hdb : db.Sound) (h : db.table? name = some t) (indexes : List Index) :
    (db.put { t with shape := { t.shape with indexes } }).Sound :=
  sound_replace hdb h rfl fun ht => ⟨ht.ordered, ht.named⟩

theorem sound_addIndex {i : Index} (hdb : db.Sound) (h : db.addIndex name i = .ok db') :
    db'.Sound := by
  unfold addIndex at h
  split at h
  · cases h
  · rename_i t ht
    split at h <;> cases h
    exact sound_reindex hdb ht _

theorem sound_dropIndex (hdb : db.Sound) (table index : String) :
    (db.dropIndex table index).Sound := by
  unfold dropIndex
  split
  · exact hdb
  · rename_i t ht
    exact sound_reindex hdb ht _

theorem sound_setCounter (hdb : db.Sound) (table : String) (n : Int) :
    (db.setCounter table n).Sound := by
  unfold setCounter
  split
  · exact hdb
  · rename_i t ht
    refine sound_put hdb ht (Table.follows_place (fun _ => rfl) List.filter_sublist fun x hx => ?_)
    simpa using (List.mem_filter.mp hx).2

theorem sound_dropCounter (hdb : db.Sound) (table : String) : (db.dropCounter table).Sound := by
  unfold dropCounter
  split
  · exact hdb
  · rename_i t ht
    exact sound_put hdb ht (Table.follows_filter t _)

theorem sound_remove (hdb : db.Sound) (name : String) : (db.remove name).Sound := by
  intro t ht
  rw [table?, remove, List.find?_filter] at ht
  have hfound := List.find?_some ht
  simp only [decide_eq_true_eq, Bool.not_eq_true'] at hfound
  -- any other table of that name would have been removed too
  have hother : sameName users.name name = false := by
    rw [← (sameName_congr hfound.2 name).1]
    exact hfound.1
  refine hdb t (Eq.trans (congrArg (List.find? · db.tables) ?_) ht)
  funext u
  cases hu : sameName u.name users.name with
  | false => simp
  | true => simp [(sameName_congr hu name).1, hother]

theorem sound_append (hdb : db.Sound) (ht : t.rows = []) : (db.append t).Sound := by
  intro u hu
  have htables : (db.append t).tables = db.tables ++ [_] := rfl
  rw [table?_append htables] at hu
  rcases Option.or_eq_some_iff.mp hu with hu | ⟨-, hu⟩
  · exact hdb u hu
  · rw [List.mem_singleton.mp (List.mem_of_find?_eq_some hu)]
    exact Table.sound_of_empty ht

theorem sound_create (hdb : db.Sound) (ht : t.rows = []) : (db.create t).Sound := by
  unfold create
  dsimp only
  split
  · exact sound_append (sound_append hdb ht) rfl
  · exact sound_append hdb ht

theorem sound_drop (hdb : db.Sound) (h : db.drop name = .ok db') : db'.Sound := by
  unfold drop at h
  split at h
  · cases h
  · obtain ⟨-, -, h⟩ := (except_bind_eq_ok _ _ _).mp h
    cases h
    exact sound_dropCounter (sound_remove hdb name) _

theorem sound_ensureAll (hdb : db.Sound) : (ensureAll db).Sound := by
  intro t ht
  have hmade := completion_ensureAll db
  cases hu : db.table? users.name with
  | some u =>
    rw [hmade.tables _ u hu] at ht
    cases ht
    exact hdb t hu
  | none =>
    obtain ⟨pages, serial, hnew⟩ := hmade.missing users List.mem_cons_self hu
    rw [hnew] at ht
    cases ht
    exact Table.sound_of_empty rfl

theorem eq_of_keepingReferences {after : Database} (h : db.keepingReferences after = .ok db') :
    db' = after := by
  unfold keepingReferences at h
  split at h <;> cases h
  rfl

end Database

/-- The tables that can be read are sound. -/
def Schema.Sound (schema : Schema) : Prop :=
  ∀ db, schema = .ok db → db.Sound

theorem Schema.sound_ok {db : Database} (hdb : db.Sound) : Schema.Sound (.ok db) := by
  rintro db' ⟨⟩
  exact hdb

theorem Schema.sound_empty : Schema.Sound (.ok {}) :=
  sound_ok nofun

namespace Effect

structure Sound (e : Effect) : Prop where
  committed : Schema.Sound e.committed
  pending : ∀ schema, e.pending = some schema → Schema.Sound schema

variable {r : Rights} {schema : Schema} {db : Database}

theorem sound_keep (hs : Schema.Sound schema) (result : Except Fault (List Tuple)) :
    (keep schema result).Sound :=
  ⟨hs, nofun⟩

theorem sound_ok (hdb : db.Sound) (rows : List Tuple) : (ofChange (.ok ⟨db, rows⟩)).Sound :=
  ⟨Schema.sound_ok hdb, nofun⟩

theorem sound_error (hdb : db.Sound) (f : Fault) : (ofChange (.error ⟨f, db⟩)).Sound :=
  ⟨Schema.sound_ok hdb, nofun⟩

theorem sound_write {change : Database → ChangeResult} (hs : Schema.Sound schema)
    (hchange : ∀ db : Database, db.Sound → (ofChange (change db)).Sound) :
    (write r schema change).Sound := by
  unfold write
  split
  · rename_i db hdb
    refine hchange db (hs db ?_)
    unfold Rights.writable at hdb
    split at hdb
    · cases hdb
    · split at hdb
      · cases hdb
      · exact hdb
  · exact sound_keep hs _

theorem sound_open (hs : Schema.Sound schema) (mode : TransactionMode) :
    (Effect.open r schema mode).Sound := by
  unfold Effect.open
  dsimp only
  split
  · exact ⟨hs, fun _ h => Option.some.inj h ▸ hs⟩
  · exact sound_keep hs _

end Effect

section
variable {db : Database} (hdb : db.Sound)
include hdb

theorem Effect.sound_broken {db' : Database} (hdb' : db'.Sound) (mode : Conflict) (f : Fault) :
    (Effect.ofChange (.error (.keeping mode db db' f))).Sound := by
  unfold Broken.keeping
  split
  · split
    · exact Effect.sound_error hdb _
    · rename_i kept hkept
      obtain rfl := Database.eq_of_keepingReferences hkept
      exact Effect.sound_error hdb' f
  · exact Effect.sound_error hdb f

theorem Insertion.sound_run (p : Insertion) : (Effect.ofChange (p.run db)).Sound := by
  unfold run
  split
  · exact Effect.sound_error hdb _
  · exact Effect.sound_error hdb _
  · rename_i t rows ht hrows
    have hfollows := p.follows_writeRows ⟨t, db.counter t.name, []⟩ rows
    split
    · rename_i d f hd
      rw [hd] at hfollows
      exact Effect.sound_broken hdb (Database.sound_put hdb ht hfollows) _ f
    · rename_i d hd
      rw [hd] at hfollows
      split
      · exact Effect.sound_error hdb _
      · rename_i db' hkept
        obtain rfl := Database.eq_of_keepingReferences hkept
        refine Effect.sound_ok ?_ _
        have hput := Database.sound_put hdb ht hfollows
        unfold settle
        dsimp only
        split
        · exact Database.sound_setCounter hput _ _
        · exact hput

theorem Modification.sound_run (p : Modification) : (Effect.ofChange (p.run db)).Sound := by
  unfold run
  split
  · exact Effect.sound_error hdb _
  · rename_i t ht
    split
    · exact Effect.sound_error hdb _
    · rename_i numbers hnumbers
      have hfollows := p.follows_writeRows ⟨t, 0, []⟩ numbers
      split
      · rename_i d f hd
        rw [hd] at hfollows
        exact Effect.sound_broken hdb (Database.sound_put hdb ht hfollows) _ f
      · rename_i d hd
        rw [hd] at hfollows
        split
        · exact Effect.sound_error hdb _
        · rename_i db' hkept
          obtain rfl := Database.eq_of_keepingReferences hkept
          exact Effect.sound_ok (Database.sound_put hdb ht hfollows) _

theorem Deletion.sound_run (p : Deletion) : (Effect.ofChange (p.run db)).Sound := by
  unfold run
  split
  · exact Effect.sound_error hdb _
  · rename_i t ht
    cases hattempt : p.attempt db t with
    | error f => exact Effect.sound_error hdb f
    | ok c =>
      unfold attempt at hattempt
      simp only [except_bind_eq_ok] at hattempt
      obtain ⟨numbers, -, rows, -, db', hkept, h⟩ := hattempt
      obtain rfl := Database.eq_of_keepingReferences hkept
      cases h
      exact Effect.sound_ok (Database.sound_put hdb ht (Table.follows_filter t _)) _

end

/-- Tables are made without rows. -/
theorem Table.rows_of_define {name : String} {definition : TableDefinition} {t : Table}
    (h : define name definition = .ok t) : t.rows = [] := by
  unfold define at h
  simp only [except_bind_eq_ok] at h
  obtain ⟨o, -, o', -, checks, -, h⟩ := h
  cases h
  rfl

theorem Statement.rows_of_create {s : Statement} {t : Table} {schema : Schema}
    (h : s.plan schema = .ok (.create t)) : t.rows = [] := by
  cases s with
  | createTable head definition =>
    obtain ⟨db, -, h⟩ := (except_bind_eq_ok _ _ _).mp h
    split at h
    · cases h
    · split at h
      · cases h
      · obtain ⟨u, hu, h⟩ := (except_bind_eq_ok _ _ _).mp h
        cases h
        exact Table.rows_of_define hu
  | dropTable ifExists table =>
    obtain ⟨u, -, h⟩ := (except_bind_eq_ok _ _ _).mp h
    cases u <;> cases h
  | createIndex definition =>
    obtain ⟨found?, -, h⟩ := (except_bind_eq_ok _ _ _).mp h
    cases found? <;> cases h
  | dropIndex ifExists index =>
    obtain ⟨found?, -, h⟩ := (except_bind_eq_ok _ _ _).mp h
    cases found? <;> cases h
  | pragma database name value =>
    obtain ⟨db, -, h⟩ := (except_bind_eq_ok _ _ _).mp h
    split at h
    · cases h
    · split at h <;> cases h
  | select | insert | update | delete | explain =>
    obtain ⟨u, -, h⟩ := (except_bind_eq_ok _ _ _).mp h
    cases h
  | begin | commit | rollback | savepoint | release | rollbackTo | vacuum => cases h

/-- Whatever a statement asks for, the tables stay sound. -/
theorem Statement.sound_run {s : Statement} {p : Plan} {schema : Schema} (h : s.plan schema = .ok p)
    (hs : Schema.Sound schema) (r : Rights) : (p.run r schema).Sound := by
  cases p with
  | query q => exact Effect.sound_keep hs _
  | insert p => exact Effect.sound_write hs fun _ hdb => p.sound_run hdb
  | modify p => exact Effect.sound_write hs fun _ hdb => p.sound_run hdb
  | delete p => exact Effect.sound_write hs fun _ hdb => p.sound_run hdb
  | create t =>
    have ht := rows_of_create h
    exact Effect.sound_write hs fun _ hdb => Effect.sound_ok (Database.sound_create hdb ht) _
  | drop name =>
    refine Effect.sound_write hs fun db hdb => ?_
    split
    · rename_i db' hdrop
      exact Effect.sound_ok (Database.sound_drop hdb hdrop) _
    · exact Effect.sound_error hdb _
  | index name i =>
    refine Effect.sound_write hs fun db hdb => ?_
    split
    · rename_i db' hindex
      exact Effect.sound_ok (Database.sound_addIndex hdb hindex) _
    · exact Effect.sound_error hdb _
  | dropIndex table name =>
    exact Effect.sound_write hs fun _ hdb => Effect.sound_ok (Database.sound_dropIndex hdb _ _) _
  | begin mode => exact Effect.sound_open hs mode
  | resave => exact Effect.sound_write hs fun _ hdb => Effect.sound_ok hdb _
  | refused f => exact Effect.sound_keep hs _
  | nothing => exact Effect.sound_keep hs _

end QueryServer.Sql
