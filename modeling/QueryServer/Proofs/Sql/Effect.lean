import QueryServer.Proofs.Sequence
import QueryServer.Sql.Script
/-!
What a statement leaves behind. One that fails leaves the store as it was, unless it says that the
rows written so far are to be kept; one that opens a transaction has changed nothing in it.
-/

namespace QueryServer.Sql

variable {schema : Schema}

/-- A change that says OR FAIL keeps the rows that it had written when it failed. -/
def Statement.saysOrFail : Statement → Bool
  | .insert mode .. => mode = .fail
  | .update mode .. => mode = .fail
  | _ => false

namespace Plan

def keepsRows : Plan → Bool
  | insert p => p.mode = .fail
  | modify p => p.mode = .fail
  | _ => false

end Plan

theorem Insertion.mode_prepare {mode : Conflict} {table : TableName}
    {columns : Option (List String)} {source : InsertSource} {returning : List ResultColumn}
    {p : Insertion} (h : prepare schema mode table columns source returning = .ok p) :
    p.mode = mode := by
  unfold prepare at h
  simp only [except_bind_eq_ok] at h
  obtain ⟨t, -, places, -, given, -, h⟩ := h
  cases given with
  | none =>
    simp only [except_bind_eq_ok] at h
    obtain ⟨db, -, -, -, db', -, -, -, terms, -, h⟩ := h
    cases h
    rfl
  | some q =>
    simp only [except_bind_eq_ok] at h
    obtain ⟨-, -, db, -, -, -, db', -, -, -, terms, -, h⟩ := h
    cases h
    rfl

theorem Modification.mode_prepare {mode : Conflict} {table : TableName} {given : Option String}
    {changes : List (String × Expr)} {filter : Option Expr} {returning : List ResultColumn}
    {p : Modification} (h : prepare schema mode table given changes filter returning = .ok p) :
    p.mode = mode := by
  unfold prepare at h
  simp only [except_bind_eq_ok] at h
  obtain ⟨t, -, terms, -, condition, -, db, -, -, -, returned, -, h⟩ := h
  cases h
  rfl

/-- Only a statement that says OR FAIL has a plan that keeps rows. -/
theorem Statement.keepsRows_plan {s : Statement} {p : Plan} (h : s.plan schema = .ok p) :
    p.keepsRows = s.saysOrFail := by
  cases s with
  | insert mode table columns source returning =>
    obtain ⟨i, hi, h⟩ := (except_bind_eq_ok _ _ _).mp h
    cases h
    simp [Plan.keepsRows, saysOrFail, Insertion.mode_prepare hi]
  | update mode table given changes filter returning =>
    obtain ⟨m, hm, h⟩ := (except_bind_eq_ok _ _ _).mp h
    cases h
    simp [Plan.keepsRows, saysOrFail, Modification.mode_prepare hm]
  | select s =>
    obtain ⟨q, -, h⟩ := (except_bind_eq_ok _ _ _).mp h
    cases h
    rfl
  | delete table given filter returning =>
    obtain ⟨d, -, h⟩ := (except_bind_eq_ok _ _ _).mp h
    cases h
    rfl
  | createTable head definition =>
    obtain ⟨db, -, h⟩ := (except_bind_eq_ok _ _ _).mp h
    split at h
    · cases h
    · split at h
      · cases h
        rfl
      · obtain ⟨t, -, h⟩ := (except_bind_eq_ok _ _ _).mp h
        cases h
        rfl
  | dropTable ifExists table =>
    obtain ⟨t?, -, h⟩ := (except_bind_eq_ok _ _ _).mp h
    cases t? <;> cases h <;> rfl
  | createIndex definition =>
    obtain ⟨found?, -, h⟩ := (except_bind_eq_ok _ _ _).mp h
    cases found? <;> cases h <;> rfl
  | dropIndex ifExists index =>
    obtain ⟨found?, -, h⟩ := (except_bind_eq_ok _ _ _).mp h
    cases found? <;> cases h <;> rfl
  | pragma database name value =>
    obtain ⟨db, -, h⟩ := (except_bind_eq_ok _ _ _).mp h
    split at h
    · cases h
    · cases h
      split <;> rfl
  | explain s =>
    obtain ⟨q, -, h⟩ := (except_bind_eq_ok _ _ _).mp h
    cases h
    rfl
  | begin | commit | rollback | savepoint | release | rollbackTo | vacuum =>
    cases h
    rfl

theorem Prepared.plan_of_next? {ls rest : List Lexeme} {p : Prepared}
    (h : next? schema ls = .ok (some (p, rest))) :
    ∃ q, Parsed.next? ls = .ok (some (q, rest)) ∧ q.statement.plan schema = .ok p.plan := by
  unfold next? at h
  split at h
  · cases h
  · cases h
  · rename_i q rest' hq
    obtain ⟨parameters, -, h⟩ := (except_bind_eq_ok _ _ _).mp h
    obtain ⟨plan, hplan, h⟩ := (except_bind_eq_ok _ _ _).mp h
    cases h
    exact ⟨q, hq, hplan⟩

theorem Prepared.first_of_only? {text : String} {p : Prepared}
    (h : only? schema text = .ok (some p)) :
    ∃ rest, next? schema (Lexeme.scan text.toList) = .ok (some (p, rest)) := by
  obtain ⟨first, hfirst, h⟩ := (except_bind_eq_ok _ _ _).mp h
  cases first with
  | none => cases h
  | some first =>
    obtain ⟨q, rest⟩ := first
    obtain ⟨second, -, h⟩ := (except_bind_eq_ok _ _ _).mp h
    cases second with
    | some _ => cases h
    | none =>
      cases h
      exact ⟨rest, hfirst⟩

theorem Broken.database_keeping {mode : Conflict} (hm : mode ≠ .fail) (before after : Database)
    (f : Fault) : (keeping mode before after f).database = before := by
  simp [keeping, hm]

theorem Insertion.database_of_error {p : Insertion} (hm : p.mode ≠ .fail) {db : Database}
    {b : Broken} (h : p.run db = .error b) : b.database = db := by
  unfold run at h
  split at h
  · cases h; rfl
  · cases h; rfl
  · split at h
    · cases h
      exact Broken.database_keeping hm _ _ _
    · split at h
      · cases h; rfl
      · cases h

theorem Modification.database_of_error {p : Modification} (hm : p.mode ≠ .fail) {db : Database}
    {b : Broken} (h : p.run db = .error b) : b.database = db := by
  unfold run at h
  split at h
  · cases h; rfl
  · split at h
    · cases h; rfl
    · split at h
      · cases h
        exact Broken.database_keeping hm _ _ _
      · split at h
        · cases h; rfl
        · cases h

theorem Deletion.database_of_error {p : Deletion} {db : Database} {b : Broken}
    (h : p.run db = .error b) : b.database = db := by
  unfold run at h
  split at h
  · cases h; rfl
  · rename_i t _
    cases ht : p.attempt db t with
    | error f =>
      rw [ht] at h
      cases h
      rfl
    | ok c =>
      rw [ht] at h
      cases h

/-- What a statement can do, over these tables. -/
inductive Plan.Outcome (p : Plan) (r : Rights) (schema : Schema) : Effect → Prop where
  | kept (result : Except Fault (List Tuple)) : Outcome p r schema (.keep schema result)
  /-- One that is to write at once gets the right to, unless it may only read. -/
  | opened (mode : TransactionMode) (hplan : p = .begin mode)
      (hfree : p.writesAtOnce → r.readOnly = false → r.locked = false) :
      Outcome p r schema ⟨schema, some schema, .ok []⟩
  | changed (before after : Database) (result : Except Fault (List Tuple))
      (hbefore : schema = .ok before) (hkeeps : ∀ f, result = .error f → p.keepsRows) :
      Outcome p r schema ⟨.ok after, none, result⟩

namespace Plan

variable {r : Rights}

theorem outcome_write (p : Plan) {change : Database → ChangeResult}
    (hchange : p.keepsRows = false → ∀ db b, change db = .error b → b.database = db) :
    p.Outcome r schema (.write r schema change) := by
  unfold Effect.write
  split
  · rename_i db hdb
    have hschema : schema = .ok db := by
      unfold Rights.writable at hdb
      split at hdb
      · cases hdb
      · split at hdb
        · cases hdb
        · exact hdb
    cases hc : change db with
    | ok c => exact .changed db c.database (.ok c.rows) hschema (fun f hf => by cases hf)
    | error b =>
      cases hk : p.keepsRows with
      | true => exact .changed db b.database (.error b.fault) hschema (fun _ _ => hk)
      | false =>
        have hsame : Effect.ofChange (.error b) = .keep schema (.error b.fault) := by
          simp [Effect.ofChange, Effect.keep, hchange hk db b hc, hschema]
        exact hsame ▸ .kept _
  · exact .kept _

theorem outcome_open (r : Rights) (schema : Schema) (mode : TransactionMode) :
    (begin mode).Outcome r schema (.open r schema mode) := by
  unfold Effect.open
  dsimp only
  split
  · rename_i hopened
    refine .opened mode rfl fun hmode hwrite => ?_
    cases hl : r.locked with
    | false => rfl
    | true => cases mode <;> simp [writesAtOnce, Rights.writable, hwrite, hl, Except.map] at *
  · exact .kept _

/-- Only a change that says OR FAIL leaves something behind when it fails. -/
theorem outcome_run (p : Plan) (r : Rights) (schema : Schema) :
    p.Outcome r schema (p.run r schema) := by
  cases p with
  | query q => exact .kept _
  | insert p =>
    refine outcome_write _ fun hp _ _ => Insertion.database_of_error ?_
    simpa [keepsRows] using hp
  | modify p =>
    refine outcome_write _ fun hp _ _ => Modification.database_of_error ?_
    simpa [keepsRows] using hp
  | delete p => exact outcome_write _ fun _ _ _ => Deletion.database_of_error
  | create t => exact outcome_write _ fun _ _ _ h => by cases h
  | drop table =>
    refine outcome_write _ fun _ db b h => ?_
    split at h <;> cases h
    rfl
  | index table i =>
    refine outcome_write _ fun _ db b h => ?_
    split at h <;> cases h
    rfl
  | dropIndex table name => exact outcome_write _ fun _ _ _ h => by cases h
  | begin mode => exact outcome_open r schema mode
  | resave => exact outcome_write _ fun _ _ _ h => by cases h
  | refused f => exact .kept _
  | nothing => exact .kept _

end Plan

theorem Prepared.outcome_run (p : Prepared) (r : Rights) (schema : Schema) :
    p.plan.Outcome r schema (p.run r schema) := by
  unfold run
  split
  · exact p.plan.outcome_run r schema
  · exact .kept _

end QueryServer.Sql
