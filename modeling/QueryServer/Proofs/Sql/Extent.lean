import Mathlib.Data.List.Basic
import QueryServer.Proofs.Sql.Taking
/-!
How far statements extend. What is taken for a statement are the lexemes up to a semicolon or the
end of the source, so the statements of a source are its non-empty pieces between semicolons, and
each of them is prepared from its own lexemes on.
-/

namespace QueryServer.Sql
namespace Grammar

variable {α : Type} {g : Grammar α}

@[simp] theorem takes_checkCondition : Takes checkCondition :=
  (takes_symbol (by simp)).bind fun _ => takes_remaining.bind fun _ => takes_expr.bind fun _ =>
    takes_remaining.bind fun _ => (takes_symbol (by simp)).bind (by simp)

@[simp] theorem takes_referredChange : Takes referredChange :=
  (takes_keyword? .DELETE).bind fun _ => .ite (takes_pure _) <|
    (takes_keyword? .UPDATE).bind fun _ => .ite (takes_pure _) (takes_keyword .INSERT)

theorem takes_referenceClauses (n : Nat) : Takes (referenceClauses n) := by
  induction n with
  | zero => exact takes_pure ()
  | succ n ih =>
    refine (takes_keyword? .MATCH).bind fun _ => .ite (takes_name.bind fun _ => ih) ?_
    refine (takes_keyword? .ON).bind fun _ => .ite ?_ (takes_pure ())
    exact takes_referredChange.bind fun _ => (takes_keyword .NO).bind fun _ =>
      (takes_keyword .ACTION).bind fun _ => ih

@[simp] theorem takes_foreignTable : Takes foreignTable :=
  (takes_keyword .REFERENCES).bind fun _ => takes_remaining.bind fun _ => takes_name.bind fun _ =>
    takes_optionalNameList.bind fun _ => takes_remaining.bind fun _ =>
    (takes_referenceClauses _).bind (by simp)

@[simp] theorem takes_initially : Takes initially :=
  (takes_keyword? .INITIALLY).bind fun _ => .ite
    ((takes_keyword? .DEFERRED).bind fun _ => .ite (takes_pure _)
      ((takes_keyword .IMMEDIATE).bind (by simp)))
    (takes_pure _)

@[simp] theorem takes_deferral? : Takes deferral? :=
  (takes_keyword? .NOT).bind fun _ => .ite
    ((takes_keyword .DEFERRABLE).bind fun _ => takes_initially.bind (by simp))
    ((takes_keyword? .DEFERRABLE).bind fun _ =>
      .ite (takes_initially.bind (by simp)) (takes_pure none))

@[simp] theorem takes_defaultValue : Takes defaultValue := by
  have hoperand : Takes (remaining >>= fun ls => operand (exprFuel ls.length)) :=
    takes_remaining.bind fun _ => (exprTakes _).operand
  refine (takes_symbol? (by simp)).bind fun _ => .ite ?_ ?_
  · exact takes_expr.bind fun _ => (takes_symbol (by simp)).bind (by simp)
  refine takes_peek fun next => ?_
  split
  · exact hoperand.at
  · exact hoperand.at
  · exact hoperand.at
  · rename_i token _ _ _
    cases hliteral : literalOf? token with
    | none => exact (takes_name.bind (by simp)).at
    | some e =>
      refine takesAt_take ?_ (by simp)
      rintro rfl
      cases hliteral
  · exact takes_stuck.at

theorem takes_columnConstraint? (label : Option String) : Takes (columnConstraint? label) := by
  refine takes_peek fun next => ?_
  split
  · exact Takes.at <| (takes_keyword .PRIMARY).bind fun _ => (takes_keyword .KEY).bind fun _ =>
      (takes_keyword? .ASC).bind fun _ => (takes_keyword? .AUTOINCREMENT).bind (by simp)
  · exact Takes.at <| (takes_keyword .NOT).bind fun _ => (takes_keyword? .DEFERRABLE).bind fun _ =>
      .ite (takes_initially.bind (by simp)) ((takes_keyword .NULL).bind (by simp))
  · exact Takes.at <| (takes_keyword .DEFERRABLE).bind fun _ => takes_initially.bind (by simp)
  · exact Takes.at <| (takes_keyword .UNIQUE).bind (by simp)
  · exact Takes.at <| (takes_keyword .CHECK).bind fun _ => takes_checkCondition.bind (by simp)
  · exact Takes.at <| (takes_keyword .DEFAULT).bind fun _ => takes_defaultValue.bind (by simp)
  · exact Takes.at <| takes_foreignTable.bind (by simp)
  · exact (takes_pure none).at

@[simp] theorem takes_constraintLabel? : Takes constraintLabel? :=
  takes_clause? takes_name

theorem takes_columnConstraints (n : Nat) : Takes (columnConstraints n) := by
  induction n with
  | zero => exact takes_pure []
  | succ n ih =>
    refine takes_constraintLabel?.bind fun label => (takes_columnConstraint? label).bind fun c => ?_
    cases c with
    | none => exact .ite ih (takes_pure [])
    | some c => exact ih.bind (by simp)

@[simp] theorem takes_column : Takes column :=
  takes_name.bind fun _ => takes_declaredType.bind fun _ => takes_remaining.bind fun _ =>
    (takes_columnConstraints _).bind (by simp)

theorem takes_tableConstraint? (label : Option String) : Takes (tableConstraint? label) := by
  refine takes_peek fun next => ?_
  split
  · exact Takes.at <| (takes_keyword .PRIMARY).bind fun _ => (takes_keyword .KEY).bind fun _ =>
      (takes_symbol (by simp)).bind fun _ => (takes_commaSeparated takes_name).bind fun _ =>
      (takes_keyword? .AUTOINCREMENT).bind fun _ => (takes_symbol (by simp)).bind (by simp)
  · exact Takes.at <| (takes_keyword .UNIQUE).bind fun _ => takes_nameList.bind (by simp)
  · exact Takes.at <| (takes_keyword .CHECK).bind fun _ => takes_checkCondition.bind (by simp)
  · exact Takes.at <| (takes_keyword .FOREIGN).bind fun _ => (takes_keyword .KEY).bind fun _ =>
      takes_nameList.bind fun _ => takes_foreignTable.bind fun _ => takes_deferral?.bind (by simp)
  · exact (takes_pure none).at

theorem takes_tableConstraints (n : Nat) : Takes (tableConstraints n) := by
  induction n with
  | zero => exact takes_pure []
  | succ n ih =>
    refine takes_constraintLabel?.bind fun label => (takes_tableConstraint? label).bind fun c => ?_
    cases c with
    | none => exact .ite ih (takes_pure [])
    | some c => exact (takes_symbol? (by simp)).bind fun _ => ih.bind (by simp)

@[simp] theorem takes_atTableConstraint : Takes atTableConstraint := by
  refine takes_peek fun next => ?_
  split <;> exact (takes_pure _).at

theorem takes_moreColumns (n : Nat) (done : List ColumnDefinition) :
    Takes (moreColumns n done) := by
  induction n generalizing done with
  | zero => exact takes_stuck
  | succ n ih =>
    refine (takes_symbol? (by simp)).bind fun _ => .ite ?_ (takes_pure _)
    refine takes_atTableConstraint.bind fun _ => .ite ?_ ?_
    · exact (takes_tableConstraints _).bind (by simp)
    · exact takes_column.bind fun c => ih (c :: done)

theorem takes_opening (head : TableHead) (hg : Takes g) : Takes (opening head g) := by
  intro ls a rest h
  exact hg ls a rest ((except_mapError_eq_ok _ _ _).mp h)

@[simp] theorem takes_ifNotExists : Takes ifNotExists :=
  (takes_keyword? .IF).bind fun _ => .ite
    ((takes_keyword .NOT).bind fun _ => (takes_keyword .EXISTS).bind (by simp)) (takes_pure _)

@[simp] theorem takes_nameAndSource : Takes nameAndSource :=
  takes_remaining.bind fun _ => takes_tableName.bind fun _ => takes_remaining.bind (by simp)

@[simp] theorem takes_createTable : Takes createTable := by
  refine (takes_keyword .TABLE).bind fun _ => takes_ifNotExists.bind fun ifNotExists =>
    takes_nameAndSource.bind fun named => (takes_atSymbol .open).bind fun opens =>
    .ite takes_stuck_bind (takes_opening _ ?_)
  exact (takes_symbol (by simp)).bind fun _ => takes_column.bind fun first =>
    takes_remaining.bind fun _ => (takes_moreColumns _ _).bind fun _ =>
    takes_remaining.bind fun _ => (takes_symbol (by simp)).bind (by simp)

@[simp] theorem takes_indexedColumn : Takes indexedColumn :=
  takes_name.bind fun _ => (takes_keyword? .ASC).bind (by simp)

@[simp] theorem takes_createIndex : Takes createIndex :=
  (takes_keyword? .UNIQUE).bind fun _ => (takes_keyword .INDEX).bind fun _ =>
    takes_ifNotExists.bind fun _ => takes_nameAndSource.bind fun _ => (takes_keyword .ON).bind fun _ =>
    takes_name.bind fun _ => (takes_symbol (by simp)).bind fun _ =>
    (takes_commaSeparated takes_indexedColumn).bind fun _ => (takes_symbol (by simp)).bind fun _ =>
    takes_remaining.bind (by simp)

@[simp] theorem takes_create : Takes create :=
  (takes_atKeyword .TABLE).bind fun _ => .ite takes_createTable takes_createIndex

@[simp] theorem takes_conflict : Takes conflict := by
  refine (takes_keyword? .OR).bind fun _ => .ite ?_ (takes_pure _)
  exact (takes_keyword? .IGNORE).bind fun _ => .ite (takes_pure _) <|
    (takes_keyword? .REPLACE).bind fun _ => .ite (takes_pure _) <|
    (takes_keyword? .ABORT).bind fun _ => .ite (takes_pure _) <|
    (takes_keyword? .FAIL).bind fun _ => .ite (takes_pure _) ((takes_keyword _).bind (by simp))

@[simp] theorem takes_returning : Takes returning :=
  (takes_keyword? .RETURNING).bind (by simp)

theorem takes_insertInto (c : Conflict) : Takes (insertInto c) := by
  refine (takes_keyword .INTO).bind fun _ => takes_tableName.bind fun table =>
    (takes_clause? takes_name).bind fun _ => (takes_atSymbol .open).bind fun _ => .ite ?_ ?_
  case' refine_1 => refine (takes_map takes_nameList).bind fun columns => ?_
  case' refine_2 => refine (takes_pure none).bind fun columns => ?_
  all_goals
    refine (takes_keyword? .DEFAULT).bind fun _ => .ite ?_ ?_
    · exact (takes_keyword .VALUES).bind fun _ => (takes_pure _).bind (by simp)
    · exact (takes_map takes_select).bind (by simp)

@[simp] theorem takes_assignment : Takes assignment :=
  takes_name.bind fun _ => (takes_symbol (by simp)).bind fun _ => takes_expr.bind (by simp)

@[simp] theorem takes_update : Takes update :=
  takes_conflict.bind fun _ => takes_tableName.bind fun _ => (takes_clause? takes_name).bind fun _ =>
    (takes_keyword .SET).bind fun _ => (takes_commaSeparated takes_assignment).bind fun _ =>
    (takes_clause? takes_expr).bind fun _ => takes_returning.bind (by simp)

@[simp] theorem takes_delete : Takes delete :=
  (takes_keyword .FROM).bind fun _ => takes_tableName.bind fun _ =>
    (takes_clause? takes_name).bind fun _ => (takes_clause? takes_expr).bind fun _ =>
    takes_returning.bind (by simp)

@[simp] theorem takes_ifExists : Takes ifExists :=
  (takes_keyword? .IF).bind fun _ => .ite ((takes_keyword .EXISTS).bind (by simp)) (takes_pure _)

@[simp] theorem takes_drop : Takes drop :=
  (takes_keyword? .INDEX).bind fun _ => .ite
    (takes_ifExists.bind fun _ => takes_tableName.bind (by simp))
    ((takes_keyword .TABLE).bind fun _ => takes_ifExists.bind fun _ => takes_tableName.bind (by simp))

@[simp] theorem takes_transaction : Takes transaction :=
  (takes_keyword? .TRANSACTION).bind (by simp)

@[simp] theorem takes_transactionMode : Takes transactionMode :=
  (takes_keyword? .IMMEDIATE).bind fun _ => .ite (takes_pure _) <|
    (takes_keyword? .EXCLUSIVE).bind fun _ => .ite (takes_pure _) ((takes_keyword? _).bind (by simp))

@[simp] theorem takes_beginTransaction : Takes beginTransaction :=
  takes_transactionMode.bind fun _ => takes_transaction.bind (by simp)

@[simp] theorem takes_rollback : Takes rollback := by
  refine takes_transaction.bind fun _ => (takes_keyword? .TO).bind fun _ => .ite ?_ (takes_pure _)
  exact (takes_keyword? .SAVEPOINT).bind fun _ => takes_name.bind (by simp)

@[simp] theorem takes_settingValue : Takes settingValue := by
  refine takes_peek fun next => ?_
  split
  · exact .ite (takesAt_take (by simp) (by simp)) takes_name.at
  · exact (takes_signedNumber.bind (by simp)).at
  · exact (takes_signedNumber.bind (by simp)).at
  · exact takesAt_take (by simp) (by simp)
  · exact takesAt_take (by simp) (by simp)
  · exact takesAt_take (by simp) (by simp)
  · exact takes_name.at

@[simp] theorem takes_pragma : Takes pragma := by
  refine takes_tableName.bind fun table => (takes_symbol? (by simp)).bind fun _ =>
    .ite (takes_settingValue.bind (by simp)) ?_
  exact (takes_symbol? (by simp)).bind fun _ =>
    .ite (takes_settingValue.bind fun _ => (takes_symbol (by simp)).bind (by simp)) (takes_pure _)

theorem takes_statementAfter (k : Keyword) : Takes (statementAfter k) := by
  unfold statementAfter
  split
  · exact takes_conflict.bind takes_insertInto
  · exact takes_insertInto .replace
  all_goals simp

@[simp] theorem takes_plainStatement : Takes plainStatement := by
  refine takes_peek fun next => ?_
  split
  · exact (takes_select.bind (by simp)).at
  · exact (takes_select.bind (by simp)).at
  · exact (takes_select.bind (by simp)).at
  · exact .ite (takesAt_take (by simp) fun _ => takes_statementAfter _) takes_stuck.at
  · exact takes_stuck.at

/-- A statement ends before the next semicolon. -/
theorem takes_statement : Takes statement := by
  have hplain : Takes (plainStatement >>= fun s => pure (Statement.explain s)) :=
    takes_plainStatement.bind (by simp)
  exact (takes_keyword? .EXPLAIN).bind fun _ => .ite
    ((takes_keyword? .QUERY).bind fun _ => .ite ((takes_keyword .PLAN).bind fun _ => hplain) hplain)
    takes_plainStatement

end Grammar

/-- The sources from the beginning of each statement on. A statement begins at a lexeme that is no
semicolon, where the source begins or behind a semicolon. The bodies of triggers, where semicolons
end no statement, are left out, and so is what a statement sets while it is prepared. -/
def starts (inside : Bool) : List Lexeme → List (List Lexeme)
  | [] => []
  | l :: ls =>
    if l.token = .symbol .semicolon then starts false ls
    else if inside then starts true ls
    else (l :: ls) :: starts true ls

/-- A lexeme at which a statement ends. -/
def isEnd (l : Lexeme) : Bool :=
  l.token = .symbol .semicolon

variable {l : Lexeme} {ls rest : List Lexeme} {schema : Schema} {p : Prepared} {f : Fault}

theorem starts_of_skipEmpty_nil (h : skipEmpty ls = []) : starts false ls = [] := by
  induction ls with
  | nil => rfl
  | cons l ls ih =>
    by_cases hl : l.token = .symbol .semicolon
    · simp only [skipEmpty, List.dropWhile_cons, hl, decide_true, if_true] at h
      simpa [starts, hl] using ih h
    · rw [skipEmpty_of_ne hl] at h
      cases h

/-- A source has its first statement where the semicolons before it end. -/
theorem starts_of_skipEmpty (h : skipEmpty ls = l :: rest) :
    starts false ls = (l :: rest) :: starts true rest := by
  induction ls with
  | nil => cases h
  | cons x xs ih =>
    by_cases hx : x.token = .symbol .semicolon
    · simp only [skipEmpty, List.dropWhile_cons, hx, decide_true, if_true] at h
      simpa [starts, hx] using ih h
    · rw [skipEmpty_of_ne hx] at h
      cases h
      simp [starts, hx]

/-- No statement begins inside another one. -/
theorem starts_of_reaches (h : Reaches ls rest) : starts true ls = starts true rest := by
  obtain ⟨taken, rfl, htaken⟩ := h
  induction taken with
  | nil => rfl
  | cons l taken ih =>
    simp only [List.forall_mem_cons] at htaken
    simpa [starts, htaken.1] using ih htaken.2

theorem head_of_skipEmpty (h : skipEmpty ls = l :: rest) : l.token ≠ .symbol .semicolon := by
  have hhead := List.head?_dropWhile_not (fun x : Lexeme => decide (x.token = .symbol .semicolon)) ls
  unfold skipEmpty at h
  rw [h] at hhead
  simpa using hhead

theorem Parsed.next?_skipEmpty (ls : List Lexeme) : next? (skipEmpty ls) = next? ls := by
  have hskip : skipEmpty (skipEmpty ls) = skipEmpty ls := by
    cases hstart : skipEmpty ls with
    | nil => rfl
    | cons l rest => exact skipEmpty_of_ne (head_of_skipEmpty hstart)
  unfold next?
  rw [hskip]

theorem take_of_unbroken {taken : List Lexeme}
    (h : ∀ l ∈ taken, l.token ≠ .symbol .semicolon) (hrest : ∀ l ∈ rest.head?, isEnd l) :
    (taken ++ rest).take ((taken ++ rest).length - rest.length) =
      (taken ++ rest).takeWhile (!isEnd ·) := by
  have htaken : ∀ l ∈ taken, (!isEnd l) = true := by
    intro l hl
    simpa [isEnd] using h l hl
  have hnone : rest.takeWhile (!isEnd ·) = [] := by
    cases rest with
    | nil => rfl
    | cons l rest => simp [hrest l rfl]
  rw [List.takeWhile_append_of_pos htaken, hnone]
  simp

/-- A statement is read from its first lexeme on and has all lexemes up to the next semicolon, or
to the end of the source. What follows has the other statements. -/
theorem Parsed.starts_of_next? {q : Parsed} (h : next? ls = .ok (some (q, rest))) :
    starts false ls = skipEmpty ls :: starts false rest ∧
      q.lexemes = (skipEmpty ls).takeWhile (!isEnd ·) := by
  unfold next? at h
  cases hstart : skipEmpty ls with
  | nil =>
    rw [hstart] at h
    cases h
  | cons l others =>
    rw [hstart] at h
    rw [starts_of_skipEmpty hstart]
    dsimp only at h
    cases hs : Grammar.statement (l :: others) with
    | error u =>
      rw [hs] at h
      cases h
    | ok result =>
      obtain ⟨s, after⟩ := result
      rw [hs] at h
      have hreaches := Grammar.takes_statement _ _ _ hs
      have hothers : starts true others = starts true after := by
        have hsame := starts_of_reaches hreaches
        simpa [starts, head_of_skipEmpty hstart] using hsame
      obtain ⟨taken, htaken, hunbroken⟩ := hreaches
      rw [hothers]
      dsimp only at h
      cases after with
      | nil =>
        cases h
        have htake := @take_of_unbroken [] taken hunbroken (by simp)
        exact ⟨rfl, by simpa [htaken] using htake⟩
      | cons x after =>
        by_cases hx : x.token = .symbol .semicolon
        · simp only [hx, if_true] at h
          cases h
          refine ⟨by simp [starts, hx], ?_⟩
          rw [htaken]
          exact take_of_unbroken hunbroken (by simpa [isEnd] using hx)
        · simp [hx] at h

/-- The first statement of a source, prepared or refused; nothing if there is none. -/
def Prepared.first? (schema : Schema) (ls : List Lexeme) : Option (Except Fault Prepared) :=
  match next? schema ls with
  | .error f => some (.error f)
  | .ok none => none
  | .ok (some (p, _)) => some (.ok p)

/-- All statements of a source, each prepared or refused on its own. -/
def Prepared.each (schema : Schema) (ls : List Lexeme) : List (Except Fault Prepared) :=
  (starts false ls).filterMap (first? schema)

theorem Prepared.next?_eq_none_iff : next? schema ls = .ok none ↔ skipEmpty ls = [] := by
  constructor
  · exact skipEmpty_of_next?
  · intro h
    simp [next?, Parsed.next?, h]

theorem Prepared.next?_skipEmpty (schema : Schema) (ls : List Lexeme) :
    next? schema (skipEmpty ls) = next? schema ls := by
  simp only [next?, Parsed.next?_skipEmpty]

end QueryServer.Sql
