import QueryServer.Proofs.Sql.Transaction
import QueryServer.Proofs.Text.Utf8
/-!
Commands that are reads. What begins like SELECT is a query, or it cannot be prepared at all, so a
read leaves the tables as they are.
-/

namespace QueryServer
open Sql

namespace Command

/-- A read begins with the letters of SELECT. -/
theorem start_of_read {c : Command} (h : c.kind = .read) :
    ∃ start, start <+: Text.trimStart c.text.toList ∧
      start.map Char.toUpper = "SELECT".toList := by
  unfold kind at h
  split at h
  · rename_i start hstart
    split at h
    · exact ⟨start, (Text.Utf8.front?_eq_some_iff.mp hstart).1, ‹_›⟩
    · cases h
  · cases h

theorem table_select :
    Keyword.table.filter (fun entry => entry.1.toList.isPrefixOf "SELECT".toList ||
      "SELECT".toList.isPrefixOf entry.1.toList) = [("SELECT", .SELECT)] := by
  decide +kernel

theorem select_of_start {entry : String × Keyword} (he : entry ∈ Keyword.table)
    (h : entry.1.toList <+: "SELECT".toList ∨ "SELECT".toList <+: entry.1.toList) :
    entry.2 = .SELECT := by
  have hmem : entry ∈ [("SELECT", Keyword.SELECT)] := by
    rw [← table_select, List.mem_filter]
    simpa only [he, true_and, Bool.or_eq_true, List.isPrefixOf_iff_prefix] using h
  rw [List.mem_singleton.mp hmem]

theorem table_initial : Keyword.table.all fun entry =>
    entry.1.toList.head?.any fun c => !Text.isBlank c := by
  decide +kernel

theorem initial_of_entry {entry : String × Keyword} (he : entry ∈ Keyword.table) :
    ∃ c, entry.1.toList.head? = some c ∧ Text.isBlank c = false := by
  have hany := List.all_eq_true.mp table_initial entry he
  rw [Option.any_eq_true] at hany
  simpa using hany

variable {c : Command} {l : Lexeme} {ls : List Lexeme}

theorem initial_of_keyword {k : Keyword} (hl : l.Spelled) (hk : l.token = .keyword k) :
    ∃ d, l.text.head? = some d ∧ Text.isBlank d = false := by
  obtain ⟨initial, hinitial, hb⟩ := initial_of_entry (hl.entry hk)
  rw [String.toList_ofList, List.head?_map] at hinitial
  obtain ⟨d, hd, rfl⟩ := Option.map_eq_some_iff.mp hinitial
  refine ⟨d, hd, ?_⟩
  cases hblank : Text.isBlank d with
  | false => rfl
  | true => rwa [toUpper_of_blank hblank, hblank] at hb

/-- The first token of a read is the word SELECT, or none that a statement can begin with. -/
theorem first_of_read (hk : c.kind = .read) (h : Lexeme.scan c.text.toList = l :: ls) :
    l.token = .keyword .SELECT ∨ Lexeme.isOther l.token := by
  obtain ⟨start, hstart, hupper⟩ := start_of_read hk
  obtain ⟨hspelled, hleads⟩ := Lexeme.first_of_scan h
  -- a first character that is no blank is where the letters of SELECT begin
  have hstarts : ∀ d, l.text.head? = some d → Text.isBlank d = false →
      l.text <+: Text.trimStart c.text.toList := by
    intro d hd hb
    obtain ⟨first, rest, htrim, hfirst⟩ := hleads d hd hb
    rw [htrim] at hstart ⊢
    refine hfirst.resolve_right fun hmark => ?_
    cases start with
    | nil => cases hupper
    | cons s start =>
      obtain rfl := (List.cons_prefix_cons.mp hstart).1
      rcases hmark with rfl | rfl | rfl <;> simp at hupper
  cases ht : l.token with
  | keyword k =>
    have hentry := hspelled.entry ht
    obtain ⟨d, hd, hblank⟩ := initial_of_keyword hspelled ht
    have hselect := select_of_start hentry <| by
      rw [String.toList_ofList, ← hupper]
      exact (List.prefix_or_prefix_of_prefix (hstarts d hd hblank) hstart).imp
        (·.map Char.toUpper) (·.map Char.toUpper)
    exact .inl (congrArg Token.keyword hselect)
  | symbol x =>
    by_cases hx : x = .semicolon
    · subst hx
      have hhead := hspelled.semicolon ht
      obtain ⟨tail, htail⟩ := List.head?_eq_some_iff.mp hhead
      have hsemicolon := hstarts ';' hhead (by decide)
      cases start with
      | nil => cases hupper
      | cons s start =>
        obtain ⟨rest, hrest⟩ := hstart
        rw [htail, ← hrest, List.cons_append, List.cons_prefix_cons] at hsemicolon
        rw [← hsemicolon.1] at hupper
        simp at hupper
    · exact .inr (by cases x <;> first | rfl | contradiction)
  | _ => exact .inr rfl

end Command

namespace Sql

variable {l : Lexeme} {ls rest : List Lexeme} {s : Statement} {schema : Schema}

theorem Grammar.select_of_statement (hl : l.token = .keyword .SELECT)
    (h : statement (l :: ls) = .ok (s, rest)) : ∃ q, s = .select q := by
  unfold statement at h
  rw [bind_of_ok (keyword?_of_ne (head_keyword hl (by decide) ls))] at h
  have hpeek : peek (l :: ls) = .ok (some (.keyword .SELECT), l :: ls) := by simp [peek, hl]
  change plainStatement (l :: ls) = _ at h
  unfold plainStatement at h
  rw [bind_of_ok hpeek] at h
  obtain ⟨q, after, -, h⟩ := ok_of_bind h
  cases h
  exact ⟨q, rfl⟩

theorem Grammar.no_statement_of_other (hl : Lexeme.isOther l.token) :
    statement (l :: ls) ≠ .ok (s, rest) := by
  intro h
  have hword : ∀ k, l.token ≠ .keyword k := fun k hk => by simp [hk, Lexeme.isOther] at hl
  have hexplain : ∀ x ∈ (l :: ls).head?, x.token ≠ .keyword .EXPLAIN := by
    intro x hx
    cases hx
    exact hword _
  unfold statement at h
  rw [bind_of_ok (keyword?_of_ne hexplain)] at h
  have hpeek : peek (l :: ls) = .ok (some l.token, l :: ls) := by simp [peek]
  change plainStatement (l :: ls) = _ at h
  unfold plainStatement at h
  rw [bind_of_ok hpeek] at h
  cases ht : l.token with
  | keyword k => exact hword k ht
  | _ =>
    rw [ht] at h
    cases h

/-- A text that holds a statement begins with a keyword or with the end of a statement. -/
theorem first_of_prepared {text : String} {p : Prepared}
    (h : Prepared.only? schema text = .ok (some p)) :
    ∃ l ls, Lexeme.scan text.toList = l :: ls ∧ Lexeme.isOther l.token = false := by
  obtain ⟨after, hfirst⟩ := Prepared.first_of_only? h
  obtain ⟨parsed, hparsed, -⟩ := Prepared.plan_of_next? hfirst
  cases hscan : Lexeme.scan text.toList with
  | nil =>
    rw [hscan] at hparsed
    cases hparsed
  | cons l ls =>
    refine ⟨l, ls, rfl, ?_⟩
    cases ho : Lexeme.isOther l.token with
    | false => rfl
    | true =>
      have hsemicolon : l.token ≠ .symbol .semicolon := by
        intro he
        simp [he, Lexeme.isOther] at ho
      obtain ⟨rest, hstatement⟩ :=
        statement_of_next? (skipEmpty_of_ne hsemicolon) (hscan ▸ hparsed)
      exact absurd hstatement (Grammar.no_statement_of_other ho)

/-- The first statement of a text is a select, and this is what it was prepared to. -/
def Selects (schema : Schema) (text : String) (q : Select) (sel : Selected) : Prop :=
  ∃ lexemes rest, Parsed.next? (Lexeme.scan text.toList) =
    .ok (some (⟨.select q, lexemes⟩, rest)) ∧ q.prepare schema = .ok sel

/-- What a read prepares is a select. -/
theorem selected_of_read {c : Command} {p : Prepared} (hk : c.kind = .read)
    (h : Prepared.only? schema c.text = .ok (some p)) :
    ∃ q sel, Selects schema c.text q sel ∧ p.plan = .query sel.query := by
  obtain ⟨l, ls, hscan, ho⟩ := first_of_prepared h
  obtain ⟨after, hfirst⟩ := Prepared.first_of_only? h
  obtain ⟨parsed, hparsed, hplan⟩ := Prepared.plan_of_next? hfirst
  have hl : l.token = .keyword .SELECT :=
    (Command.first_of_read hk hscan).resolve_right (by simp [ho])
  obtain ⟨rest, hstatement⟩ :=
    statement_of_next? (skipEmpty_of_ne (by simp [hl])) (hscan ▸ hparsed)
  obtain ⟨q, hq⟩ := Grammar.select_of_statement hl hstatement
  obtain ⟨parsedStatement, lexemes⟩ := parsed
  obtain rfl : parsedStatement = .select q := hq
  obtain ⟨sel, hsel, hplan⟩ := (except_bind_eq_ok _ _ _).mp hplan
  exact ⟨q, sel, ⟨lexemes, after, hparsed, hsel⟩, (Except.ok.inj hplan).symm⟩

theorem query_of_read {c : Command} {p : Prepared} (hk : c.kind = .read)
    (h : Prepared.only? schema c.text = .ok (some p)) : ∃ q, p.plan = .query q := by
  obtain ⟨-, sel, -, hplan⟩ := selected_of_read hk h
  exact ⟨sel.query, hplan⟩

/-- The tables that a query reads. -/
def Schema.tables : Schema → Database
  | .ok db => db
  | .error _ => {}

theorem Prepared.run_of_query {p : Prepared} {q : Query} (hplan : p.plan = .query q) (r : Rights)
    (schema : Schema) : ∃ result, p.run r schema = .keep schema result ∧
      ∀ rows, result = .ok rows → q.rows (Schema.tables schema) = .ok rows := by
  unfold run
  split
  · rw [hplan]
    exact ⟨_, rfl, fun rows h => by cases schema <;> exact h⟩
  · exact ⟨_, rfl, nofun⟩

end Sql
end QueryServer
