import QueryServer.Proofs.Sql.Entry
import QueryServer.Proofs.Sql.Quoting
/-!
The commands that enter a user and ask for one.
-/

namespace QueryServer
open Sql Relations

namespace Command

/-- Enters a user. -/
def enter (username password date : String) : Command :=
  ⟨"INSERT INTO users VALUES (" ++ literal username ++ "," ++ literal password ++ "," ++
    literal date ++ ")"⟩

/-- Asks for the user of a name. -/
def find (username : String) : Command :=
  ⟨"SELECT * FROM users WHERE username = " ++ literal username⟩

end Command

namespace Sql.Lexeme

theorem tokens_enter (u p r : String) : tokens (Command.enter u p r).text.toList =
    [.keyword .INSERT, .keyword .INTO, .name "users" .bare, .keyword .VALUES, .symbol .open,
      .string u, .symbol .comma, .string p, .symbol .comma, .string r, .symbol .close] := by
  have hfront : "INSERT INTO users VALUES (".toList =
      "INSERT".toList ++ ' ' :: ("INTO".toList ++ ' ' :: ("users".toList ++ ' ' ::
      ("VALUES".toList ++ [' ', '(']))) := by decide
  have htext : (Command.enter u p r).text.toList =
      "INSERT".toList ++ ' ' :: ("INTO".toList ++ ' ' :: ("users".toList ++ ' ' ::
      ("VALUES".toList ++ ' ' :: '(' :: ([] ++ ((literal u).toList ++ ',' :: ([] ++ (
      (literal p).toList ++ ',' :: ([] ++ ((literal r).toList ++ ')' :: ([] ++ [])))))))))) := by
    unfold Command.enter
    simp only [String.toList_append, hfront, List.append_assoc, List.cons_append, List.nil_append]
    rfl
  have hinsert : word "INSERT".toList = .keyword .INSERT := by decide +kernel
  have hinto : word "INTO".toList = .keyword .INTO := by decide +kernel
  have husers : word "users".toList = .name "users" .bare := by decide +kernel
  have hvalues : word "VALUES".toList = .keyword .VALUES := by decide +kernel
  rw [htext, tokens_word "INSERT" (by decide) hinsert nofun,
    tokens_word "INTO" (by decide) hinto nofun, tokens_word "users" (by decide) husers nofun,
    tokens_word "VALUES" (by decide) hvalues nofun,
    tokens_of_measure (t := .symbol .open) rfl nofun, tokens_literal u (by simp),
    tokens_of_measure (t := .symbol .comma) rfl nofun, tokens_literal p (by simp),
    tokens_of_measure (t := .symbol .comma) rfl nofun, tokens_literal r (by simp),
    tokens_of_measure (t := .symbol .close) rfl nofun, tokens_nil]

theorem tokens_find (u : String) : tokens (Command.find u).text.toList =
    [.keyword .SELECT, .symbol .star, .keyword .FROM, .name "users" .bare, .keyword .WHERE,
      .name "username" .bare, .symbol .equal, .string u] := by
  have hfront : "SELECT * FROM users WHERE username = ".toList =
      "SELECT".toList ++ ' ' :: '*' :: ([] ++ ' ' :: ("FROM".toList ++ ' ' :: ("users".toList ++
      ' ' :: ("WHERE".toList ++ ' ' :: ("username".toList ++ ' ' :: '=' :: ([] ++ [' '])))))) := by
    decide
  have htext : (Command.find u).text.toList =
      "SELECT".toList ++ ' ' :: '*' :: ([] ++ ' ' :: ("FROM".toList ++ ' ' :: ("users".toList ++
      ' ' :: ("WHERE".toList ++ ' ' :: ("username".toList ++ ' ' :: '=' :: ([] ++ ' ' ::
      ((literal u).toList ++ []))))))) := by
    unfold Command.find
    simp only [String.toList_append, hfront, List.append_assoc, List.cons_append, List.nil_append,
      List.append_nil]
  have hselect : word "SELECT".toList = .keyword .SELECT := by decide +kernel
  have hfrom : word "FROM".toList = .keyword .FROM := by decide +kernel
  have husers : word "users".toList = .name "users" .bare := by decide +kernel
  have hwhere : word "WHERE".toList = .keyword .WHERE := by decide +kernel
  have hname : word "username".toList = .name "username" .bare := by decide +kernel
  rw [htext, tokens_word "SELECT" (by decide) hselect nofun,
    tokens_of_measure (t := .symbol .star) rfl nofun, tokens_space rfl,
    tokens_word "FROM" (by decide) hfrom nofun, tokens_word "users" (by decide) husers nofun,
    tokens_word "WHERE" (by decide) hwhere nofun, tokens_word "username" (by decide) hname nofun,
    tokens_of_measure (t := .symbol .equal) rfl nofun, tokens_space rfl,
    tokens_literal u (by simp), tokens_nil]

/-- Lexemes whose tokens are known. -/
theorem cons_of_tokens {ls : List Lexeme} {t : Token} {ts : List Token}
    (h : ls.map (·.token) = t :: ts) :
    ∃ text rest after, ls = ⟨t, text, rest⟩ :: after ∧ after.map (·.token) = ts := by
  obtain ⟨⟨token, text, rest⟩, after, rfl, rfl, hafter⟩ := List.map_eq_cons_iff.mp h
  exact ⟨text, rest, after, rfl, hafter⟩

end Sql.Lexeme

namespace Sql.Grammar

/-- One row of texts for the users. -/
def entering (u p r : String) : Statement :=
  .insert .abort { name := "users" } none
    (.select (.mk (.values [[.literal (.ofString u), .literal (.ofString p),
      .literal (.ofString r)]]) [] none none none)) []

/-- All columns of the users of a name. -/
def finding (u : String) : Statement :=
  .select (.mk (.core false [.star] (.table { name := "users" } none)
    (some (.binary (.compare .equal) (.name "username" .bare) (.literal (.ofString u)))))
    [] none none none)

theorem statement_entering {u p r : String} {ls : List Lexeme}
    (h : ls.map (·.token) = [.keyword .INSERT, .keyword .INTO, .name "users" .bare,
      .keyword .VALUES, .symbol .open, .string u, .symbol .comma, .string p, .symbol .comma,
      .string r, .symbol .close]) : statement ls = .ok (entering u p r, []) := by
  iterate 11
    replace h := Lexeme.cons_of_tokens h
    obtain ⟨_, _, ls, rfl, h⟩ := h
  obtain rfl := List.map_eq_nil_iff.mp h
  rfl

theorem statement_finding {u : String} {ls : List Lexeme}
    (h : ls.map (·.token) = [.keyword .SELECT, .symbol .star, .keyword .FROM,
      .name "users" .bare, .keyword .WHERE, .name "username" .bare, .symbol .equal, .string u]) :
    statement ls = .ok (finding u, []) := by
  iterate 8
    replace h := Lexeme.cons_of_tokens h
    obtain ⟨_, _, ls, rfl, h⟩ := h
  obtain rfl := List.map_eq_nil_iff.mp h
  rfl

end Sql.Grammar

namespace Sql

theorem next?_of_whole {ls : List Lexeme} {t : Token} {ts : List Token} {s : Statement}
    (htokens : ls.map (·.token) = t :: ts) (ht : t ≠ .symbol .semicolon)
    (hs : Grammar.statement ls = .ok (s, [])) : Parsed.next? ls = .ok (some (⟨s, ls⟩, [])) := by
  obtain ⟨text, rest, after, rfl, -⟩ := Lexeme.cons_of_tokens htokens
  simp only [Parsed.next?, skipEmpty_of_ne (l := ⟨t, text, rest⟩) ht, hs]

theorem no_parameter_of_tokens {ls : List Lexeme} {ts : List Token}
    (htokens : ls.map (·.token) = ts) (hts : ts.any isParameter = false) :
    ∀ l ∈ ls, isParameter l.token = false := by
  subst htokens
  simpa [List.any_eq_false] using hts

end Sql

namespace Command

variable {u p r : String} (hu : '\x00' ∉ u.toList) (hp : '\x00' ∉ p.toList)
  (hr : '\x00' ∉ r.toList)
include hu

theorem free_find : '\x00' ∉ (find u).text.toList :=
  Lexeme.free_append.mpr ⟨by decide, Lexeme.free_literal hu⟩

include hp hr

theorem free_enter : '\x00' ∉ (enter u p r).text.toList := by
  unfold enter
  iterate 6 rw [Lexeme.free_append]
  exact ⟨⟨⟨⟨⟨⟨by decide, Lexeme.free_literal hu⟩, by decide⟩, Lexeme.free_literal hp⟩, by decide⟩,
    Lexeme.free_literal hr⟩, by decide⟩

theorem next?_enter : ∃ ls, Parsed.next? (Lexeme.scan (enter u p r).text.toList) =
    .ok (some (⟨Grammar.entering u p r, ls⟩, [])) ∧ ls.any (fun l => isParameter l.token) = false := by
  have htokens := Lexeme.tokens_enter u p r
  rw [Lexeme.tokens, ← Lexeme.scan_of_free (free_enter hu hp hr)] at htokens
  refine ⟨_, next?_of_whole htokens (by simp) (Grammar.statement_entering htokens), ?_⟩
  simpa [List.any_eq_false] using no_parameter_of_tokens htokens rfl

/-- The values of a user reach the table as they were given. -/
theorem listed_enter :
    (enter u p r).listed? = some [.ofString u, .ofString p, .ofString r] := by
  obtain ⟨ls, hnext, hparameters⟩ := next?_enter hu hp hr
  have hend : Parsed.next? [] = .ok none := rfl
  simp only [listed?, hnext, hend, hparameters, Bool.false_eq_true, if_false]
  rfl

theorem replaces_enter : (enter u p r).replaces = false := by
  obtain ⟨ls, hnext, -⟩ := next?_enter hu hp hr
  simp only [replaces, hnext]
  rfl

end Command
end QueryServer
