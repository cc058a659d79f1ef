import QueryServer.Proofs.Executor.Holding
import QueryServer.Proofs.Frame.Resumption
import QueryServer.Proofs.Sql.Lookup
/-!
Users that are entered and asked for. A user whose name is new is entered with success, and is then
the only one that is found under the name, with the texts that were given.
-/

namespace QueryServer
open Sql Relations

/-- A user as the table stores it. -/
def entry (u p r : String) : Tuple :=
  [.ofString u, .ofString p, .ofString r]

theorem ofTuple_shown (n : Int64) (u p r : String) :
    Row.ofTuple (shown (Record.tuple ⟨n, entry u p r⟩)) = [.text u, .text p, .text r] := by
  have hvalue : ∀ text : String, (Datum.ofString text).toValue = .text text := fun text =>
    congrArg Value.text (Frame.Decoder.textOf_utf8 text)
  exact congrArg₂ List.cons (hvalue u) (congrArg₂ List.cons (hvalue p)
    (congrArg (fun v => [v]) (hvalue r)))

namespace Command

variable {db : Database} {t : Table} {u : String}

theorem next?_find (hfree : '\x00' ∉ u.toList) :
    ∃ ls, Parsed.next? (Lexeme.scan (find u).text.toList) = .ok (some (⟨Grammar.finding u, ls⟩, [])) ∧
      ∀ l ∈ ls, isParameter l.token = false := by
  have htokens := Lexeme.tokens_find u
  rw [Lexeme.tokens, ← Lexeme.scan_of_free (free_find hfree)] at htokens
  exact ⟨_, next?_of_whole htokens (by simp) (Grammar.statement_finding htokens),
    no_parameter_of_tokens htokens rfl⟩

theorem only?_find (hu : db.KeepsUsers t) (hfree : '\x00' ∉ u.toList) :
    Prepared.only? (.ok db) (find u).text = .ok (some ⟨.query (lookup u), 0⟩) := by
  obtain ⟨ls, hnext, hnone⟩ := next?_find hfree
  exact Prepared.only?_of_parsed hnext rfl hnone (plan_finding hu u)

theorem kind_find (u : String) : (find u).kind = .read := by
  have htext : (find u).text.toList =
      "SELECT".toList ++ (" * FROM users WHERE username = ".toList ++ (literal u).toList) := by
    rw [← List.append_assoc]
    exact String.toList_append
  rw [kind, htext]
  rfl

end Command

namespace Store

variable {s : Store} {d : Disk} {db : Database} {t : Table} {u p r : String} {n : Int64}

/-- To enter a user is to do so wherever there is a table for users. -/
theorem enters_enter (hu : db.KeepsUsers t)
    (hfree : '\x00' ∉ u.toList ∧ '\x00' ∉ p.toList ∧ '\x00' ∉ r.toList) :
    (Command.enter u p r).Enters db (entry u p r) := by
  refine Command.enters_of_listed (Command.listed_enter hfree.1 hfree.2.1 hfree.2.2) hu ?_
  rw [Command.replaces_enter hfree.1 hfree.2.1 hfree.2.2]
  nofun

theorem execution_of_enter (hd : s.Holds d db) (hu : db.KeepsUsers t)
    (hfree : '\x00' ∉ u.toList ∧ '\x00' ∉ p.toList ∧ '\x00' ∉ r.toList)
    (hnew : ∀ x ∈ t.rows, username x.values ≠ .ofString u) (hroom : ∃ n, t.row? n = none) :
    ∃ d' db' t' n, s.execution d (.enter u p r) = (d', .success) ∧ s.Holds d' db' ∧
      db'.KeepsUsers t' ∧ t'.rows.Perm (⟨n, entry u p r⟩ :: t.rows) := by
  obtain ⟨d', db', t', n, henter, hd', hu', -, -, hrows⟩ :=
    execution_of_enters hd hu (enters_enter hu hfree) hnew hroom
  exact ⟨d', db', t', n, henter, hd', hu', hrows⟩

theorem execution_of_find (hd : s.Holds d db) (hu : db.KeepsUsers t) (hfree : '\x00' ∉ u.toList)
    (hnamed : ∀ x ∈ t.rows, isNamed x.values)
    (hrows : t.rows.filter (fun x => username x.values = .ofString u) = [⟨n, entry u p r⟩]) :
    s.execution d (.find u) = (d, .rows [[.text u, .text p, .text r]]) := by
  obtain ⟨path, logged, hconnect, hfile⟩ := hd
  have honly := Command.only?_find hu hfree
  have hblank := Command.not_blank_of_only? honly
  obtain ⟨found, hfound, hrun⟩ := rows_lookup hu hnamed u
  rw [hrows, List.perm_singleton] at hfound
  have htext : Executor.runText ⟨false, false⟩ (.ok db) (.find u) =
      (.ok db, .rows [[.text u, .text p, .text r]]) := by
    simp only [Executor.runText, honly, Prepared.run, if_true, Plan.run, hrun, hfound, Effect.keep,
      Executor.conclude, Command.kind_find, List.map_cons, List.map_nil, ofTuple_shown]
  rw [execution_of_file? hconnect hfile hblank htext, Disk.put_of_file? hfile]

end Store
end QueryServer
