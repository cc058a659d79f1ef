import QueryServer.Proofs.Executor.Single
import QueryServer.Proofs.Sql.Columns
import QueryServer.Proofs.Sql.Reads
import QueryServer.Server.Start
/-!
What clients are answered. A read is answered with all rows of its statement or with a failure, and
changes nothing; a write is answered with a success, once its statement has run to its end, or with
a failure.
-/

namespace QueryServer
namespace Executor
open Store

variable {t : Trouble} {s : Store} {d d' : Disk} {c : Command} {h : Handle} {p : Sql.Prepared}

/-- Executes a command where each step can fail; a crash is answered with a failure. -/
def executionUnder (t : Trouble) (s : Store) (d : Disk) (c : Command) : Disk × Response :=
  ((executeUnder t s d c).1, answer (executeUnder t s d c).2)

/-- How the execution of a command ends that is not blank. -/
inductive Executed (t : Trouble) (s : Store) (d : Disk) (c : Command) : Disk × Response → Prop where
  | refused (message : String) :
      Executed t s d c ((connectUnder t s d).1, .failure message)
  | empty (d' : Disk) (h : Handle) (hc : connectUnder t s d = (d', .done h))
      (hp : Sql.Prepared.only? (h.schema d') c.text = .ok none) : Executed t s d c (d', .success)
  | ran (d' : Disk) (h : Handle) (p : Sql.Prepared) (hc : connectUnder t s d = (d', .done h))
      (hp : Sql.Prepared.only? (h.schema d') c.text = .ok (some p)) :
      Executed t s d c (runOnce t h d' c.kind p)

theorem executed (hblank : c.isBlank = false) (t : Trouble) (s : Store) (d : Disk) :
    Executed t s d c (executionUnder t s d c) := by
  rcases hc : connectUnder t s d with ⟨d', h | f | reason⟩
  · rw [executionUnder, executeUnder_of_connect hblank hc]
    cases hp : ((Session.mk h none).prepare t d' c.text).result with
    | error f =>
      have hrefused : Executed t s d c ((connectUnder t s d).1, .failure f.message) := .refused _
      rwa [hc] at hrefused
    | ok prepared =>
      have honly := Session.only?_of_prepare hp
      cases prepared with
      | none => exact .empty d' h hc honly
      | some p => exact .ran d' h p hc honly
  · have hx : executeUnder t s d c = ((connectUnder t s d).1, .ok (.failure f.message)) := by
      simp [executeUnder, hblank, hc]
    rw [executionUnder, hx]
    exact .refused _
  · have hx : executeUnder t s d c = ((connectUnder t s d).1, .error reason) := by
      simp [executeUnder, hblank, hc]
    rw [executionUnder, hx]
    exact .refused _

end Executor
end QueryServer
