import QueryServer.Proofs.Engine.Laws
import QueryServer.Proofs.Executor.Session
import QueryServer.Proofs.Sql.Extent
/-!
Texts with several statements. All statements are prepared against the tables as they are, and one
is run only if it is the only one. Main statement: what a command with so many statements comes to.
-/

namespace QueryServer.Executor
open Store

variable {t : Trouble} {h : Handle} {x : Session} {s : Store} {d d' : Disk} {c : Command}

/-- What the first of so many steps that fails fails with. -/
def Trouble.interruption (t : Trouble) (taken steps : Nat) : Option Sql.Fault :=
  (List.range' taken steps).findSome? fun k => t (.stepping k)

/-- The rows are taken all or none. There is one step more than there are rows. -/
theorem drain_eq (t : Trouble) (taken : Nat) (rows : List Sql.Tuple) :
    drain t taken rows = match t.interruption taken (rows.length + 1) with
      | some f => .error f
      | none => .ok rows := by
  induction rows generalizing taken with
  | nil =>
    cases ht : t (.stepping taken) with
    | some f => simp [drain, Trouble.at, Trouble.interruption, ht, bind, Except.bind]
    | none => simp [drain, Trouble.at, Trouble.interruption, ht, bind, Except.bind, pure, Except.pure]
  | cons row rows ih =>
    cases ht : t (.stepping taken) with
    | some f =>
      simp [drain, Trouble.at, Trouble.interruption, List.range'_succ, ht, bind, Except.bind]
    | none =>
      have hstep : t.interruption taken ((row :: rows).length + 1) =
          t.interruption (taken + 1) (rows.length + 1) := by
        rw [Trouble.interruption, List.length_cons, List.range'_succ, List.findSome?_cons, ht]
        rfl
      have hdrain : drain t taken (row :: rows) =
          (drain t (taken + 1) rows).map (row :: ·) := by
        simp only [drain, Trouble.at, ht]
        rfl
      rw [hdrain, hstep, ih (taken + 1)]
      cases t.interruption (taken + 1) (rows.length + 1) <;> rfl

def answerOf : Except Sql.Fault Response → Response
  | .ok r => r
  | .error f => .failure f.message

/-- A statement that is run once: it fails by itself, or a step of it fails and it is undone, or it
is stepped until there are no more rows. -/
def runOnce (t : Trouble) (h : Handle) (d : Disk) (kind : Command.Kind) (p : Sql.Prepared) :
    Disk × Response :=
  let e := p.run (h.rights d) (h.schema d)
  match e.result with
  | .error f => (h.commit d e.committed, .failure f.message)
  | .ok rows =>
    match t.interruption 0 (rows.length + 1) with
    | some f => (d, .failure f.message)
    | none =>
      (h.commit d e.committed,
        match kind with
        | .read => .rows (rows.map Row.ofTuple)
        | .write =>
          match e.pending, t .committing with
          | some _, some f => .failure f.message
          | _, _ => .success)

theorem Session.run_of_interruption (t : Trouble) {p : Sql.Prepared} {rows : List Sql.Tuple}
    (he : (p.run (h.rights d) (h.schema d)).result = .ok rows) :
    (Session.mk h none).run t d p = match t.interruption 0 (rows.length + 1) with
      | some f => ⟨d, ⟨h, none⟩, .error f⟩
      | none => (Session.mk h none).run calm d p := by
  unfold run
  dsimp only
  rw [he]
  dsimp only
  rw [drain_calm, drain_eq]
  cases t.interruption 0 (rows.length + 1) <;> rfl

theorem runOnce_eq (h : Handle) (d : Disk) (t : Trouble) (kind : Command.Kind) (p : Sql.Prepared) :
    let w := ((Session.mk h none).run t d p).andThen fun x d rows =>
      match kind with
      | .read => ⟨d, x, .ok (.rows (rows.map Row.ofTuple))⟩
      | .write => (x.commit t d).andThen fun x d _ => ⟨d, x, .ok .success⟩
    (w.session.release w.disk, answerOf w.result) = runOnce t h d kind p := by
  unfold runOnce
  dsimp only
  cases he : (p.run (h.rights d) (h.schema d)).result with
  | error f => simp [Session.run_of_error t he, Step.andThen, Session.release_fresh, answerOf]
  | ok rows =>
    rw [Session.run_of_interruption t he]
    dsimp only
    cases t.interruption 0 (rows.length + 1) with
    | some f => rfl
    | none =>
      have hran := Session.ran_calm h d p
      have hresult := Session.result_run_calm ⟨h, none⟩ d p
      generalize (Session.mk h none).run calm d p = w at hran hresult
      cases hran with
      | failed d' f hkept => simp [he] at hresult
      | ended schema rows' heffect =>
        obtain rfl : rows' = rows := by simpa [heffect] using he
        cases kind <;>
          simp [heffect, Step.andThen, Session.commit, Session.release_fresh, answerOf]
      | opened d' writing heffect hrelease =>
        obtain rfl : [] = rows := by simpa [heffect] using he
        cases kind with
        | read => simp [heffect, Step.andThen, hrelease, h.commit_schema d, answerOf]
        | write =>
          cases hcommitting : t .committing <;>
            simp [heffect, Step.andThen, Session.commit, hcommitting, hrelease, h.commit_schema d,
              Session.release_fresh, answerOf]

/-- Whatever fails, a command on an open store is refused before anything runs, or has nothing to
run, or runs one statement once. -/
theorem executeUnder_of_connect (hblank : c.isBlank = false)
    (hc : connectUnder t s d = (d', .done h)) :
    executeUnder t s d c = match ((Session.mk h none).prepare t d' c.text).result with
      | .error f => (d', .ok (.failure f.message))
      | .ok none => (d', .ok .success)
      | .ok (some p) => ((runOnce t h d' c.kind p).1, .ok (runOnce t h d' c.kind p).2) := by
  unfold executeUnder
  simp only [hblank, Bool.false_eq_true, if_false, hc]
  have hprepare : (Session.mk h none).prepare t d' c.text =
      ⟨d', ⟨h, none⟩, ((Session.mk h none).prepare t d' c.text).result⟩ := rfl
  unfold Session.attempt
  rw [hprepare]
  cases ((Session.mk h none).prepare t d' c.text).result with
  | error f => rfl
  | ok prepared =>
    cases prepared with
    | none => rfl
    | some p =>
      have hrun := runOnce_eq h d' t c.kind p
      exact congrArg (fun r : Disk × Response => (r.1, (Except.ok r.2 : Except String Response))) hrun

end QueryServer.Executor
