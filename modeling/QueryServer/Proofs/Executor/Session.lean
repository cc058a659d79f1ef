import QueryServer.Executor.Session
import QueryServer.Proofs.Sql.Effect
import QueryServer.Proofs.Store.Connect
/-!
A command on its connection, one step after another. Where nothing else fails, this is how a
command is executed.
-/

namespace QueryServer
namespace Store

theorem Handle.hold_hold {h : Handle} {d : Disk} (hfree : (h.rights d).locked = false) :
    h.hold (h.hold d true) false = d := by
  cases hp : h.place with
  | memory => simp [hold, hp]
  | path p =>
    cases hf : d.file? p with
    | none => simp [hold, hp, file?_of_place hp, hf]
    | some f =>
      rw [rights_of_file? hp hf] at hfree
      have hheld : h.hold d true = d.put p { f with locked := true } := by
        simp [hold, hp, file?_of_place hp, hf]
      have hsame : { f with locked := false } = f := by rw [← hfree]
      rw [hheld]
      simp [hold, hp, file?_of_place hp, Disk.file?_put hf, Disk.put_put, hsame,
        Disk.put_of_file? hf]

end Store

namespace Executor
open Store

@[simp] theorem calm_apply (p : Point) : calm p = none := rfl

/-- Goes on after a step that did not fail. -/
def Step.andThen {α β : Type} (w : Step α) (go : Session → Disk → α → Step β) : Step β :=
  match w.result with
  | .error f => ⟨w.disk, w.session, .error f⟩
  | .ok a => go w.session w.disk a

namespace Session

/-- The only statement of a text, if there is one. -/
def prepare (t : Trouble) (x : Session) (d : Disk) (text : String) : Step (Option Sql.Prepared) where
  disk := d
  session := x
  result := do
    let schema := x.handle.schema d
    t.at .preparing
    match ← Sql.Prepared.next? schema (Sql.Lexeme.scan text.toList) with
    | none => return none
    | some (p, rest) =>
      t.at .following
      match ← Sql.Prepared.next? schema rest with
      | none => return some p
      | some _ => throw .severalStatements

/-- Runs a command: a read takes the rows, and a write commits what is left open. -/
def attempt (t : Trouble) (x : Session) (d : Disk) (c : Command) : Step Response :=
  (x.prepare t d c.text).andThen fun x d prepared =>
    match prepared with
    | none => ⟨d, x, .ok .success⟩
    | some p =>
      (x.run t d p).andThen fun x d rows =>
        match c.kind with
        | .read => ⟨d, x, .ok (.rows (rows.map Row.ofTuple))⟩
        | .write => (x.commit t d).andThen fun x d _ => ⟨d, x, .ok .success⟩

end Session

/-- Opens a connection where that can fail. -/
def connectUnder (t : Trouble) (s : Store) (d : Disk) : Disk × Outcome Handle :=
  match t .opening with
  | some f => (d, .failed (.sql f))
  | none => s.connect d

/-- Executes a command where each step can fail. Its connection is dropped at the end. -/
def executeUnder (t : Trouble) (s : Store) (d : Disk) (c : Command) :
    Disk × Except String Response :=
  if c.isBlank then (d, .ok .success)
  else
    match connectUnder t s d with
    | (d, .crashed reason) => (d, .error reason)
    | (d, .failed f) => (d, .ok (.failure f.message))
    | (d, .done h) =>
      let w := (Session.mk h none).attempt t d c
      (w.session.release w.disk, .ok <|
        match w.result with
        | .ok r => r
        | .error f => .failure f.message)

variable {t : Trouble} {h : Handle} {x : Session} {s : Store} {d : Disk} {c : Command}

theorem drain_calm (taken : Nat) (rows : List Sql.Tuple) : drain calm taken rows = .ok rows := by
  induction rows generalizing taken with
  | nil => rfl
  | cons row rows ih =>
    rw [drain, ih]
    rfl

theorem eq_of_drain {taken : Nat} {rows rows' : List Sql.Tuple}
    (hd : drain t taken rows = .ok rows') : rows' = rows := by
  induction rows generalizing taken rows' with
  | nil =>
    obtain ⟨-, -, hd⟩ := (except_bind_eq_ok _ _ _).mp hd
    cases hd
    rfl
  | cons row rows ih =>
    obtain ⟨-, -, hd⟩ := (except_bind_eq_ok _ _ _).mp hd
    obtain ⟨rest, hrest, hd⟩ := (except_bind_eq_ok _ _ _).mp hd
    cases hd
    rw [ih hrest]

namespace Session

theorem release_fresh (h : Handle) (d : Disk) : (Session.mk h none).release d = d := rfl

theorem prepare_calm (x : Session) (d : Disk) (text : String) :
    x.prepare calm d text = ⟨d, x, Sql.Prepared.only? (x.handle.schema d) text⟩ := rfl

theorem only?_of_prepare {text : String} {p : Option Sql.Prepared}
    (hp : (x.prepare t d text).result = .ok p) :
    Sql.Prepared.only? (x.handle.schema d) text = .ok p := by
  obtain ⟨-, -, hp⟩ := (except_bind_eq_ok _ _ _).mp hp
  obtain ⟨first, hfirst, hp⟩ := (except_bind_eq_ok _ _ _).mp hp
  refine (except_bind_eq_ok _ _ _).mpr ⟨first, hfirst, ?_⟩
  cases first with
  | none => exact hp
  | some first =>
    obtain ⟨-, -, hp⟩ := (except_bind_eq_ok _ _ _).mp hp
    exact hp

/-- How the run of a statement ends on a connection without a transaction. -/
inductive Ran (h : Handle) (d : Disk) (p : Sql.Prepared) : Step (List Sql.Tuple) → Prop where
  | failed (d' : Disk) (f : Sql.Fault) (hkept : p.plan.keepsRows = false → d' = d) :
      Ran h d p ⟨d', ⟨h, none⟩, .error f⟩
  | ended (schema : Sql.Schema) (rows : List Sql.Tuple)
      (heffect : p.run (h.rights d) (h.schema d) = ⟨schema, none, .ok rows⟩) :
      Ran h d p ⟨h.commit d schema, ⟨h, none⟩, .ok rows⟩
  /-- A transaction has changed nothing but whose right it is to write. -/
  | opened (d' : Disk) (writing : Bool)
      (heffect : p.run (h.rights d) (h.schema d) = ⟨h.schema d, some (h.schema d), .ok []⟩)
      (hrelease : (Session.mk h (some ⟨h.schema d, writing⟩)).release d' = d) :
      Ran h d p ⟨d', ⟨h, some ⟨h.schema d, writing⟩⟩, .ok []⟩

theorem run_of_error (t : Trouble) {p : Sql.Prepared} {f : Sql.Fault}
    (he : (p.run (h.rights d) (h.schema d)).result = .error f) :
    (Session.mk h none).run t d p =
      ⟨h.commit d (p.run (h.rights d) (h.schema d)).committed, ⟨h, none⟩, .error f⟩ := by
  simp [run, he]

/-- A statement that does not fail by itself is interrupted, or it runs as if nothing could. -/
theorem run_of_ok (t : Trouble) {p : Sql.Prepared} {rows : List Sql.Tuple}
    (he : (p.run (h.rights d) (h.schema d)).result = .ok rows) :
    (∃ f, (Session.mk h none).run t d p = ⟨d, ⟨h, none⟩, .error f⟩) ∨
      (Session.mk h none).run t d p = (Session.mk h none).run calm d p := by
  unfold run
  dsimp only
  rw [he]
  dsimp only
  rw [drain_calm]
  cases hd : drain t 0 rows with
  | error f => exact .inl ⟨f, rfl⟩
  | ok rows' => exact .inr (by rw [eq_of_drain hd])

theorem ran_calm (h : Handle) (d : Disk) (p : Sql.Prepared) :
    Ran h d p ((Session.mk h none).run calm d p) := by
  have houtcome := p.outcome_run (h.rights d) (h.schema d)
  generalize he : p.run (h.rights d) (h.schema d) = e at houtcome
  unfold run
  dsimp only
  rw [he]
  cases houtcome with
  | kept result =>
    cases result with
    | error f => exact .failed _ f fun _ => h.commit_schema d
    | ok rows =>
      dsimp only [Sql.Effect.keep]
      rw [drain_calm]
      exact .ended (h.schema d) rows he
  | opened mode hplan hfree =>
    dsimp only
    rw [drain_calm, h.commit_schema d]
    refine .opened _ _ he ?_
    -- the right to write is held only where it was free before
    by_cases hw : p.plan.writesAtOnce && !h.readOnly
    · rw [if_pos hw]
      simp only [Bool.and_eq_true, Bool.not_eq_true'] at hw
      simpa [release, hw] using Handle.hold_hold (hfree hw.1 hw.2)
    · simp [release, hw]
  | changed before after result hbefore hkeeps =>
    cases result with
    | error f =>
      refine .failed _ f fun hp => ?_
      simp [hkeeps f rfl] at hp
    | ok rows =>
      dsimp only
      rw [drain_calm]
      exact .ended (.ok after) rows he

theorem ran (h : Handle) (d : Disk) (t : Trouble) (p : Sql.Prepared) :
    Ran h d p ((Session.mk h none).run t d p) := by
  have hcalm := ran_calm h d p
  cases he : (p.run (h.rights d) (h.schema d)).result with
  | error f =>
    rw [run_of_error t he]
    rwa [run_of_error calm he] at hcalm
  | ok rows =>
    rcases run_of_ok t he with ⟨f, hf⟩ | hsame
    · rw [hf]
      exact .failed d f fun _ => rfl
    · rwa [hsame]

theorem result_run_calm (x : Session) (d : Disk) (p : Sql.Prepared) :
    (x.run calm d p).result = (p.run (x.handle.rights d) (x.handle.schema d)).result := by
  unfold run
  dsimp only
  cases he : (p.run (x.handle.rights d) (x.handle.schema d)).result with
  | error f => rfl
  | ok rows =>
    dsimp only
    rw [drain_calm]
    dsimp only
    split <;> rfl

end Session

@[simp] theorem connectUnder_calm (s : Store) (d : Disk) : connectUnder calm s d = s.connect d := rfl

/-- A connection that was opened is one that the store gives. -/
theorem connect_of_connectUnder {d' : Disk} (hc : connectUnder t s d = (d', .done h)) :
    s.connect d = (d', .done h) := by
  unfold connectUnder at hc
  split at hc
  · cases hc
  · exact hc

theorem execute_of_blank (hblank : c.isBlank) (s : Store) (d : Disk) :
    execute s d c = (d, .ok .success) := by
  simp [execute, hblank]

theorem execute_of_connect {d' : Disk} (hblank : c.isBlank = false)
    (hc : s.connect d = (d', .done h)) :
    execute s d c = (h.commit d' (runText (h.rights d') (h.schema d') c).1,
      .ok (runText (h.rights d') (h.schema d') c).2) := by
  simp [execute, hblank, hc]

/-- Where nothing else fails, commands are executed as they are. -/
theorem executeUnder_calm (s : Store) (d : Disk) (c : Command) :
    executeUnder calm s d c = execute s d c := by
  unfold executeUnder execute
  split
  · rfl
  rw [connectUnder_calm]
  rcases hc : s.connect d with ⟨d, h | f | reason⟩
  case failed => rfl
  case crashed => rfl
  simp only [Session.attempt, Session.prepare_calm, Step.andThen, runText]
  cases hp : Sql.Prepared.only? (h.schema d) c.text with
  | error f => simp [Session.release_fresh, h.commit_schema d]
  | ok prepared =>
    cases prepared with
    | none => simp [Session.release_fresh, h.commit_schema d]
    | some p =>
      have hran := Session.ran h d calm p
      have hresult := Session.result_run_calm ⟨h, none⟩ d p
      cases he : (p.run (h.rights d) (h.schema d)).result with
      | error f => simp [Session.run_of_error calm he, conclude, he, Session.release_fresh]
      | ok rows =>
        generalize hrun : (Session.mk h none).run calm d p = w at hran hresult
        cases hran with
        | failed d' f hkept => simp [he] at hresult
        | ended schema rows heffect =>
          cases hk : c.kind <;>
            simp [hrun, conclude, heffect, Session.commit, Session.release_fresh]
        | opened d' writing heffect hrelease =>
          cases hk : c.kind <;>
            simp [hrun, conclude, heffect, Session.commit, Session.release_fresh,
              hrelease, h.commit_schema d]

end Executor
end QueryServer
