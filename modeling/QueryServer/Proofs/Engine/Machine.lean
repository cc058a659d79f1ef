import QueryServer.Machine
import QueryServer.Proofs.Engine.Laws
import QueryServer.Proofs.Executor.Session
import QueryServer.Proofs.Sql.Extent
import QueryServer.Proofs.Sql.Reads
/-!
The store on a machine. It keeps all that the execution of commands relies on: its transactions
begin and end as they should, and nothing but the preparation of a pragma acts on the process.
-/

namespace QueryServer

/-- The first statement of a command says OR FAIL. Constraints that say it are left out. -/
def Command.saysOrFail (c : Command) : Bool :=
  match Sql.Parsed.next? (Sql.Lexeme.scan c.text.toList) with
  | .ok (some (p, _)) => p.statement.saysOrFail
  | _ => false

/-- One of the statements of these lexemes sets the limit of memory. -/
def Sql.limitsMemory (ls : List Lexeme) : Bool :=
  (starts false ls).any fun start =>
    match Parsed.next? start with
    | .ok (some (p, _)) => p.statement.memory?.isSome
    | _ => false

/-- One of the statements of a command sets the limit of memory. -/
def Command.limitsMemory (c : Command) : Bool :=
  Sql.limitsMemory (Sql.Lexeme.scan c.text.toList)

namespace Sql

variable {schema : Schema} {ls rest : List Lexeme} {p : Prepared}

theorem keepsRows_of_only? {c : Command} (hp : Prepared.only? schema c.text = .ok (some p)) :
    p.plan.keepsRows = c.saysOrFail := by
  obtain ⟨rest, hfirst⟩ := Prepared.first_of_only? hp
  obtain ⟨parsed, hparsed, hplan⟩ := Prepared.plan_of_next? hfirst
  rw [Statement.keepsRows_plan hplan, Command.saysOrFail, hparsed]

theorem starts_of_prepared (h : Prepared.next? schema ls = .ok (some (p, rest))) :
    starts false ls = skipEmpty ls :: starts false rest := by
  obtain ⟨q, hparsed, -⟩ := Prepared.plan_of_next? h
  exact (Parsed.starts_of_next? hparsed).1

/-- What follows a statement limits no memory if the whole does not. -/
theorem limitsMemory_of_next? (h : Prepared.next? schema ls = .ok (some (p, rest)))
    (hls : limitsMemory ls = false) : limitsMemory rest = false := by
  rw [limitsMemory, starts_of_prepared h, List.any_cons, Bool.or_eq_false_iff] at hls
  exact hls.2

theorem memoryAt?_of_limitsMemory (hls : limitsMemory ls = false) :
    memoryAt? schema ls = none := by
  unfold memoryAt?
  split
  · rename_i q rest p' hparsed hprepared
    rw [limitsMemory, (Parsed.starts_of_next? hparsed).1, List.any_cons, Parsed.next?_skipEmpty,
      hparsed, Bool.or_eq_false_iff] at hls
    simpa using hls.1
  · rfl

end Sql

/-- Where memory is not limited, a connection can read what is in its file. -/
theorem Machine.schema_of_unlimited {m : Machine} (hm : m.process.exhausted = false)
    (h : Store.Handle) : m.schema h = h.schema m.files := by
  rw [schema, hm]
  rfl

namespace Script
open Executor

variable {t : Trouble} {script rest : Script} {x : Session} {m : Machine} {p : Sql.Prepared}
  {y : Session × Machine}

/-- Preparing a statement leaves the connection and the files as they are. -/
theorem after_next? (t : Trouble) (script : Script) (x : Session) (m : Machine) :
    ∃ bytes?, Engine.after (script.next? t x m) = (x, m.limited bytes?) ∧
      (Sql.limitsMemory script.lexemes = false → bytes? = none) := by
  unfold next?
  dsimp only
  split
  · exact ⟨none, rfl, fun _ => rfl⟩
  · exact ⟨none, rfl, fun _ => rfl⟩
  · exact ⟨none, rfl, fun _ => rfl⟩
  · exact ⟨_, rfl, Sql.memoryAt?_of_limitsMemory⟩

theorem ok_of_next? (h : script.next? t x m = .ok (some (p, rest)) y) :
    Sql.Prepared.next? (m.schema x.handle) script.lexemes = .ok (some (p, rest.lexemes)) := by
  unfold next? at h
  dsimp only at h
  split at h
  · cases h
  · cases h
  · cases h
  · rename_i hprepared
    cases h
    exact hprepared

theorem none_of_next? (h : script.next? t x m = .ok none y) :
    Sql.Prepared.next? (m.schema x.handle) script.lexemes = .ok none := by
  unfold next? at h
  dsimp only at h
  split at h
  · cases h
  · cases h
  · assumption
  · cases h

end Script

namespace Store
open Executor

variable {s : Store} {t : Trouble} {m m' : Machine} {c : Command} {x : Session}

theorem next?_engine (s : Store) (t : Trouble) (script : Script) (y : Session × Machine) :
    ∃ bytes?, Engine.after (s.engine.next? t script y) = (y.1, y.2.limited bytes?) ∧
      (Sql.limitsMemory script.lexemes = false → bytes? = none) :=
  Script.after_next? t script y.1 y.2

theorem connectOn_of_ok (h : s.connectOn t m = (m', .ok x)) :
    m.process.exhausted = false ∧ t .opening = none ∧ x.transaction = none ∧
      s.connect m.files = (m'.files, .done x.handle) ∧ m'.process = m.process := by
  unfold connectOn at h
  split at h
  · cases h
  · rename_i hmemory
    split at h
    · cases h
    · rename_i hopening
      split at h
      · cases h
      · cases h
      · rename_i d handle hconnect
        cases h
        exact ⟨by simpa using hmemory, hopening, rfl, hconnect, rfl⟩

/-- What a connection that is dropped at once leaves: a file, if one is made. -/
theorem opening_engine (s : Store) (t : Trouble) (m : Machine) :
    s.engine.opening t m =
      if m.process.exhausted || (t .opening).isSome then m
      else { m with files := (s.connect m.files).1 } := by
  have hconnectOn : s.engine.connect t m = s.connectOn t m := rfl
  cases hmemory : m.process.exhausted with
  | true =>
    rw [connectOn, if_pos hmemory] at hconnectOn
    exact Engine.opening_of_refused hconnectOn
  | false =>
    rw [connectOn, hmemory] at hconnectOn
    cases ht : t .opening with
    | some f =>
      rw [ht] at hconnectOn
      exact Engine.opening_of_refused hconnectOn
    | none =>
      rw [ht] at hconnectOn
      rcases hconnect : s.connect m.files with ⟨d, h | f | reason⟩ <;> rw [hconnect] at hconnectOn
      · exact Engine.opening_of_connect hconnectOn
      · exact Engine.opening_of_refused hconnectOn
      · exact Engine.opening_of_refused hconnectOn

/-- A connection to the store would make the file at this path. -/
def MakesOn (s : Store) (t : Trouble) (m : Machine) (p : Path) : Prop :=
  m.process.exhausted = false ∧ t .opening = none ∧ s.Makes m.files p

/-- What a connection that is dropped at once leaves: the machine, or the machine with one file. -/
theorem opening_cases (s : Store) (t : Trouble) (m : Machine) :
    (∀ p, ¬ s.MakesOn t m p) ∧ s.engine.opening t m = m ∨
      ∃ p, s.MakesOn t m p ∧
        s.engine.opening t m = { m with files := m.files.put p File.empty } := by
  rw [opening_engine]
  split
  · rename_i hclosed
    refine .inl ⟨?_, rfl⟩
    rintro p ⟨hmemory, hopening, -⟩
    simp [hmemory, hopening] at hclosed
  · rename_i hopens
    simp only [Bool.or_eq_true, not_or, Bool.not_eq_true, Option.isSome_eq_false_iff,
      Option.isNone_iff_eq_none] at hopens
    rcases disk_connect s m.files with ⟨hsame, hnone⟩ | ⟨p, hp, hmade⟩
    · exact .inl ⟨fun p hp => hnone p hp.2.2, by rw [hsame]⟩
    · exact .inr ⟨p, ⟨hopens.1, hopens.2, hp⟩, congrArg (fun files => { m with files }) hmade⟩

/-- A transaction that a statement leaves open has changed nothing yet. -/
theorem release_of_opened {p : Sql.Prepared} {rows : List Sql.Tuple} {y : Session × Machine}
    (hx : x.transaction = none) (hrun : Machine.ofStep m (x.run t m.files p) = .ok rows y)
    (hopen : y.1.transaction.isNone = false) : y.1.release y.2.files = x.release m.files := by
  obtain ⟨h, transaction⟩ := x
  obtain rfl : transaction = none := hx
  have hran := Session.ran h m.files t p
  generalize (Session.mk h none).run t m.files p = w at hran hrun
  cases hran with
  | failed d f hkept => cases hrun
  | ended schema rows' heffect =>
    cases hrun
    cases hopen
  | opened d writing heffect hrelease =>
    cases hrun
    exact hrelease

theorem release_of_failed {p : Sql.Prepared} {message : String} {y : Session × Machine}
    (hx : x.transaction = none) (hp : p.plan.keepsRows = false)
    (hrun : Machine.ofStep m (x.run t m.files p) = .error message y) :
    y.1.release y.2.files = x.release m.files := by
  obtain ⟨h, transaction⟩ := x
  obtain rfl : transaction = none := hx
  have hran := Session.ran h m.files t p
  generalize (Session.mk h none).run t m.files p = w at hran hrun
  cases hran with
  | failed d f hkept =>
    cases hrun
    exact hkept hp
  | ended | opened => cases hrun

theorem release_of_commit_error {message : String} {y : Session × Machine}
    (hcommit : Machine.ofStep m (x.commit t m.files) = .error message y) :
    y.1.release y.2.files = x.release m.files := by
  unfold Session.commit at hcommit
  split at hcommit
  · cases hcommit
  · split at hcommit
    · cases hcommit
      rfl
    · cases hcommit

theorem transaction_of_commit {y : Session × Machine}
    (hcommit : Machine.ofStep m (x.commit t m.files) = .ok () y) : y.1.transaction = none := by
  unfold Session.commit at hcommit
  split at hcommit
  · cases hcommit
    assumption
  · split at hcommit
    · cases hcommit
    · cases hcommit
      rfl

theorem release_of_none (hx : x.transaction = none) (d : Disk) : x.release d = d := by
  simp [Session.release, hx]

theorem transactional_engine (s : Store) : s.engine.Transactional where
  fresh h := Option.isNone_iff_eq_none.mpr (connectOn_of_ok h).2.2.1
  preparing t script y hy := by
    obtain ⟨bytes?, hafter, -⟩ := next?_engine s t script y
    rw [hafter]
    exact ⟨hy, rfl⟩
  rollingBack hy hrun hopen := release_of_opened (Option.isNone_iff_eq_none.mp hy) hrun hopen
  committing hcommit := release_of_commit_error hcommit
  ending hcommit := Option.isNone_iff_eq_none.mpr (transaction_of_commit hcommit)
  dropping hx := release_of_none (Option.isNone_iff_eq_none.mp hx) _

theorem process_ofStep {α : Type} (m : Machine) (w : Step α) :
    (Engine.after (Machine.ofStep m w)).2.process = m.process := by
  unfold Machine.ofStep
  split <;> rfl

theorem files_ofStep {α : Type} (m : Machine) (w : Step α) :
    (Engine.after (Machine.ofStep m w)).2.files = w.disk := by
  unfold Machine.ofStep
  split <;> rfl

theorem confined_engine (s : Store) : s.engine.Confined where
  connecting t m := by
    change (s.connectOn t m).1.process = m.process
    unfold connectOn
    split
    · rfl
    · split
      · rfl
      · split <;> rfl
  running t p y := process_ofStep y.2 (y.1.run t y.2.files p)
  committing t y := process_ofStep y.2 (y.1.commit t y.2.files)
  closing x m := rfl

theorem limitsMemory_of_part {script : s.engine.Script} (hc : c.limitsMemory = false)
    (hpart : s.engine.Part c script) : Sql.limitsMemory (Script.lexemes script) = false := by
  induction hpart with
  | whole => exact hc
  | rest hpart hnext ih => exact Sql.limitsMemory_of_next? (Script.ok_of_next? hnext) ih

/-- Only a statement that limits memory acts on the process. -/
theorem passive_of_limitsMemory (hc : c.limitsMemory = false) : s.engine.Passive c := by
  intro script hpart t y
  obtain ⟨bytes?, hafter, hnone⟩ := next?_engine s t script y
  obtain rfl := hnone (limitsMemory_of_part hc hpart)
  rw [hafter]
  rfl

/-- What a command is prepared to is what its text is prepared to over the tables that its
connection can read at first. -/
theorem only?_of_prepares {y y₂ : Session × Machine} {p : Sql.Prepared}
    (h : s.engine.Prepares t c y p y₂) :
    Sql.Prepared.only? (y.2.schema y.1.handle) c.text = .ok (some p) := by
  obtain ⟨rest, y₁, hfirst, hsecond⟩ := h
  have hnone : Sql.skipEmpty (Script.lexemes rest) = [] :=
    Sql.Prepared.next?_eq_none_iff.mp (Script.none_of_next? hsecond)
  refine (except_bind_eq_ok _ _ _).mpr ⟨_, Script.ok_of_next? hfirst, ?_⟩
  exact (except_bind_eq_ok _ _ _).mpr ⟨none, Sql.Prepared.next?_eq_none_iff.mpr hnone, rfl⟩

theorem seen_of_prepares {y y₂ : Session × Machine} {p : Sql.Prepared}
    (h : s.engine.Prepares t c y p y₂) : y₂.1 = y.1 ∧ y₂.2.files = y.2.files := by
  obtain ⟨rest, y₁, hfirst, hsecond⟩ := h
  obtain ⟨bytes?, hafter, -⟩ := next?_engine s t (s.engine.script c.text) y
  obtain ⟨bytes?', hafter', -⟩ := next?_engine s t rest y₁
  rw [hfirst] at hafter
  rw [hsecond] at hafter'
  obtain rfl : y₁ = _ := hafter
  obtain rfl : y₂ = _ := hafter'
  exact ⟨rfl, rfl⟩

/-- Unless it says OR FAIL, a statement that fails is undone as a whole. -/
theorem undone_of_saysOrFail (hc : c.saysOrFail = false) : s.engine.Undone c := by
  intro t y p y₂ hprepared hauto message y' hrun
  have hkeeps : Sql.Plan.keepsRows (Sql.Prepared.plan p) = false :=
    (Sql.keepsRows_of_only? (only?_of_prepares hprepared)).trans hc
  exact release_of_failed (Option.isNone_iff_eq_none.mp hauto) hkeeps hrun

/-- A statement that keeps the tables leaves its connection and the machine as they are. -/
theorem run_of_keep {p : Sql.Prepared} {result : Except Sql.Fault (List Sql.Tuple)}
    (he : p.run (x.handle.rights m.files) (x.handle.schema m.files) =
      .keep (x.handle.schema m.files) result) (t : Trouble) :
    Machine.ofStep m (x.run t m.files p) = match do drain t 0 (← result) with
      | .ok rows => .ok rows (x, m)
      | .error f => .error f.message (x, m) := by
  have hrun : x.run t m.files p = ⟨m.files, x, do drain t 0 (← result)⟩ := by
    unfold Session.run
    dsimp only
    rw [he]
    cases result with
    | error f =>
      simp only [Sql.Effect.keep, Handle.commit_schema]
      rfl
    | ok rows =>
      simp only [Sql.Effect.keep, Handle.commit_schema, bind, Except.bind]
      cases drain t 0 rows <;> rfl
  rw [hrun, Machine.ofStep]
  dsimp only
  cases (do drain t 0 (← result) : Except Sql.Fault (List Sql.Tuple)) <;> rfl

/-- A read leaves the files as they are. -/
theorem reads_of_kind (hk : c.kind = .read) : s.engine.Reads c := by
  intro t y p y₂ hprepared _
  obtain ⟨x, m⟩ := y₂
  obtain ⟨q, hq⟩ := Sql.query_of_read hk (only?_of_prepares hprepared)
  obtain ⟨result, hresult, -⟩ :=
    Sql.Prepared.run_of_query hq (x.handle.rights m.files) (x.handle.schema m.files)
  have hrun : s.engine.run t p (x, m) = _ := run_of_keep hresult t
  rw [hrun]
  split <;> rfl

/-- Where memory is not limited, preparing a statement is preparing it over tables. -/
theorem next?_of_unlimited (script : Script) (hm : m.process.exhausted = false)
    (hls : Sql.limitsMemory script.lexemes = false) :
    s.engine.next? t script (x, m) =
      match t.at script.point, Sql.Prepared.next? (x.handle.schema m.files) script.lexemes with
      | .error f, _ => .error f.message (x, m)
      | .ok (), .error f => .error f.message (x, m)
      | .ok (), .ok none => .ok none (x, m)
      | .ok (), .ok (some (p, rest)) => .ok (some (p, ⟨true, rest⟩)) (x, m) := by
  change script.next? t x m = _
  unfold Script.next?
  simp only [Machine.schema_of_unlimited hm, Sql.memoryAt?_of_limitsMemory hls]
  rfl

/-- A step after another one on a connection is one on the machine. -/
theorem ofStep_andThen {α β : Type} (m : Machine) (w : Step α) (go : Session → Disk → α → Step β) :
    Machine.ofStep m (w.andThen go) =
      match Machine.ofStep m w with
      | .ok a (x, m) => Machine.ofStep m (go x m.files a)
      | .error message y => .error message y := by
  unfold Step.andThen Machine.ofStep
  cases w.result <;> rfl

/-- The statement of a command is run, and what it leaves open is committed, as over tables. -/
theorem conclude_engine (m : Machine) (x : Session) (p : Sql.Prepared) :
    (do
      let rows ← s.engine.run t p
      match c.kind with
      | .read => return .rows (rows.map Row.ofTuple)
      | .write =>
        if s.engine.autocommit (← get).1 then return .success
        else
          s.engine.commit t
          return .success : s.engine.Action Response) (x, m) =
      Machine.ofStep m ((x.run t m.files p).andThen fun x d rows =>
        match c.kind with
        | .read => ⟨d, x, .ok (.rows (rows.map Row.ofTuple))⟩
        | .write => (x.commit t d).andThen fun x d _ => ⟨d, x, .ok .success⟩) := by
  rw [ofStep_andThen]
  simp only [bind, EStateM.bind]
  cases hran : Machine.ofStep m (x.run t m.files p) with
  | error message y => rfl
  | ok rows y =>
    obtain ⟨x', m'⟩ := y
    cases c.kind with
    | read => rfl
    | write =>
      have hcommit : s.engine.commit t (x', m') = Machine.ofStep m' (x'.commit t m'.files) := rfl
      dsimp only
      rw [ofStep_andThen]
      have hget := Engine.get_apply (E := s.engine) (x', m')
      simp only [EStateM.bind, hget]
      cases htransaction : x'.transaction with
      | none =>
        have hnone : x'.commit t m'.files = ⟨m'.files, x', .ok ()⟩ := by
          simp [Session.commit, htransaction]
        simp only [hnone]
        rfl
      | some transaction =>
        simp only [Option.isNone_some, Bool.false_eq_true, if_false]
        change EStateM.bind (s.engine.commit t) (fun _ => pure Response.success) (x', m') = _
        rw [EStateM.bind, hcommit]
        cases Machine.ofStep m' (x'.commit t m'.files) <;> rfl

theorem attempt_engine (hm : m.process.exhausted = false) (hc : c.limitsMemory = false) :
    s.engine.attempt t c (x, m) = Machine.ofStep m (x.attempt t m.files c) := by
  have hnext : s.engine.next? t (s.engine.script c.text) (x, m) = _ :=
    next?_of_unlimited ⟨false, Sql.Lexeme.scan c.text.toList⟩ hm hc
  have hpoint : Script.point ⟨false, Sql.Lexeme.scan c.text.toList⟩ = .preparing := rfl
  rw [hpoint] at hnext
  dsimp only at hnext
  unfold Engine.attempt Session.attempt Session.prepare
  simp only [bind, EStateM.bind, hnext]
  cases hpreparing : t.at .preparing with
  | error f => rfl
  | ok u =>
    cases hfirst : Sql.Prepared.next? (x.handle.schema m.files) (Sql.Lexeme.scan c.text.toList) with
    | error f => rfl
    | ok first =>
      cases first with
      | none => rfl
      | some first =>
        obtain ⟨p, rest⟩ := first
        have hrest : s.engine.next? t ⟨true, rest⟩ (x, m) = _ :=
          next?_of_unlimited ⟨true, rest⟩ hm (Sql.limitsMemory_of_next? hfirst hc)
        have hpoint : Script.point ⟨true, rest⟩ = .following := rfl
        rw [hpoint] at hrest
        dsimp only at hrest
        dsimp only [Except.bind, EStateM.bind]
        rw [hrest]
        cases hfollowing : t.at .following with
        | error f => rfl
        | ok u =>
          cases hsecond : Sql.Prepared.next? (x.handle.schema m.files) rest with
          | error f => rfl
          | ok second =>
            cases second with
            | some other => rfl
            | none => exact conclude_engine m x p

/-- Where memory is not limited, a command is executed on the machine as it is on the disk. -/
theorem execute_engine (hm : m.process.exhausted = false) (hc : c.limitsMemory = false) :
    s.engine.execute t m c =
      ({ m with files := (executeUnder t s m.files c).1 }, (executeUnder t s m.files c).2) := by
  unfold executeUnder
  cases hblank : c.isBlank with
  | true => exact Engine.execute_of_blank hblank
  | false =>
    unfold connectUnder
    cases ht : t .opening with
    | some f =>
      have hconnectOn : s.connectOn t m = (m, .error (.failed f.message)) := by
        simp [connectOn, hm, ht]
      simp only [Engine.execute, hblank, hconnectOn]
      rfl
    | none =>
      rcases hconnect : s.connect m.files with ⟨d, h | f | reason⟩
      · have hconnectOn : s.engine.connect t m = ({ m with files := d }, .ok ⟨h, none⟩) := by
          simp [connectOn, hm, ht, hconnect]
        have hattempt := attempt_engine (s := s) (t := t) (m := { m with files := d })
          (x := ⟨h, none⟩) hm hc
        rw [Engine.execute_of_connect hblank hconnectOn, hattempt]
        simp only [Machine.ofStep]
        cases ((Session.mk h none).attempt t d c).result <;> rfl
      · have hconnectOn : s.connectOn t m = ({ m with files := d }, .error (.failed f.message)) := by
          simp [connectOn, hm, ht, hconnect]
        simp only [Engine.execute, hblank, hconnectOn]
        rfl
      · have hconnectOn : s.connectOn t m = ({ m with files := d }, .error (.crashed reason)) := by
          simp [connectOn, hm, ht, hconnect]
        simp only [Engine.execute, hblank, hconnectOn]
        rfl

theorem bootstrapOn_of_done (hdone : s.bootstrapOn m = (m', .done ())) :
    m.process.exhausted = false ∧ s.bootstrap m.files = (m'.files, .done ()) ∧
      m'.process = m.process := by
  unfold bootstrapOn at hdone
  split at hdone
  · cases hdone
  · rename_i hmemory
    obtain ⟨hm, hdone⟩ := Prod.mk.inj hdone
    rw [← hm]
    exact ⟨by simpa using hmemory, Prod.ext rfl hdone, rfl⟩

end Store
end QueryServer
