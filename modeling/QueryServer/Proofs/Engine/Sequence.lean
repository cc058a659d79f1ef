import QueryServer.Proofs.Engine.Laws
/-!
Commands one after another, over any library that keeps the laws. Each comes with what it takes
from elsewhere: nothing but files passes from a command to the next one, what a success has done is
there when its connection is dropped, and a transaction in which nothing is done leaves no trace.
-/

namespace QueryServer
namespace Engine
open Executor

/-- A command, what it takes from elsewhere, and whether it has been inserted into a sequence. -/
structure Line (E : Engine) where
  outside : E.Outside
  command : Command
  inserted : Bool := false

/-- The answers to commands one after another, and the world after the last one. -/
def answers (E : Engine) : E.World → List E.Line → List Response × E.World
  | w, [] => ([], w)
  | w, l :: ls =>
    let (w', r) := E.execution l.outside w l.command
    let (rs, last) := answers E w' ls
    (r :: rs, last)

/-- The same where every command finds the process in one state, whatever was before it. -/
def answersOver (E : Engine) (process : E.Process) : E.Files → List E.Line → List Response × E.Files
  | files, [] => ([], files)
  | files, l :: ls =>
    let (w, r) := E.execution l.outside ⟨files, process⟩ l.command
    let (rs, last) := answersOver E process w.files ls
    (r :: rs, last)

variable {E : Engine} {o : E.Outside} {w w' : E.World} {c : Command} {ls : List E.Line}

theorem answers_cons (w : E.World) (l : E.Line) (ls : List E.Line) :
    E.answers w (l :: ls) =
      ((E.execution l.outside w l.command).2 ::
          (E.answers (E.execution l.outside w l.command).1 ls).1,
        (E.answers (E.execution l.outside w l.command).1 ls).2) := rfl

theorem answers_of_passive (hE : E.Confined) (hls : ∀ l ∈ ls, E.Passive l.command) (w : E.World) :
    E.answers w ls = ((E.answersOver w.process w.files ls).1,
      ⟨(E.answersOver w.process w.files ls).2, w.process⟩) := by
  induction ls generalizing w with
  | nil => rfl
  | cons l ls ih =>
    have hprocess : (E.execution l.outside w l.command).1.process = w.process :=
      hE.process_execute (hls l List.mem_cons_self)
    have hrest := ih (fun x hx => hls x (List.mem_cons_of_mem l hx))
      (E.execution l.outside w l.command).1
    rw [hprocess] at hrest
    rw [answers_cons, hrest]
    rfl

/-- What a success leaves: when the connection was dropped, no transaction was open on it, so that
nothing was lost with it. -/
def Concluded (E : Engine) (o : E.Outside) (w : E.World) (c : Command) (w' : E.World) : Prop :=
  ∃ x w₁ p, E.connect o w = (w₁, .ok x) ∧ E.attempt o c (x, w₁) = .ok .success p ∧
    E.autocommit p.1 = true ∧ w' = E.close p.1 p.2 ∧ w'.files = p.2.files

theorem Transactional.autocommit_of_ok (hE : E.Transactional) (hk : c.kind = .write)
    {p p' : E.Session × E.World} (hp : E.autocommit p.1 = true) {r : Response}
    (h : E.attempt o c p = .ok r p') : E.autocommit p'.1 = true := by
  have hattempted := E.attempted o c p
  rw [h] at hattempted
  cases hattempted with
  | empty _ hfirst => exact (hE.preparing_of_ok hp hfirst).1
  | read _ _ _ _ hread =>
    rw [hk] at hread
    cases hread
  | settled _ _ _ _ _ _ _ hauto => exact hauto
  | committed _ _ _ _ _ _ _ _ _ hcommit => exact hE.ending hcommit

theorem Transactional.concluded (hE : E.Transactional) (hk : c.kind = .write)
    (h : E.execute o w c = (w', .ok .success)) :
    c.isBlank ∧ w' = w ∨ E.Concluded o w c w' := by
  cases hblank : c.isBlank with
  | true =>
    rw [execute_of_blank hblank] at h
    cases h
    exact .inl ⟨rfl, rfl⟩
  | false =>
    rcases hconnect : E.connect o w with ⟨w₁, refusal | x⟩
    · have hfailed := (execute_of_refused hblank hconnect).2
      rw [h] at hfailed
      cases hfailed
    · rw [execute_of_connect hblank hconnect] at h
      cases hattempt : E.attempt o c (x, w₁) with
      | error message p =>
        rw [hattempt] at h
        cases h
      | ok r p =>
        have hauto := hE.autocommit_of_ok hk (hE.fresh hconnect) hattempt
        rw [hattempt] at h
        cases h
        exact .inr ⟨x, w₁, p, hconnect, hattempt, hauto, rfl, hE.dropping hauto⟩

/-- Here the command opens a transaction, and to commit it with nothing done in it leaves what to
drop it would leave. -/
structure Opens (E : Engine) (o : E.Outside) (w : E.World) (c : Command) : Prop where
  write : c.kind = .write
  passive : E.Passive c
  opens : ∃ x statement p₂ rows p₃ p₄, E.connect o w = (w, .ok x) ∧
    E.Prepares o c (x, w) statement p₂ ∧ E.run o statement p₂ = .ok rows p₃ ∧
    E.autocommit p₃.1 = false ∧ E.commit o p₃ = .ok () p₄ ∧ E.left p₄ = E.left p₃

theorem attempt_of_prepares {p p₂ : E.Session × E.World} {statement : E.Statement}
    (hk : c.kind = .write) (hprepared : E.Prepares o c p statement p₂) {rows : List Sql.Tuple}
    {p₃ p₄ : E.Session × E.World} (hrun : E.run o statement p₂ = .ok rows p₃)
    (hopen : E.autocommit p₃.1 = false) (hcommit : E.commit o p₃ = .ok () p₄) :
    E.attempt o c p = .ok .success p₄ := by
  obtain ⟨rest, p₁, hfirst, hsecond⟩ := hprepared
  unfold attempt
  simp only [bind, EStateM.bind, hfirst, hsecond, hrun, hk, get_apply, hopen, Bool.false_eq_true,
    if_false, hcommit]
  rfl

/-- A transaction in which nothing is done leaves no trace. -/
theorem Opens.execute (h : E.Opens o w c) (hE : E.Transactional) (hconfined : E.Confined) :
    E.execute o w c = (w, .ok .success) := by
  obtain ⟨x, statement, p₂, rows, p₃, p₄, hconnect, hprepared, hrun, hopen, hcommit, hleft⟩ :=
    h.opens
  have hprocess := hconfined.process_execute (o := o) (w := w) h.passive
  cases hblank : c.isBlank with
  | true => exact execute_of_blank hblank
  | false =>
    have hfresh := hE.fresh hconnect
    obtain ⟨hauto₂, hleft₂⟩ := hE.prepares hfresh hprepared
    rw [execute_of_connect hblank hconnect,
      attempt_of_prepares h.write hprepared hrun hopen hcommit] at hprocess ⊢
    refine Prod.ext (World.ext ?_ hprocess) rfl
    calc (E.close p₄.1 p₄.2).files
        = E.left p₃ := hleft
      _ = E.left p₂ := hE.rollingBack hauto₂ hrun hopen
      _ = E.left (x, w) := hleft₂
      _ = w.files := hE.dropping hfresh

/-- All inserted commands of a sequence open transactions where they stand. -/
def Inserts (E : Engine) : E.World → List E.Line → Prop
  | _, [] => True
  | w, l :: ls => (l.inserted → E.Opens l.outside w l.command) ∧
      Inserts E (E.execution l.outside w l.command).1 ls

/-- Inserted commands are successes, and without them nothing would be different. -/
structure Undisturbed (E : Engine) (ls : List E.Line) (all kept : List Response × E.World) :
    Prop where
  inserted : ∀ x ∈ ls.zip all.1, x.1.inserted → x.2 = .success
  others : ((ls.zip all.1).filter (!·.1.inserted)).map (·.2) = kept.1
  world : all.2 = kept.2

theorem undisturbed (hE : E.Transactional) (hconfined : E.Confined) (h : E.Inserts w ls) :
    E.Undisturbed ls (E.answers w ls) (E.answers w (ls.filter (!·.inserted))) := by
  -- an inserted command leaves the very same world
  induction ls generalizing w with
  | nil => exact ⟨by simp [answers], rfl, rfl⟩
  | cons l ls ih =>
    obtain ⟨hopens, hrest⟩ := h
    obtain ⟨hinserted, hothers, hworld⟩ := ih hrest
    cases hi : l.inserted with
    | true =>
      have hexecution : E.execution l.outside w l.command = (w, .success) := by
        rw [execution, (hopens hi).execute hE hconfined]
        rfl
      rw [hexecution] at hinserted hothers hworld
      rw [List.filter_cons_of_neg (by simp [hi]), answers_cons, hexecution]
      exact ⟨by simpa [hi] using hinserted, by simpa [hi] using hothers, hworld⟩
    | false =>
      rw [List.filter_cons_of_pos (by simp [hi]), answers_cons, answers_cons]
      exact ⟨by simpa [hi] using hinserted, by simpa [hi] using hothers, hworld⟩

/-- The command holds a statement, and that can only fail where no transaction is open. -/
structure Refuses (E : Engine) (c : Command) : Prop where
  visible : c.isBlank = false
  holds : ∀ o p p', E.next? o (E.script c.text) p ≠ .ok none p'
  fails : ∀ o p statement p₂, E.Prepares o c p statement p₂ → E.autocommit p₂.1 = true →
    ∃ message p', E.run o statement p₂ = .error message p' ∧ E.left p' = E.left p₂

theorem Refuses.undone (h : E.Refuses c) : E.Undone c := by
  intro o p statement p₂ hprepared hauto message p' hrun
  obtain ⟨message', p'', hfails, hleft⟩ := h.fails o p statement p₂ hprepared hauto
  rw [hrun] at hfails
  cases hfails
  exact hleft

theorem Refuses.attempt (h : E.Refuses c) (hE : E.Transactional) {p : E.Session × E.World}
    (hp : E.autocommit p.1 = true) : ∃ message p', E.attempt o c p = .error message p' := by
  have hnever {statement : E.Statement} {p₂ p₃ : E.Session × E.World} {rows : List Sql.Tuple}
      (hprepared : E.Prepares o c p statement p₂) (hrun : E.run o statement p₂ = .ok rows p₃) :
      False := by
    obtain ⟨message, p', hfails, -⟩ :=
      h.fails o p statement p₂ hprepared (hE.prepares hp hprepared).1
    rw [hrun] at hfails
    cases hfails
  have hattempted := E.attempted o c p
  generalize E.attempt o c p = r at hattempted
  cases hattempted with
  | refused message p' | interrupted _ _ message p' | uncommitted _ _ _ _ message p' =>
    exact ⟨message, p', rfl⟩
  | empty p' hfirst => exact absurd hfirst (h.holds o p p')
  | read _ _ _ _ _ hprepared hrun | settled _ _ _ _ _ hprepared hrun
  | committed _ _ _ _ _ _ hprepared hrun => exact (hnever hprepared hrun).elim

theorem Refuses.failed (h : E.Refuses c) (hE : E.Transactional) (o : E.Outside) (w : E.World) :
    failed (E.execute o w c).2 ∧ (E.execute o w c).1.files = (E.opening o w).files := by
  have hfailed : Executor.failed (E.execute o w c).2 := by
    rcases hconnect : E.connect o w with ⟨w₁, refusal | x⟩
    · exact (execute_of_refused h.visible hconnect).2
    · obtain ⟨message, p', hattempt⟩ := h.attempt (o := o) (p := (x, w₁)) hE (hE.fresh hconnect)
      rw [execute_of_connect h.visible hconnect, hattempt]
      rfl
  exact ⟨hfailed, hE.files_of_failed h.undone hfailed⟩

end Engine
end QueryServer
