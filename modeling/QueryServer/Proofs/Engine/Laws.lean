import QueryServer.Engine
/-!
What the execution of commands relies on: how transactions begin and end, what a dropped connection
leaves, and which steps act on the process. All that a command can come to is one inversion.
-/

namespace QueryServer

/-- A failure or a crash. -/
def Executor.failed : Except String Response → Bool
  | .ok r => !r.isSuccess
  | .error _ => true

theorem Executor.failed_of_answer {x : Except String Response}
    (h : (answer x).isSuccess = false) : failed x := by
  cases x with
  | ok r => simpa [failed, answer] using h
  | error reason => rfl

namespace Engine
open Executor

variable {E : Engine} {o : E.Outside} {w w' : E.World} {c : Command} {x : E.Session}
  {p p' : E.Session × E.World} {α : Type}

/-- What a step leaves, whether it fails or not. -/
def after {σ : Type} : EStateM.Result String σ α → σ
  | .ok _ p => p
  | .error _ p => p

/-- The files that are left when a connection is dropped. -/
def left (p : E.Session × E.World) : E.Files :=
  (E.close p.1 p.2).files

/-- What opening a connection leaves, if it is dropped at once. -/
def opening (E : Engine) (o : E.Outside) (w : E.World) : E.World :=
  match E.connect o w with
  | (w', .ok x) => E.close x w'
  | (w', .error _) => w'

/-- How transactions begin and end. -/
structure Transactional (E : Engine) : Prop where
  fresh : ∀ {o w w' x}, E.connect o w = (w', .ok x) → E.autocommit x = true
  preparing : ∀ o script p, E.autocommit p.1 = true →
    E.autocommit (after (E.next? o script p)).1 = true ∧
      E.left (after (E.next? o script p)) = E.left p
  /-- A transaction that a statement leaves open is rolled back when its connection is dropped. -/
  rollingBack : ∀ {o statement p rows p'}, E.autocommit p.1 = true →
    E.run o statement p = .ok rows p' → E.autocommit p'.1 = false → E.left p' = E.left p
  /-- A commit that fails has committed nothing. -/
  committing : ∀ {o p message p'}, E.commit o p = .error message p' → E.left p' = E.left p
  ending : ∀ {o p p'}, E.commit o p = .ok () p' → E.autocommit p'.1 = true
  /-- Where no transaction is open, nothing is lost with a connection. -/
  dropping : ∀ {x w}, E.autocommit x = true → (E.close x w).files = w.files

/-- Only the preparation of statements acts on what the process shares. -/
structure Confined (E : Engine) : Prop where
  connecting : ∀ o w, (E.connect o w).1.process = w.process
  running : ∀ o statement p, (after (E.run o statement p)).2.process = p.2.process
  committing : ∀ o p, (after (E.commit o p)).2.process = p.2.process
  closing : ∀ x w, (E.close x w).process = w.process

/-- A command's text, or what is left of it after some statements. -/
inductive Part (E : Engine) (c : Command) : E.Script → Prop where
  | whole : Part E c (E.script c.text)
  | rest {script rest : E.Script} {o : E.Outside} {p p' : E.Session × E.World}
      {statement : E.Statement} (h : Part E c script)
      (hnext : E.next? o script p = .ok (some (statement, rest)) p') : Part E c rest

/-- To prepare the command does not act on what the process shares. -/
def Passive (E : Engine) (c : Command) : Prop :=
  ∀ script, E.Part c script → ∀ o p, (after (E.next? o script p)).2.process = p.2.process

/-- The text of a command is one statement, and this is what is left when all is prepared. -/
def Prepares (E : Engine) (o : E.Outside) (c : Command) (p : E.Session × E.World)
    (statement : E.Statement) (p₂ : E.Session × E.World) : Prop :=
  ∃ rest p₁, E.next? o (E.script c.text) p = .ok (some (statement, rest)) p₁ ∧
    E.next? o rest p₁ = .ok none p₂

/-- The statement of the command is undone as a whole when it fails where no transaction is open. -/
def Undone (E : Engine) (c : Command) : Prop :=
  ∀ o p statement p₂, E.Prepares o c p statement p₂ → E.autocommit p₂.1 = true →
    ∀ message p', E.run o statement p₂ = .error message p' → E.left p' = E.left p₂

/-- The statement of the command does not modify the store, whether it fails or not. -/
def Reads (E : Engine) (c : Command) : Prop :=
  ∀ o p statement p₂, E.Prepares o c p statement p₂ → E.autocommit p₂.1 = true →
    E.left (after (E.run o statement p₂)) = E.left p₂

/-- The text of a command is refused before anything runs. -/
inductive Refused (E : Engine) (o : E.Outside) (c : Command) (p : E.Session × E.World) :
    String → E.Session × E.World → Prop where
  | first (message : String) (p' : E.Session × E.World)
      (hfirst : E.next? o (E.script c.text) p = .error message p') : Refused E o c p message p'
  | second (statement : E.Statement) (rest : E.Script) (p₁ : E.Session × E.World)
      (message : String) (p' : E.Session × E.World)
      (hfirst : E.next? o (E.script c.text) p = .ok (some (statement, rest)) p₁)
      (hsecond : E.next? o rest p₁ = .error message p') : Refused E o c p message p'
  | several (statement : E.Statement) (rest : E.Script) (p₁ : E.Session × E.World)
      (other : E.Statement × E.Script) (p' : E.Session × E.World)
      (hfirst : E.next? o (E.script c.text) p = .ok (some (statement, rest)) p₁)
      (hsecond : E.next? o rest p₁ = .ok (some other) p') :
      Refused E o c p Sql.Fault.severalStatements.message p'

/-- All that an attempt to run a command can come to. -/
inductive Attempted (E : Engine) (o : E.Outside) (c : Command) (p : E.Session × E.World) :
    EStateM.Result String (E.Session × E.World) Response → Prop where
  | refused (message : String) (p' : E.Session × E.World)
      (hrefused : E.Refused o c p message p') : Attempted E o c p (.error message p')
  | empty (p' : E.Session × E.World) (hfirst : E.next? o (E.script c.text) p = .ok none p') :
      Attempted E o c p (.ok .success p')
  | interrupted (statement : E.Statement) (p₂ : E.Session × E.World) (message : String)
      (p' : E.Session × E.World) (hprepared : E.Prepares o c p statement p₂)
      (hrun : E.run o statement p₂ = .error message p') : Attempted E o c p (.error message p')
  | read (statement : E.Statement) (p₂ : E.Session × E.World) (rows : List Sql.Tuple)
      (p' : E.Session × E.World) (hk : c.kind = .read)
      (hprepared : E.Prepares o c p statement p₂) (hrun : E.run o statement p₂ = .ok rows p') :
      Attempted E o c p (.ok (.rows (rows.map Row.ofTuple)) p')
  | settled (statement : E.Statement) (p₂ : E.Session × E.World) (rows : List Sql.Tuple)
      (p' : E.Session × E.World) (hk : c.kind = .write)
      (hprepared : E.Prepares o c p statement p₂) (hrun : E.run o statement p₂ = .ok rows p')
      (hauto : E.autocommit p'.1 = true) : Attempted E o c p (.ok .success p')
  | uncommitted (statement : E.Statement) (p₂ : E.Session × E.World) (rows : List Sql.Tuple)
      (p₃ : E.Session × E.World) (message : String) (p' : E.Session × E.World)
      (hk : c.kind = .write) (hprepared : E.Prepares o c p statement p₂)
      (hrun : E.run o statement p₂ = .ok rows p₃) (hauto : E.autocommit p₃.1 = false)
      (hcommit : E.commit o p₃ = .error message p') : Attempted E o c p (.error message p')
  | committed (statement : E.Statement) (p₂ : E.Session × E.World) (rows : List Sql.Tuple)
      (p₃ : E.Session × E.World) (p' : E.Session × E.World)
      (hk : c.kind = .write) (hprepared : E.Prepares o c p statement p₂)
      (hrun : E.run o statement p₂ = .ok rows p₃) (hauto : E.autocommit p₃.1 = false)
      (hcommit : E.commit o p₃ = .ok () p') : Attempted E o c p (.ok .success p')

theorem get_apply (p : E.Session × E.World) :
    (get : E.Action (E.Session × E.World)) p = .ok p p := rfl

theorem attempted (E : Engine) (o : E.Outside) (c : Command) (p : E.Session × E.World) :
    E.Attempted o c p (E.attempt o c p) := by
  unfold attempt
  cases hfirst : E.next? o (E.script c.text) p with
  | error message p₁ =>
    simp only [bind, EStateM.bind, hfirst]
    exact .refused message p₁ (.first message p₁ hfirst)
  | ok first p₁ =>
    simp only [bind, EStateM.bind, hfirst]
    cases first with
    | none => exact .empty p₁ hfirst
    | some first =>
      obtain ⟨statement, rest⟩ := first
      cases hsecond : E.next? o rest p₁ with
      | error message p₂ =>
        simp only [EStateM.bind, hsecond]
        exact .refused message p₂ (.second statement rest p₁ message p₂ hfirst hsecond)
      | ok second p₂ =>
        simp only [EStateM.bind, hsecond]
        cases second with
        | some other =>
          exact .refused _ p₂ (.several statement rest p₁ other p₂ hfirst hsecond)
        | none =>
          have hprepared : E.Prepares o c p statement p₂ := ⟨rest, p₁, hfirst, hsecond⟩
          cases hrun : E.run o statement p₂ with
          | error message p₃ =>
            simp only [EStateM.bind, hrun]
            exact .interrupted statement p₂ message p₃ hprepared hrun
          | ok rows p₃ =>
            simp only [EStateM.bind, hrun]
            cases hk : c.kind with
            | read => exact .read statement p₂ rows p₃ hk hprepared hrun
            | write =>
              cases hauto : E.autocommit p₃.1 with
              | true =>
                simp only [EStateM.bind, get_apply, hauto]
                exact .settled statement p₂ rows p₃ hk hprepared hrun hauto
              | false =>
                simp only [EStateM.bind, get_apply, hauto, Bool.false_eq_true, if_false]
                cases hcommit : E.commit o p₃ with
                | error message p₄ =>
                  exact .uncommitted statement p₂ rows p₃ message p₄ hk hprepared hrun hauto hcommit
                | ok done p₄ =>
                  exact .committed statement p₂ rows p₃ p₄ hk hprepared hrun hauto hcommit

variable {statement : E.Statement} {p₂ : E.Session × E.World}

theorem Transactional.preparing_of_ok (hE : E.Transactional) {script : E.Script}
    {next : Option (E.Statement × E.Script)} (hp : E.autocommit p.1 = true)
    (h : E.next? o script p = .ok next p') : E.autocommit p'.1 = true ∧ E.left p' = E.left p := by
  have hafter := hE.preparing o script p hp
  rwa [h] at hafter

theorem Transactional.preparing_of_error (hE : E.Transactional) {script : E.Script}
    {message : String} (hp : E.autocommit p.1 = true)
    (h : E.next? o script p = .error message p') : E.left p' = E.left p := by
  have hafter := hE.preparing o script p hp
  rw [h] at hafter
  exact hafter.2

theorem Transactional.prepares (hE : E.Transactional) (hp : E.autocommit p.1 = true)
    (h : E.Prepares o c p statement p₂) : E.autocommit p₂.1 = true ∧ E.left p₂ = E.left p := by
  obtain ⟨rest, p₁, hfirst, hsecond⟩ := h
  obtain ⟨hauto₁, hleft₁⟩ := hE.preparing_of_ok hp hfirst
  obtain ⟨hauto₂, hleft₂⟩ := hE.preparing_of_ok hauto₁ hsecond
  exact ⟨hauto₂, hleft₂.trans hleft₁⟩

theorem Transactional.left_of_refused (hE : E.Transactional) (hp : E.autocommit p.1 = true)
    {message : String} (h : E.Refused o c p message p') : E.left p' = E.left p := by
  cases h with
  | first _ _ hfirst => exact hE.preparing_of_error hp hfirst
  | second statement rest p₁ _ _ hfirst hsecond =>
    obtain ⟨hauto₁, hleft₁⟩ := hE.preparing_of_ok hp hfirst
    exact (hE.preparing_of_error hauto₁ hsecond).trans hleft₁
  | several statement rest p₁ other _ hfirst hsecond =>
    obtain ⟨hauto₁, hleft₁⟩ := hE.preparing_of_ok hp hfirst
    exact (hE.preparing_of_ok hauto₁ hsecond).2.trans hleft₁

/-- An attempt that fails leaves nothing in the files. -/
theorem Transactional.left_of_error (hE : E.Transactional) (hc : E.Undone c)
    (hp : E.autocommit p.1 = true) {message : String}
    (h : E.attempt o c p = .error message p') : E.left p' = E.left p := by
  have hattempted := E.attempted o c p
  rw [h] at hattempted
  cases hattempted with
  | refused _ _ hrefused => exact hE.left_of_refused hp hrefused
  | interrupted statement p₂ _ _ hprepared hrun =>
    obtain ⟨hauto₂, hleft₂⟩ := hE.prepares hp hprepared
    exact (hc o p statement p₂ hprepared hauto₂ message p' hrun).trans hleft₂
  | uncommitted statement p₂ rows p₃ _ _ hk hprepared hrun hauto hcommit =>
    obtain ⟨hauto₂, hleft₂⟩ := hE.prepares hp hprepared
    exact ((hE.committing hcommit).trans (hE.rollingBack hauto₂ hrun hauto)).trans hleft₂

/-- What each step of an attempt preserves, the attempt preserves. -/
theorem attempt_preserves {I : E.Session × E.World → Prop}
    (hnext : ∀ script, E.Part c script → ∀ p, I p → I (after (E.next? o script p)))
    (hrun : ∀ statement p₂, E.Prepares o c p statement p₂ → I p₂ →
      I (after (E.run o statement p₂)))
    (hcommit : ∀ p, I p → I (after (E.commit o p))) (hp : I p) :
    I (after (E.attempt o c p)) := by
  have hfirst {r} (h : E.next? o (E.script c.text) p = r) : I (after r) := h ▸ hnext _ .whole p hp
  have hsecond {statement rest p₁ r}
      (h₁ : E.next? o (E.script c.text) p = .ok (some (statement, rest)) p₁)
      (h : E.next? o rest p₁ = r) : I (after r) :=
    h ▸ hnext rest (.rest .whole h₁) p₁ (hfirst h₁)
  have hran {statement p₂ r} (hprepared : E.Prepares o c p statement p₂)
      (h : E.run o statement p₂ = r) : I (after r) := by
    obtain ⟨rest, p₁, h₁, h₂⟩ := hprepared
    exact h ▸ hrun statement p₂ ⟨rest, p₁, h₁, h₂⟩ (hsecond h₁ h₂)
  have hattempted := E.attempted o c p
  generalize E.attempt o c p = r at hattempted
  cases hattempted with
  | refused _ _ hrefused =>
    cases hrefused with
    | first _ _ h₁ => exact hfirst h₁
    | second _ _ _ _ _ h₁ h₂ => exact hsecond h₁ h₂
    | several _ _ _ _ _ h₁ h₂ => exact hsecond h₁ h₂
  | empty _ h₁ => exact hfirst h₁
  | interrupted _ _ _ _ hprepared h => exact hran hprepared h
  | read _ _ _ _ _ hprepared h => exact hran hprepared h
  | settled _ _ _ _ _ hprepared h => exact hran hprepared h
  | uncommitted _ _ _ p₃ _ _ _ hprepared h _ hfailed =>
    have hdone := hcommit p₃ (hran hprepared h)
    rwa [hfailed] at hdone
  | committed _ _ _ p₃ _ _ hprepared h _ hok =>
    have hdone := hcommit p₃ (hran hprepared h)
    rwa [hok] at hdone

/-- An attempt acts on what the process shares only where its text is prepared. -/
theorem Confined.process_attempt (hE : E.Confined) (hc : E.Passive c) (o : E.Outside)
    (p : E.Session × E.World) : (after (E.attempt o c p)).2.process = p.2.process :=
  attempt_preserves (I := fun q => q.2.process = p.2.process)
    (fun script hpart q hq => (hc script hpart o q).trans hq)
    (fun statement q _ hq => (hE.running o statement q).trans hq)
    (fun q hq => (hE.committing o q).trans hq) rfl

/-- Only a success comes out of an attempt that does not fail. -/
theorem isSuccess_of_attempt {r : Response} (h : E.attempt o c p = .ok r p') : r.isSuccess := by
  have hattempted := E.attempted o c p
  rw [h] at hattempted
  cases hattempted <;> rfl

theorem execute_of_blank (hblank : c.isBlank) : E.execute o w c = (w, .ok .success) := by
  simp [execute, hblank]

theorem execute_of_connect (hblank : c.isBlank = false) (hc : E.connect o w = (w', .ok x)) :
    E.execute o w c = match E.attempt o c (x, w') with
      | .ok r (x, w) => (E.close x w, .ok r)
      | .error message (x, w) => (E.close x w, .ok (.failure message)) := by
  cases hattempt : E.attempt o c (x, w') <;> simp [execute, hblank, hc, hattempt]

/-- Without a connection there is nothing but a failure. -/
theorem execute_of_refused {refusal : Refusal} (hblank : c.isBlank = false)
    (hc : E.connect o w = (w', .error refusal)) :
    (E.execute o w c).1 = w' ∧ failed (E.execute o w c).2 := by
  cases refusal <;> simp [execute, hblank, hc, failed, Response.isSuccess]

theorem opening_of_connect (hc : E.connect o w = (w', .ok x)) : E.opening o w = E.close x w' := by
  simp [opening, hc]

theorem opening_of_refused {refusal : Refusal} (hc : E.connect o w = (w', .error refusal)) :
    E.opening o w = w' := by
  simp [opening, hc]

/-- A command that fails leaves the files as opening its connection leaves them. -/
theorem Transactional.files_of_failed (hE : E.Transactional) (hc : E.Undone c)
    (hf : failed (E.execute o w c).2) : (E.execute o w c).1.files = (E.opening o w).files := by
  cases hblank : c.isBlank with
  | true => simp [execute_of_blank hblank, failed, Response.isSuccess] at hf
  | false =>
    rcases hconnect : E.connect o w with ⟨w', refusal | x⟩
    · rw [(execute_of_refused hblank hconnect).1, opening_of_refused hconnect]
    rw [opening_of_connect hconnect]
    rw [execute_of_connect hblank hconnect] at hf ⊢
    cases hattempt : E.attempt o c (x, w') with
    | ok r p => simp [hattempt, failed, isSuccess_of_attempt hattempt] at hf
    | error message p => exact hE.left_of_error hc (hE.fresh hconnect) hattempt

/-- So does a command that only reads. -/
theorem Transactional.files_of_reads (hE : E.Transactional) (hk : c.kind = .read) (hc : E.Reads c)
    (hblank : c.isBlank = false) : (E.execute o w c).1.files = (E.opening o w).files := by
  rcases hconnect : E.connect o w with ⟨w', refusal | x⟩
  · rw [(execute_of_refused hblank hconnect).1, opening_of_refused hconnect]
  have hfresh := hE.fresh hconnect
  rw [opening_of_connect hconnect, execute_of_connect hblank hconnect]
  have hrun {statement : E.Statement} {p₂ p₃ : E.Session × E.World}
      (hprepared : E.Prepares o c (x, w') statement p₂)
      (hafter : after (E.run o statement p₂) = p₃) : E.left p₃ = E.left (x, w') := by
    obtain ⟨hauto, hleft⟩ := hE.prepares hfresh hprepared
    rw [← hafter, hc o _ statement p₂ hprepared hauto, hleft]
  have hattempted := E.attempted o c (x, w')
  generalize E.attempt o c (x, w') = r at hattempted
  cases hattempted with
  | refused _ _ hrefused => exact hE.left_of_refused hfresh hrefused
  | empty _ hfirst => exact (hE.preparing_of_ok hfresh hfirst).2
  | interrupted _ _ _ _ hprepared hended => exact hrun hprepared (by rw [hended]; rfl)
  | read _ _ _ _ _ hprepared hended => exact hrun hprepared (by rw [hended]; rfl)
  | settled _ _ _ _ hwrite | uncommitted _ _ _ _ _ _ hwrite | committed _ _ _ _ _ hwrite =>
    rw [hk] at hwrite
    cases hwrite

theorem Confined.process_opening (hE : E.Confined) : (E.opening o w).process = w.process := by
  have hconnecting := hE.connecting o w
  rcases hconnect : E.connect o w with ⟨w', refusal | x⟩
  · rw [opening_of_refused hconnect, ← hconnecting, hconnect]
  · rw [opening_of_connect hconnect, hE.closing, ← hconnecting, hconnect]

/-- A command leaves what the process shares as it was, unless preparing it acts on that. -/
theorem Confined.process_execute (hE : E.Confined) (hc : E.Passive c) :
    (E.execute o w c).1.process = w.process := by
  cases hblank : c.isBlank with
  | true => rw [execute_of_blank hblank]
  | false =>
    have hconnecting := hE.connecting o w
    rcases hconnect : E.connect o w with ⟨w', refusal | x⟩
    · rw [(execute_of_refused hblank hconnect).1, ← hconnecting, hconnect]
    · have hattempt := hE.process_attempt hc o (x, w')
      rw [execute_of_connect hblank hconnect, ← hconnecting, hconnect]
      generalize E.attempt o c (x, w') = r at hattempt
      cases r <;> exact (hE.closing _ _).trans hattempt

end Engine
end QueryServer
