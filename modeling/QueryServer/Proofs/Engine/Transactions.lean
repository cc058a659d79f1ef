import QueryServer.Proofs.Engine.Machine
import QueryServer.Proofs.Engine.Sequence
import QueryServer.Proofs.Executor.Results
import QueryServer.Proofs.Sql.Transaction
/-!
Transactions of a store on a machine: what BEGIN, COMMIT, END and ROLLBACK do as commands of their
own, and what a write that succeeds has committed.
-/

namespace QueryServer

/-- BEGIN in one of its forms. -/
def Command.opensTransaction (c : Command) : Prop :=
  ∃ mode, Sql.Begins (Sql.Lexeme.scan c.text.toList) mode

/-- A text that begins with COMMIT, END or ROLLBACK. -/
def Command.endsTransaction (c : Command) : Bool :=
  Sql.endsTransaction (Sql.Lexeme.scan c.text.toList)

namespace Store
open Executor

variable {s : Store} {d d' : Disk} {h : Handle} {c : Command} {m : Machine} {t : Trouble}

/-- A store in a file that holds tables, to which nobody else has the right to write. -/
def Usable (s : Store) (d : Disk) : Prop :=
  ∃ h p db logged, s.connect d = (d, .done h) ∧ h.place = .path p ∧
    d.file? p = some ⟨.tables db logged, false⟩

/-- Whatever fails in a command, its connection commits tables or nothing. -/
theorem disk_executeUnder (hc : s.connect d = (d, .done h)) (t : Trouble) (c : Command) :
    (executeUnder t s d c).1 = d ∨ ∃ schema, (executeUnder t s d c).1 = h.commit d schema := by
  have hconnect : (connectUnder t s d).1 = d ∧
      ∀ d₁ h₁, connectUnder t s d = (d₁, .done h₁) → d₁ = d ∧ h₁ = h := by
    unfold connectUnder
    split
    · exact ⟨rfl, nofun⟩
    · rw [hc]
      refine ⟨rfl, fun d₁ h₁ hsame => ?_⟩
      cases hsame
      exact ⟨rfl, rfl⟩
  cases hblank : c.isBlank with
  | true =>
    left
    simp [executeUnder, hblank]
  | false =>
    have hexecuted := executed hblank t s d
    change (executionUnder t s d c).1 = d ∨ ∃ schema, (executionUnder t s d c).1 = h.commit d schema
    generalize executionUnder t s d c = x at hexecuted
    cases hexecuted with
    | refused message => exact .inl hconnect.1
    | empty d₁ h₁ hopened hp => exact .inl (hconnect.2 d₁ h₁ hopened).1
    | ran d₁ h₁ p hopened hp =>
      obtain ⟨rfl, rfl⟩ := hconnect.2 d₁ h₁ hopened
      unfold runOnce
      dsimp only
      split
      · exact .inr ⟨_, rfl⟩
      · split
        · exact .inl rfl
        · exact .inr ⟨_, rfl⟩

theorem usable_executeUnder (hu : s.Usable d) (t : Trouble) (c : Command) :
    s.Usable (executeUnder t s d c).1 := by
  obtain ⟨h, p, db, logged, hc, hp, hf⟩ := id hu
  rcases disk_executeUnder hc t c with hsame | ⟨schema, hcommit⟩
  · rwa [hsame]
  · rw [hcommit, Handle.commit_of_file? hp hf]
    have hconnect := connect_put hc hp ((File.mk (.tables db logged) false).keeping schema)
    cases schema with
    | ok db' => exact ⟨h, p, db', logged, hconnect, hp, Disk.file?_put hf _⟩
    | error e => exact ⟨h, p, db, logged, hconnect, hp, Disk.file?_put hf _⟩

theorem limitsMemory_of_opens (hc : c.opensTransaction) : c.limitsMemory = false := by
  obtain ⟨mode, hbegins⟩ := hc
  obtain ⟨lexemes, after, hparsed, hafter, -⟩ := hbegins.parsed
  have hrest : Sql.starts false after = [] :=
    Sql.starts_of_skipEmpty_nil (Sql.skipEmpty_semicolons hafter)
  rw [Command.limitsMemory, Sql.limitsMemory, (Sql.Parsed.starts_of_next? hparsed).1, hrest,
    List.any_cons, Sql.Parsed.next?_skipEmpty, hparsed]
  rfl

theorem prepares_begin {mode : Sql.TransactionMode} (hm : m.process.exhausted = false)
    (hlimit : c.limitsMemory = false) (hc : Sql.Begins (Sql.Lexeme.scan c.text.toList) mode)
    (x : Session) : s.engine.Prepares calm c (x, m) ⟨.begin mode, 0⟩ (x, m) := by
  obtain ⟨after, hnext⟩ := hc.next?
  obtain ⟨hfirst, hsecond⟩ := hnext (x.handle.schema m.files)
  refine ⟨⟨true, after⟩, (x, m), ?_, ?_⟩
  · have hpreparing : s.engine.next? calm (s.engine.script c.text) (x, m) = _ :=
      next?_of_unlimited ⟨false, Sql.Lexeme.scan c.text.toList⟩ hm hlimit
    rw [hpreparing, hfirst]
    rfl
  · have hfollowing : s.engine.next? calm ⟨true, after⟩ (x, m) = _ :=
      next?_of_unlimited ⟨true, after⟩ hm (Sql.limitsMemory_of_next? hfirst hlimit)
    rw [hfollowing, hsecond]
    rfl

/-- Every form of BEGIN opens a transaction on a store that can be used. -/
theorem opens_engine (hm : m.process.exhausted = false) (hu : s.Usable m.files)
    (hc : c.opensTransaction) : s.engine.Opens calm m c := by
  have hlimit := limitsMemory_of_opens hc
  obtain ⟨h, p, db, logged, hconnect, hp, hf⟩ := hu
  obtain ⟨mode, hbegins⟩ := hc
  obtain ⟨first, rest, hscan, hfirst⟩ := hbegins.first
  have hconnectOn : s.engine.connect calm m = (m, .ok ⟨h, none⟩) := by
    change s.connectOn calm m = _
    simp only [connectOn, hm, Bool.false_eq_true, if_false, calm_apply, hconnect]
  have hopens : Sql.Prepared.run ⟨.begin mode, 0⟩ (h.rights m.files) (h.schema m.files) =
      ⟨h.schema m.files, some (h.schema m.files), .ok []⟩ := by
    rw [Handle.rights_of_file? hp hf, Handle.schema_of_file? hp hf]
    cases mode <;> cases h.readOnly <;> rfl
  have hran := Session.ran_calm h m.files ⟨.begin mode, 0⟩
  have hresult := Session.result_run_calm ⟨h, none⟩ m.files ⟨.begin mode, 0⟩
  have hrun : s.engine.run calm ⟨.begin mode, 0⟩ (⟨h, none⟩, m) =
    Machine.ofStep m ((Session.mk h none).run calm m.files ⟨.begin mode, 0⟩) := rfl
  generalize (Session.mk h none).run calm m.files ⟨.begin mode, 0⟩ = w at hran hresult hrun
  cases hran with
  | failed d' f hkept => simp [hopens] at hresult
  | ended schema rows heffect => simp [hopens] at heffect
  | opened d' writing heffect hrelease =>
    refine ⟨(Command.write_of_first hscan hfirst).2, passive_of_limitsMemory hlimit,
      ⟨h, none⟩, _, _, [], _, (⟨h, none⟩, m), hconnectOn, prepares_begin hm hlimit hbegins _, hrun,
      rfl, ?_, ?_⟩
    · have hcommit : Session.commit calm ⟨h, some ⟨h.schema m.files, writing⟩⟩ d' =
          ⟨m.files, ⟨h, none⟩, .ok ()⟩ := by
        simp [Session.commit, hrelease]
      exact congrArg (Machine.ofStep { m with files := d' }) hcommit
    · exact hrelease.symm

/-- COMMIT, END and ROLLBACK can only fail. -/
theorem refuses_engine (hc : c.endsTransaction) : s.engine.Refuses c := by
  obtain ⟨l, rest, k, hskip, hk, hl, htransactional⟩ := Sql.word_of_endsTransaction hc
  obtain ⟨first, others, hscan, hfirst⟩ := Sql.first_of_skipEmpty hskip htransactional
  refine ⟨(Command.write_of_first hscan hfirst).1, fun t y y' hnone => ?_,
    fun t y p y₂ hprepared hauto => ?_⟩
  · have hempty := Sql.skipEmpty_of_next? (Script.none_of_next? hnone)
    cases hskip.symm.trans hempty
  · obtain ⟨x, m⟩ := y₂
    obtain ⟨q, f, hp, hplan⟩ := Sql.refused_of_only? hc (only?_of_prepares hprepared)
    obtain rfl : p = q := Option.some.inj hp
    obtain ⟨f', hrefused⟩ : ∃ f', p.run (x.handle.rights m.files) (x.handle.schema m.files) =
        .keep (x.handle.schema m.files) (.error f') := by
      unfold Sql.Prepared.run
      rw [hplan]
      split <;> exact ⟨_, rfl⟩
    exact ⟨f'.message, (x, m), run_of_keep hrefused t, rfl⟩

/-- BEGINs that are inserted where nothing fails find a store that can be used. -/
theorem inserts_engine {ls : List s.engine.Line} (hm : m.process.exhausted = false)
    (hu : s.Usable m.files) (hlimit : ∀ l ∈ ls, l.command.limitsMemory = false)
    (hls : ∀ l ∈ ls, l.inserted → l.outside = calm ∧ l.command.opensTransaction) :
    s.engine.Inserts m ls := by
  induction ls generalizing m with
  | nil => trivial
  | cons l ls ih =>
    have hexecute : (s.engine.execution l.outside m l.command).1 =
        { m with files := (executeUnder l.outside s m.files l.command).1 } :=
      congrArg Prod.fst (execute_engine hm (hlimit l List.mem_cons_self))
    refine ⟨fun hi => ?_, ?_⟩
    · obtain ⟨hcalm, hopens⟩ := hls l List.mem_cons_self hi
      rw [hcalm]
      exact opens_engine hm hu hopens
    · rw [hexecute]
      exact ih (m := { m with files := (executeUnder l.outside s m.files l.command).1 }) hm
        (usable_executeUnder hu _ _) (fun x hx => hlimit x (List.mem_cons_of_mem l hx))
        (fun x hx => hls x (List.mem_cons_of_mem l hx))

end Store
end QueryServer
