import QueryServer.Proofs.Engine.Machine
/-!
Failed commands. Main statement: whichever step of a command fails, it leaves what opening its
connection leaves, with nobody's right to write changed. That is what there was before, unless the
name of the store asks for a file that is not there, or the text limits the memory of the process.
-/

namespace QueryServer

namespace Engine
open Executor

variable {E : Engine} {o : E.Outside} {w : E.World} {c : Command} {s : Store} {t : Trouble}
  {m : Machine}

theorem Transactional.world_of_failed (hE : E.Transactional) (hconfined : E.Confined)
    (hundone : E.Undone c) (hpassive : E.Passive c) (hf : failed (E.execute o w c).2) :
    (E.execute o w c).1 = E.opening o w :=
  World.ext (hE.files_of_failed hundone hf)
    ((hconfined.process_execute hpassive).trans hconfined.process_opening.symm)

/-- A command that fails has no effect beyond the opening of its connection, whichever step fails,
where transactions are what they should be and its statement is undone as a whole. A store on a
machine is such a library. There a failed command leaves the files with all rights on them as they
were, but for the store's own file where a connection makes it; and it leaves the process as it
was, and so everything for the commands that follow, unless its text limits memory. -/
theorem failure_without_effect (c : Command) :
    (∀ (E : Engine) (o : E.Outside) (w : E.World), E.Transactional → E.Undone c →
      failed (E.execute o w c).2 →
        (E.execute o w c).1.files = (E.opening o w).files ∧
          (E.Confined → E.Passive c → (E.execute o w c).1 = E.opening o w)) ∧
    ∀ (s : Store) (t : Trouble) (m : Machine), c.saysOrFail = false →
      failed (s.engine.execute t m c).2 →
        ((∀ p, ¬ s.MakesOn t m p) ∧ (s.engine.execute t m c).1.files = m.files ∨
          ∃ p, s.MakesOn t m p ∧
            (s.engine.execute t m c).1.files = m.files.put p File.empty) ∧
        (c.limitsMemory = false → (s.engine.execute t m c).1.process = m.process) ∧
        (c.limitsMemory = false → (∀ p, ¬ s.MakesOn t m p) →
          ∀ t' next, s.engine.execute t' (s.engine.execute t m c).1 next =
            s.engine.execute t' m next) := by
  constructor
  · intro E o w hE hundone hf
    exact ⟨hE.files_of_failed hundone hf,
      fun hconfined hpassive => hE.world_of_failed hconfined hundone hpassive hf⟩
  · intro s t m hc hf
    have hE := Store.transactional_engine s
    have hconfined := Store.confined_engine s
    have hundone := Store.undone_of_saysOrFail (s := s) hc
    have hfiles := hE.files_of_failed hundone hf
    refine ⟨?_, fun hlimit => ?_, fun hlimit hnone t' next => ?_⟩
    · rcases s.opening_cases t m with ⟨hnone, hsame⟩ | ⟨p, hp, hmade⟩
      · exact .inl ⟨hnone, hfiles.trans (congrArg World.files hsame)⟩
      · exact .inr ⟨p, hp, hfiles.trans (congrArg World.files hmade)⟩
    · exact hconfined.process_execute (Store.passive_of_limitsMemory hlimit)
    · rcases s.opening_cases t m with ⟨-, hsame⟩ | ⟨p, hp, -⟩
      · rw [hE.world_of_failed hconfined hundone (Store.passive_of_limitsMemory hlimit) hf, hsame]
      · exact absurd hp (hnone p)

/-- The final commit of a transaction fails that holds the right to write. -/
theorem failure_without_effect_commit :
    let t : Trouble := fun p => match p with
      | .committing => some .full
      | _ => none
    let s : Store := ⟨"a.db", 0⟩
    let m : Machine := ⟨⟨[(["a.db"], .file File.empty)]⟩, {}⟩
    let c : Command := ⟨"BEGIN IMMEDIATE"⟩
    failed (s.engine.execute t m c).2 ∧
      (s.engine.execute t m c).1.files = (s.engine.opening t m).files ∧
      (s.engine.execute t m c).1.process = m.process ∧
      s.engine.execute calm (s.engine.execute t m c).1 ⟨"SELECT 1"⟩ =
        s.engine.execute calm m ⟨"SELECT 1"⟩ := by
  intro t s m c
  have hc : c.saysOrFail = false := by decide +kernel
  have hlimit : c.limitsMemory = false := by decide +kernel
  have hf : failed (s.engine.execute t m c).2 := by decide +kernel
  have hnone : ∀ p, ¬ s.MakesOn t m p := by
    rintro p ⟨-, -, ⟨i, hl⟩, -⟩
    have hname : Location.ofName "a.db" .write = .ok ⟨.path ["a.db"], .write, false⟩ := rfl
    cases hname.symm.trans hl
  obtain ⟨hgeneral, hmachine⟩ := failure_without_effect c
  obtain ⟨-, hprocess, hnext⟩ := hmachine s t m hc hf
  exact ⟨hf, (hgeneral s.engine t m (Store.transactional_engine s)
    (Store.undone_of_saysOrFail hc) hf).1, hprocess hlimit, hnext hlimit hnone calm _⟩

/-- Failed commands with an effect. The first one has made the file of a store that was missing,
although it could do nothing with it; the second one has left no memory for the next command. -/
theorem failure_with_effect :
    (let s : Store := ⟨"file:x.db?mode=memory&mode=rwc", 0⟩
      let m : Machine := ⟨{}, {}⟩
      let after := s.engine.execute calm m ⟨"SELECT * FROM nope"⟩
      after.2 = .ok (.failure "no such table: nope") ∧ (m.files.file? ["x.db"]).isNone ∧
        (after.1.files.file? ["x.db"]).isSome) ∧
    (let s : Store := ⟨"a.db", 0⟩
      let m : Machine := ⟨⟨[(["a.db"], .file File.empty)]⟩, {}⟩
      let after := s.engine.execute calm m ⟨"PRAGMA hard_heap_limit=1; x"⟩
      after.2 = .ok (.failure "near \"x\": syntax error") ∧
        (s.engine.execute calm m ⟨"SELECT 1"⟩).2 = .ok (.rows [[.integer 1]]) ∧
        (s.engine.execute calm after.1 ⟨"SELECT 1"⟩).2 = .ok (.failure "a.db")) := by
  decide +kernel

end Engine
end QueryServer
