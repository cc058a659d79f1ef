import QueryServer.Proofs.Engine.Machine
import QueryServer.Proofs.Executor.Holding
import QueryServer.Proofs.Sql.Soundness
import QueryServer.Proofs.Store.Bootstrap
/-!
Stores after any commands. A store that was prepared keeps its tables sound whatever is executed on
it, whatever fails, and whoever takes the right to write in between.
-/

namespace QueryServer
open Sql Relations

/-- The tables in all files are sound. -/
def Disk.Sound (d : Disk) : Prop :=
  ∀ p f, d.file? p = some f → Schema.Sound f.content.schema

namespace Disk

variable {d : Disk} {p q : Path} {f g : File}

theorem sound_empty : Disk.Sound {} := by
  intro p f hf
  have hlookup := (lookup_of_file? hf).2
  cases hlookup

/-- Only what is put at a path is found there. -/
theorem file?_put_cases (h : (d.put p f).file? q = some g) : g = f ∨ d.file? q = some g := by
  by_cases hq : q = p
  · subst hq
    have hlookup := (lookup_of_file? h).2
    rw [put, lookup_replace] at hlookup
    cases hlookup
    exact .inl rfl
  · refine .inr ?_
    rwa [file?, entry?_put_ne hq] at h

theorem sound_put (hd : d.Sound) (hf : Schema.Sound f.content.schema) (p : Path) :
    (d.put p f).Sound := by
  intro q g hg
  rcases file?_put_cases hg with rfl | hg
  · exact hf
  · exact hd q g hg

theorem sound_lock (hd : d.Sound) (p : Path) (locked : Bool) : (d.lock p locked).Sound := by
  unfold lock
  split
  · rename_i f hf
    exact sound_put (f := { f with locked }) hd (hd p f hf) p
  · split
    · exact sound_put (f := { File.empty with locked }) hd Schema.sound_empty p
    · exact hd

end Disk

theorem Prepared.sound_run {schema : Schema} {text : String} {p : Prepared}
    (hp : Prepared.only? schema text = .ok (some p)) (hs : Schema.Sound schema) (r : Rights) :
    (p.run r schema).Sound := by
  obtain ⟨rest, hnext⟩ := Prepared.first_of_only? hp
  obtain ⟨q, -, hplan⟩ := Prepared.plan_of_next? hnext
  unfold Prepared.run
  split
  · exact Statement.sound_run hplan hs r
  · exact Effect.sound_keep hs _

namespace Store
open Executor

variable {s : Store} {d d' : Disk} {h : Handle} {p : Path} {rows : List Record} {t : Trouble}
  {m m' : Machine} {c : Command} {x : Session}

namespace Handle

theorem sound_schema (hd : d.Sound) (h : Handle) : Schema.Sound (h.schema d) := by
  cases hp : h.place with
  | memory => simpa [schema, file?, hp] using Schema.sound_empty
  | path p =>
    cases hf : d.file? p with
    | none => simpa [schema, file?, hp, hf] using Schema.sound_empty
    | some f =>
      rw [schema_of_file? hp hf]
      exact hd p f hf

theorem sound_commit (hd : d.Sound) {schema : Schema} (hs : Schema.Sound schema) :
    (h.commit d schema).Sound := by
  cases hp : h.place with
  | memory => simpa [commit, hp] using hd
  | path p =>
    cases hf : d.file? p with
    | none => rwa [commit_of_missing hp hf]
    | some f =>
      rw [commit_of_file? hp hf]
      refine Disk.sound_put hd ?_ p
      unfold File.keeping
      split
      · exact Schema.sound_ok (hs _ rfl)
      · exact hd p f hf

theorem sound_hold (hd : d.Sound) (held : Bool) : (h.hold d held).Sound := by
  cases hp : h.place with
  | memory => simpa [hold, hp] using hd
  | path p =>
    cases hf : d.file? p with
    | none => simpa [hold, file?_of_place hp, hp, hf] using hd
    | some f =>
      simp only [hold, file?_of_place hp, hp, hf]
      exact Disk.sound_put (f := { f with locked := held }) hd (hd p f hf) p

end Handle

/-- What is kept true of a connection in use: the files are sound, and so is what it would
commit. -/
structure SoundSession (x : Session) (d : Disk) : Prop where
  files : d.Sound
  pending : ∀ transaction, x.transaction = some transaction → Schema.Sound transaction.pending

namespace SoundSession

theorem release (hx : SoundSession x d) : (x.release d).Sound := by
  unfold Session.release
  split
  · exact Handle.sound_hold hx.files false
  · exact hx.files

theorem run {p : Prepared} (hx : SoundSession x d)
    (hp : (p.run (x.handle.rights d) (x.handle.schema d)).Sound) (t : Trouble) :
    SoundSession (x.run t d p).session (x.run t d p).disk := by
  unfold Session.run
  dsimp only
  split
  · exact ⟨Handle.sound_commit hx.files hp.committed, hx.pending⟩
  · split
    · exact hx
    · have hcommitted := Handle.sound_commit (h := x.handle) hx.files hp.committed
      split
      · exact ⟨hcommitted, hx.pending⟩
      · rename_i pending hpending
        refine ⟨?_, fun transaction htransaction => ?_⟩
        · dsimp only
          split
          · exact Handle.sound_hold hcommitted true
          · exact hcommitted
        · cases htransaction
          exact hp.pending pending hpending

theorem commit (hx : SoundSession x d) (t : Trouble) :
    SoundSession (x.commit t d).session (x.commit t d).disk := by
  unfold Session.commit
  split
  · exact hx
  · rename_i transaction htransaction
    split
    · exact hx
    · exact ⟨Handle.sound_commit hx.release (hx.pending transaction htransaction), nofun⟩

end SoundSession

theorem session_ofStep {α : Type} (m : Machine) (w : Step α) :
    (Engine.after (Machine.ofStep m w)).1 = w.session := by
  unfold Machine.ofStep
  split <;> rfl

theorem sound_connect (hd : d.Sound) : (s.connect d).1.Sound := by
  rcases disk_connect s d with ⟨hsame, -⟩ | ⟨p, -, hmade⟩
  · rwa [hsame]
  · rw [hmade]
    exact Disk.sound_put (f := File.empty) hd Schema.sound_empty p

theorem sound_connectOn (hm : m.files.Sound) : (s.engine.connect t m).1.files.Sound := by
  change (s.connectOn t m).1.files.Sound
  have hconnect := sound_connect (s := s) hm
  unfold connectOn
  split
  · exact hm
  · split
    · exact hm
    · split <;> rename_i hc <;> rwa [hc] at hconnect

/-- Whatever a command is and whatever fails, it leaves sound tables. -/
theorem sound_execute (hm : m.files.Sound) (t : Trouble) (c : Command) :
    (s.engine.execute t m c).1.files.Sound := by
  cases hblank : c.isBlank with
  | true => rwa [Engine.execute_of_blank hblank]
  | false =>
    have hconnected := sound_connectOn (s := s) (t := t) hm
    rcases hconnect : s.engine.connect t m with ⟨m', refusal | x⟩
    · rw [hconnect] at hconnected
      rwa [(Engine.execute_of_refused hblank hconnect).1]
    rw [hconnect] at hconnected
    obtain ⟨hmemory, -, hfresh, -, hprocess⟩ := connectOn_of_ok hconnect
    have hunlimited : m'.process.exhausted = false := by rwa [hprocess]
    have hattempt := Engine.attempt_preserves (o := t) (c := c) (p := (x, m'))
      (I := fun y : Session × Machine => SoundSession y.1 y.2.files)
      (fun script _ y hy => by
        obtain ⟨bytes?, hafter, -⟩ := next?_engine s t script y
        rw [hafter]
        exact hy)
      (fun statement y hprepared hy => by
        rw [files_ofStep, session_ofStep]
        obtain ⟨hsession, hfiles⟩ := seen_of_prepares hprepared
        have honly := only?_of_prepares hprepared
        rw [Machine.schema_of_unlimited hunlimited, ← hsession, ← hfiles] at honly
        exact hy.run (Prepared.sound_run honly (Handle.sound_schema hy.files _) _) t)
      (fun y hy => by
        rw [files_ofStep, session_ofStep]
        exact hy.commit t)
      ⟨hconnected, fun transaction h => by cases hfresh.symm.trans h⟩
    rw [Engine.execute_of_connect hblank hconnect]
    cases hr : s.engine.attempt t c (x, m') with
    | ok r y | error message y =>
      rw [hr] at hattempt
      exact hattempt.release

theorem sound_prepare (hd : d.Sound) (hdone : h.prepare d = (d', .done ())) : d'.Sound := by
  cases hp : h.place with
  | memory =>
    simp only [Handle.prepare, hp] at hdone
    cases (Prod.mk.inj hdone).1
    exact hd
  | path p =>
    cases hf : d.file? p with
    | none =>
      simp only [Handle.prepare, hp, Handle.file?_of_place hp, hf] at hdone
      cases (Prod.mk.inj hdone).1
      exact hd
    | some f =>
      obtain ⟨db, before, after, hcontent, -, rfl⟩ := file_of_prepare hp hf hdone
      have hdb : db.Sound := hd p f hf db (by rw [hcontent]; rfl)
      exact Disk.sound_put (f := ⟨.tables (ensureAll db) after, f.locked⟩) hd
        (Schema.sound_ok (Database.sound_ensureAll hdb)) p

theorem sound_bootstrap (hd : d.Sound) (hdone : s.bootstrap d = (d', .done ())) : d'.Sound := by
  obtain ⟨-, d₁, h, ho, hprepare⟩ := opened_of_bootstrap hdone
  refine sound_prepare ?_ hprepare
  cases opened_iff.mp ho with
  | memory | found => exact hd
  | made p i => exact Disk.sound_put (f := File.empty) hd Schema.sound_empty p

/-- What a machine can be after the store on it was prepared: commands have been executed, whatever
failed then, and others have taken the right to write and given it back. What is left out of the
statements here may have changed the tables too, as long as they stayed sound. -/
inductive Reached (s : Store) : Machine → Prop where
  | prepared {m m' : Machine} (hm : m.files.Sound) (hdone : s.bootstrapOn m = (m', .done ())) :
      Reached s m'
  | executed {m : Machine} (hm : Reached s m) (t : Trouble) (c : Command) :
      Reached s (s.engine.execution t m c).1
  | locked {m : Machine} (hm : Reached s m) (b : Bool) :
      Reached s { m with files := s.lock m.files b }
  | otherwise {m m' : Machine} (hm : Reached s m) (hm' : m'.files.Sound) : Reached s m'

theorem Reached.sound (hm : s.Reached m) : m.files.Sound := by
  induction hm with
  | prepared hm hdone => exact sound_bootstrap hm (bootstrapOn_of_done hdone).2.1
  | executed hm t c ih => exact sound_execute ih t c
  | locked hm b ih =>
    change Disk.Sound (lock _ _ _)
    unfold lock
    split
    · exact Disk.sound_lock ih _ b
    · exact ih
  | otherwise hm hm' ih => exact hm'

theorem Reached.timeout (hm : s.Reached m) : s.busyTimeout ≤ longestTimeout := by
  induction hm with
  | prepared hm hdone => exact (opened_of_bootstrap (bootstrapOn_of_done hdone).2.1).1
  | executed hm t c ih | locked hm b ih | otherwise hm hm' ih => exact ih

/-- No command has limited the memory of the process, the name of the store lets connections write
to its file, and nobody else has taken the right to do so. The table of users in it has the columns
that it was made with, no index that takes users of different names for the same, and no deferred
foreign key refers to it by anything but a key. Triggers are left out, as are indexes with
expressions, conditions or collations of their own. -/
structure Admits (s : Store) (m : Machine) (t : Table) : Prop where
  memory : m.process.memory = none
  found : ∃ p a db logged, Location.ofName s.name .write = .ok ⟨.path p, a, false⟩ ∧ a ≠ .read ∧
    m.files.file? p = some ⟨.tables db logged, false⟩ ∧ db.table? users.name = some t ∧
    db.Supports t false
  name : t.name = users.name
  users : t.ForUsers

theorem Admits.unlimited {t : Table} (ht : s.Admits m t) : m.process.exhausted = false := by
  rw [Process.exhausted, ht.memory]
  rfl

/-- Where memory is not limited, commands do on the machine what they do on the disk. -/
theorem execution_engine (hm : m.process.exhausted = false) (hc : c.limitsMemory = false) :
    s.engine.execution calm m c =
      ({ m with files := (s.execution m.files c).1 }, (s.execution m.files c).2) := by
  rw [Engine.execution, execute_engine hm hc, executeUnder_calm]
  rfl

theorem holds_of_admits {t : Table} (hm : s.Reached m) (ht : s.Admits m t) :
    ∃ db, s.Holds m.files db ∧ db.KeepsUsers t ∧ ∀ r ∈ t.rows, isNamed r.values := by
  obtain ⟨p, a, db, logged, hname, ha, hfile, hfound, hsupported⟩ := ht.found
  have hsound := hm.sound p _ hfile db rfl t hfound
  have hconnect := connect_of_file? hname hfile hm.timeout
  have hread : (a == .read) = false := beq_eq_false_iff_ne.mpr ha
  rw [fileHandle, hread] at hconnect
  refine ⟨db, ⟨p, logged, hconnect, hfile⟩,
    ⟨ht.users, hfound, ht.name, hsound.ordered, hsupported⟩, hsound.named ht.users.bare⟩

theorem bootstrapOn_of_bootstrap (hdone : s.bootstrap d = (d', .done ())) :
    s.bootstrapOn ⟨d, {}⟩ = (⟨d', {}⟩, .done ()) := by
  unfold bootstrapOn
  rw [hdone]
  rfl

/-- There are stores with any users, as long as their rows are in order and their names are texts. -/
theorem exists_reached (hs : s.KeptAt p) (hlong : s.busyTimeout ≤ longestTimeout)
    (hnew : Disk.entry? {} p = none) (hordered : Table.Ordered rows)
    (hnamed : ∀ r ∈ rows, isNamed r.values) :
    ∃ m t, s.Reached m ∧ s.Admits m t ∧ t.rows = rows := by
  obtain ⟨t, hu⟩ : ∃ t, (ensureAll {}).HasUsers t := ⟨_, hasUsers_ensureAll⟩
  have hfound : (ensureAll {}).table? t.name = some t := hu.name ▸ hu.found
  have htable : ∀ name, ((ensureAll {}).put { t with rows }).table? name =
      if sameName t.name name then some { t with rows } else (ensureAll {}).table? name :=
    Database.table?_put rfl hfound
  have hfollows : t.Follows { t with rows } := ⟨rfl, rfl, fun _ => ⟨hordered, fun _ => hnamed⟩⟩
  have hsound : Schema.Sound (.ok ((ensureAll {}).put { t with rows })) :=
    Schema.sound_ok (Database.sound_put (Database.sound_ensureAll nofun) hfound hfollows)
  have hcomplete : complete ((ensureAll {}).put { t with rows }) := by
    refine List.all_eq_true.mpr fun u hu => ?_
    rw [htable]
    split
    · rfl
    · exact (completion_ensureAll {}).complete u hu
  have hfile := Disk.file?_put_new hnew
    ⟨.tables ((ensureAll {}).put { t with rows }) true, false⟩
  have hdone := (bootstrap_of_opened (opened_of_file? hs.making hfile)).trans
    ((if_neg (Nat.not_lt.mpr hlong)).trans
      (prepare_of_complete rfl hfile rfl (fun _ => rfl) hcomplete))
  refine ⟨_, { t with rows },
    .prepared (Disk.sound_put Disk.sound_empty ?_ p) (bootstrapOn_of_bootstrap hdone),
    ⟨rfl, ⟨p, _, _, _, hs.opening, by decide, hfile, ?_,
      Database.supports_put hfollows.name hfound hfollows.shape hu.supported⟩, hu.name,
      .of_shape hu.shape⟩,
    rfl⟩
  · exact hsound
  · rw [htable, if_pos]
    rw [hu.name]
    exact sameName_iff.mpr rfl

end Store
end QueryServer
