import QueryServer.Proofs.Engine.Machine
import QueryServer.Proofs.Executor.Holding
import QueryServer.Proofs.Store.Bootstrap
/-!
Stores that are missing. Until it is prepared again, a store that was removed is answered for with
failures, and neither connections nor commands make it, unless its name asks for memory first and
for a file to be made after that.
-/

namespace QueryServer
open Sql

namespace Location

/-- The same place for somebody who also makes the file that somebody else only writes to. -/
structure Covers (made opened : Location) : Prop where
  place : made.place = opened.place
  immutable : made.immutable = opened.immutable
  access : made.access = opened.access ∨ made.access = .create ∧ opened.access = .write

variable {l l' m : Location} {name value : String}

theorem covers_create (p : Place) (i : Bool) : Covers ⟨p, .create, i⟩ ⟨p, .write, i⟩ :=
  ⟨rfl, rfl, .inr ⟨rfl, rfl⟩⟩

theorem Covers.rank_le (h : m.Covers l) : rank l.access ≤ rank m.access := by
  rcases h.access with ha | ⟨hm, hl⟩
  · rw [ha]
  · rw [hm, hl]
    decide

theorem Covers.applyOption (h : m.Covers l) (hl : l.applyOption name value = .ok l') :
    ∃ m', m.applyOption name value = .ok m' ∧ m'.Covers l' := by
  have hrank := h.rank_le
  unfold Location.applyOption at hl ⊢
  dsimp only at hl ⊢
  by_cases hmode : name = "mode"
  · rw [if_pos hmode] at hl ⊢
    split at hl
    -- an access that the lower one allows is allowed by the higher one
    iterate 3
      split at hl
      · rename_i hle
        cases hl
        exact ⟨_, if_pos (Nat.le_trans hle hrank), h.place, h.immutable, .inl rfl⟩
      · cases hl
    · cases hl
      exact ⟨_, rfl, h.place, h.immutable, .inl rfl⟩
    · cases hl
  · rw [if_neg hmode] at hl ⊢
    by_cases hcache : name = "cache"
    · rw [if_pos hcache] at hl ⊢
      split at hl
      · rename_i hvalue
        cases hl
        exact ⟨m, if_pos hvalue, h⟩
      · cases hl
    · rw [if_neg hcache] at hl ⊢
      cases hl
      exact ⟨m, rfl, h⟩

theorem covers_options {os : List (String × String)} (h : m.Covers l)
    (hl : os.foldlM (fun l (name, value) => l.applyOption name value) l = .ok l') :
    ∃ m', os.foldlM (fun l (name, value) => l.applyOption name value) m = .ok m' ∧
      m'.Covers l' := by
  induction os generalizing l m with
  | nil =>
    cases hl
    exact ⟨m, rfl, h⟩
  | cons o os ih =>
    rw [List.foldlM_cons] at hl ⊢
    obtain ⟨l₁, hfirst, hl⟩ := (except_bind_eq_ok _ _ _).mp hl
    obtain ⟨m₁, hmade, h₁⟩ := h.applyOption hfirst
    obtain ⟨m', hrest, h'⟩ := ih h₁ hl
    exact ⟨m', (except_bind_eq_ok _ _ _).mpr ⟨m₁, hmade, hrest⟩, h'⟩

theorem Covers.placed (h : m.Covers l) : m.placed.Covers l.placed := by
  unfold Location.placed
  rcases h.access with ha | ⟨hm, hl⟩
  · by_cases hmemory : l.access = .memory
    · rw [if_pos hmemory, if_pos (ha.trans hmemory)]
      exact ⟨rfl, h.immutable, .inl ha⟩
    · rw [if_neg hmemory, if_neg fun hm => hmemory (ha.symm.trans hm)]
      exact h
  · rw [hm, hl]
    exact h

theorem Covers.checkSystem {os : List (String × String)} (h : m.Covers l)
    (hl : l.checkSystem os = .ok l') : ∃ m', m.checkSystem os = .ok m' ∧ m'.Covers l' := by
  unfold Location.checkSystem at hl ⊢
  split at hl
  · cases hl
    exact ⟨m, rfl, h⟩
  · split at hl
    · rename_i hname
      cases hl
      exact ⟨_, if_pos hname, rfl, h.immutable, h.access⟩
    · rename_i hname
      rw [if_neg hname]
      split at hl
      · rename_i hsystem
        cases hl
        exact ⟨m, if_pos hsystem, h⟩
      · cases hl

theorem covers_ofAddress {rest : List Char} (hl : ofAddress rest .write = .ok l) :
    ∃ m, ofAddress rest .create = .ok m ∧ m.Covers l := by
  unfold ofAddress at hl ⊢
  obtain ⟨⟨file, os⟩, hparts, hl⟩ := (except_bind_eq_ok _ _ _).mp hl
  obtain ⟨l₁, hoptions, hsystem⟩ := (except_bind_eq_ok _ _ _).mp hl
  obtain ⟨m₁, hmade, h₁⟩ := covers_options (covers_create _ _) hoptions
  obtain ⟨m, hm, h⟩ := h₁.placed.checkSystem hsystem
  refine ⟨m, (except_bind_eq_ok _ _ _).mpr ⟨_, hparts, ?_⟩, h⟩
  exact (except_bind_eq_ok _ _ _).mpr ⟨m₁, hmade, hm⟩

theorem covers_ofText {cs : List Char} (hl : ofText .write cs = .ok l) :
    ∃ m, ofText .create cs = .ok m ∧ m.Covers l := by
  unfold ofText at hl
  split at hl
  · exact covers_ofAddress hl
  · rename_i hplain
    cases hl
    refine ⟨⟨placeOf cs, .create, false⟩, ?_, covers_create _ _⟩
    unfold ofText
    split
    · exact absurd rfl (hplain _)
    · rfl

/-- A name that can be written to can be made, at the same place. -/
theorem covers_ofName {name : String} (hl : ofName name .write = .ok l) :
    ∃ m, ofName name .create = .ok m ∧ m.Covers l := by
  unfold ofName at hl ⊢
  dsimp only at hl ⊢
  split at hl
  · cases hl
  · rename_i hwhole
    rw [if_neg hwhole]
    exact covers_ofText hl

end Location

namespace Store
open Executor

/-- What the process does with its store, and what others do to the files around it. -/
inductive Use where
  | connect (t : Trouble)
  | execute (t : Trouble) (c : Command)
  | bootstrap
  | remove (p : Path)

namespace Use

/-- What a use leaves. -/
def run (s : Store) (m : Machine) : Use → Machine
  | connect t => s.engine.opening t m
  | execute t c => (s.engine.execute t m c).1
  | bootstrap => (s.bootstrapOn m).1
  | remove p => { m with files := m.files.remove p }

/-- What can fail in a use that opens a connection of commands. -/
def trouble? : Use → Option Trouble
  | connect t => some t
  | execute t c => if c.isBlank then none else some t
  | bootstrap | remove _ => none

/-- A use that is no preparation makes the file at this path. -/
def Makes (s : Store) (m : Machine) (u : Use) (p : Path) : Prop :=
  ∃ t, u.trouble? = some t ∧ s.MakesOn t m p

end Use

def after (s : Store) (m : Machine) (us : List Use) : Machine :=
  us.foldl (Use.run s) m

/-- The store is one that is kept in a file, if it can be kept anywhere, and that file is not
there. -/
def Missing (s : Store) (d : Disk) : Prop :=
  ∀ l, Location.ofName s.name .create = .ok l → ∃ p, l.place = .path p ∧ d.file? p = none

/-- No preparation succeeds in making the store: its time to wait is longer than a connection can
be given, or its name says that the file is never changed. -/
def Unmade (s : Store) : Prop :=
  longestTimeout < s.busyTimeout ∨
    ∃ p a, Location.ofName s.name .create = .ok ⟨.path p, a, true⟩

variable {s : Store} {d d' d₁ : Disk} {h : Handle} {p q : Path} {us : List Use} {u : Use}
  {l : Location} {t : Trouble} {m m' : Machine} {c : Command} {x : Session}

theorem isSome_hold (h : Handle) (d : Disk) (held : Bool) (q : Path) :
    ((h.hold d held).file? q).isSome = (d.file? q).isSome := by
  cases hp : h.place with
  | memory => simp [Handle.hold, hp]
  | path p =>
    cases hf : d.file? p with
    | none => simp [Handle.hold, Handle.file?_of_place hp, hp, hf]
    | some f => simp [Handle.hold, Handle.file?_of_place hp, hp, hf, Disk.isSome_put hf]

theorem isSome_commit (h : Handle) (d : Disk) (schema : Sql.Schema) (q : Path) :
    ((h.commit d schema).file? q).isSome = (d.file? q).isSome := by
  cases hp : h.place with
  | memory => simp [Handle.commit, hp]
  | path p =>
    cases hf : d.file? p with
    | none => rw [Handle.commit_of_missing hp hf]
    | some f =>
      rw [Handle.commit_of_file? hp hf]
      exact Disk.isSome_put hf _ q

theorem isSome_release (x : Session) (d : Disk) (q : Path) :
    ((x.release d).file? q).isSome = (d.file? q).isSome := by
  unfold Session.release
  split
  · exact isSome_hold _ _ _ q
  · rfl

theorem isSome_run (t : Trouble) (x : Session) (d : Disk) (p : Sql.Prepared) (q : Path) :
    ((x.run t d p).disk.file? q).isSome = (d.file? q).isSome := by
  unfold Session.run
  dsimp only
  split
  · exact isSome_commit _ _ _ q
  · split
    · rfl
    · split
      · exact isSome_commit _ _ _ q
      · dsimp only
        split
        · rw [isSome_hold, isSome_commit]
        · exact isSome_commit _ _ _ q

theorem isSome_commitOpen (t : Trouble) (x : Session) (d : Disk) (q : Path) :
    ((x.commit t d).disk.file? q).isSome = (d.file? q).isSome := by
  unfold Session.commit
  split
  · rfl
  · split
    · rfl
    · rw [isSome_commit, isSome_release]

/-- A connection neither makes nor removes a file once it is opened. -/
theorem isSome_execute (hblank : c.isBlank = false) (q : Path) :
    ((s.engine.execute t m c).1.files.file? q).isSome =
      ((s.engine.opening t m).files.file? q).isSome := by
  rcases hconnect : s.engine.connect t m with ⟨m', refusal | x⟩
  · rw [(Engine.execute_of_refused hblank hconnect).1, Engine.opening_of_refused hconnect]
  have hattempt := Engine.attempt_preserves (o := t) (c := c) (p := (x, m'))
    (I := fun y : Session × Machine => (y.2.files.file? q).isSome = (m'.files.file? q).isSome)
    (fun script _ y hy => by
      obtain ⟨bytes?, hafter, -⟩ := next?_engine s t script y
      rw [hafter]
      exact hy)
    (fun statement y _ hy => by
      rw [files_ofStep, isSome_run]
      exact hy)
    (fun y hy => by
      rw [files_ofStep, isSome_commitOpen]
      exact hy)
    rfl
  have hclose : ∀ y : Session × Machine,
      ((s.engine.close y.1 y.2).files.file? q).isSome = (y.2.files.file? q).isSome :=
    fun y => isSome_release y.1 y.2.files q
  rw [Engine.execute_of_connect hblank hconnect, Engine.opening_of_connect hconnect]
  cases hr : s.engine.attempt t c (x, m') with
  | ok r y | error message y =>
    rw [hr] at hattempt
    exact ((hclose y).trans hattempt).trans (hclose (x, m')).symm

theorem makes_unique (hp : s.Makes d p) (hq : s.Makes d q) : p = q := by
  obtain ⟨⟨i, hp⟩, -⟩ := hp
  obtain ⟨⟨j, hq⟩, -⟩ := hq
  rw [hp] at hq
  cases hq
  rfl

theorem made_opening_iff (hq : m.files.file? q = none) :
    ((s.engine.opening t m).files.file? q).isSome ↔ s.MakesOn t m q := by
  rcases s.opening_cases t m with ⟨hnone, hsame⟩ | ⟨p, hp, hmade⟩
  · rw [hsame, hq]
    exact iff_of_false (by simp) (hnone q)
  · rw [hmade]
    by_cases hpq : q = p
    · subst hpq
      exact iff_of_true (by simp [Disk.file?_put_new hp.2.2.2.1]) hp
    · have hkept : (m.files.put p File.empty).file? q = m.files.file? q := by
        rw [Disk.file?, Disk.file?, Disk.entry?_put_ne hpq]
      rw [hkept, hq]
      exact iff_of_false (by simp) fun hm => hpq (makes_unique hm.2.2 hp.2.2)

/-- A use that is no preparation makes the file that its connection makes, and no other one. -/
theorem made_iff (hu : u ≠ .bootstrap) (hq : m.files.file? q = none) :
    ((u.run s m).files.file? q).isSome ↔ u.Makes s m q := by
  cases u with
  | connect t => simpa [Use.run, Use.Makes, Use.trouble?] using made_opening_iff hq
  | execute t c =>
    cases hblank : c.isBlank with
    | true => simp [Use.run, Use.Makes, Use.trouble?, Engine.execute_of_blank hblank, hblank, hq]
    | false =>
      simpa [Use.run, Use.Makes, Use.trouble?, hblank, isSome_execute hblank] using
        made_opening_iff hq
  | bootstrap => exact absurd rfl hu
  | remove p => simp [Use.run, Use.Makes, Use.trouble?, Disk.file?_remove hq p]

/-- The file that is there after many uses was made by one of them. -/
theorem made_after (hus : .bootstrap ∉ us) (hq : m.files.file? q = none)
    (hmade : ((s.after m us).files.file? q).isSome) :
    ∃ before u rest, us = before ++ u :: rest ∧ u.Makes s (s.after m before) q := by
  induction us generalizing m with
  | nil =>
    have hnone : ((s.after m []).files.file? q).isSome = false := by simp [after, hq]
    rw [hnone] at hmade
    cases hmade
  | cons u us ih =>
    rw [List.mem_cons, not_or] at hus
    by_cases hu : u.Makes s m q
    · exact ⟨[], u, us, rfl, hu⟩
    · have hnone : (u.run s m).files.file? q = none := by
        simpa using (made_iff (Ne.symm hus.1) hq).not.mpr hu
      obtain ⟨before, v, rest, rfl, hv⟩ := ih hus.2 hnone hmade
      exact ⟨u :: before, v, rest, rfl, hv⟩

/-- A missing store is not opened, unless it is made. -/
theorem unopened_of_missing (hm : s.Missing d) (hmakes : ∀ p, ¬ s.Makes d p) :
    ∃ f, s.opened .write d = .error f := by
  cases ho : s.opened .write d with
  | error f => exact ⟨f, rfl⟩
  | ok r =>
    obtain ⟨d', h⟩ := r
    cases opened_iff.mp ho with
    | made p i hl hnew hdir => exact absurd ⟨⟨i, hl⟩, hnew, hdir⟩ (hmakes p)
    | memory a i hl =>
      obtain ⟨n, hmade, hcovers⟩ := Location.covers_ofName hl
      obtain ⟨p, hp, -⟩ := hm n hmade
      cases hp.symm.trans hcovers.place
    | found p a i f hl hf =>
      obtain ⟨n, hmade, hcovers⟩ := Location.covers_ofName hl
      obtain ⟨q, hq, hnone⟩ := hm n hmade
      cases hq.symm.trans hcovers.place
      rw [hf] at hnone
      cases hnone

theorem connect_of_missing (hm : s.Missing m.files) (hmakes : ∀ p, ¬ s.MakesOn t m p) :
    ∃ message, s.engine.connect t m = (m, .error (.failed message)) := by
  change ∃ message, s.connectOn t m = (m, .error (.failed message))
  unfold connectOn
  split
  · exact ⟨_, rfl⟩
  · rename_i hmemory
    split
    · exact ⟨_, rfl⟩
    · rename_i hopening
      obtain ⟨f, hf⟩ :=
        unopened_of_missing hm fun p hp => hmakes p ⟨by simpa using hmemory, hopening, hp⟩
      rw [connect_of_unopened hf]
      exact ⟨_, rfl⟩

/-- A preparation that does not succeed leaves a missing store missing, unless none succeeds. -/
theorem bootstrap_of_missing (hm : s.Missing d) :
    (s.bootstrap d).2 = .done () ∨ (s.bootstrap d).1 = d ∨ s.Unmade := by
  cases ho : s.opened .create d with
  | error f =>
    rw [bootstrap_of_unopened ho]
    exact .inr (.inl rfl)
  | ok r =>
    obtain ⟨d₁, h⟩ := r
    by_cases hlong : longestTimeout < s.busyTimeout
    · exact .inr (.inr (.inl hlong))
    · rw [bootstrap_of_opened ho, if_neg hlong]
      cases opened_iff.mp ho with
      | memory a i hl =>
        obtain ⟨p, hp, -⟩ := hm _ hl
        cases hp
      | found p a i f hl hf =>
        obtain ⟨q, hq, hnone⟩ := hm _ hl
        cases hq
        rw [hf] at hnone
        cases hnone
      | made p i hl hnew hdir =>
        cases i with
        | true => exact .inr (.inr (.inr ⟨p, .create, hl⟩))
        | false =>
          exact .inl (congrArg Prod.snd (prepare_empty (Disk.file?_put_new hnew File.empty)))

theorem bootstrapOn_of_missing (hm : s.Missing m.files) :
    (s.bootstrapOn m).2 = .done () ∨ (s.bootstrapOn m).1 = m ∨ s.Unmade := by
  unfold bootstrapOn
  split
  · exact .inr (.inl rfl)
  · rcases bootstrap_of_missing hm with hdone | hsame | hunmade
    · exact .inl hdone
    · exact .inr (.inl (World.ext hsame rfl))
    · exact .inr (.inr hunmade)

/-- What can bring a missing store back. -/
inductive Restores (s : Store) (m : Machine) : Use → Prop where
  | prepared (hdone : (s.bootstrapOn m).2 = .done ()) : Restores s m .bootstrap
  | attempted (hunmade : s.Unmade) : Restores s m .bootstrap
  | connected (u : Use) (p : Path) (hmakes : u.Makes s m p) : Restores s m u

theorem restores_of_run (hm : s.Missing m.files) (hback : ¬ s.Missing (u.run s m).files) :
    s.Restores m u := by
  by_cases hu : u = .bootstrap
  · subst hu
    rcases bootstrapOn_of_missing hm with hdone | hsame | hunmade
    · exact .prepared hdone
    · have hrun : Use.run s m .bootstrap = m := hsame
      rw [hrun] at hback
      exact absurd hm hback
    · exact .attempted hunmade
  · by_contra hnone
    refine hback fun l hl => ?_
    obtain ⟨p, hp, hq⟩ := hm l hl
    refine ⟨p, hp, ?_⟩
    simpa using (made_iff hu hq).not.mpr fun hmakes => hnone (.connected u p hmakes)

/-- Some use brings a missing store back before it is there. -/
theorem restores_of_back (hm : s.Missing m.files) (hback : ¬ s.Missing (s.after m us).files) :
    ∃ before u rest, us = before ++ u :: rest ∧ s.Missing (s.after m before).files ∧
      s.Restores (s.after m before) u := by
  induction us generalizing m with
  | nil => exact absurd hm hback
  | cons u us ih =>
    by_cases hnext : s.Missing (u.run s m).files
    · obtain ⟨before, v, rest, rfl, hmissing, hrestores⟩ := ih hnext hback
      exact ⟨u :: before, v, rest, rfl, hmissing, hrestores⟩
    · exact ⟨[], u, us, rfl, hm, restores_of_run hm hnext⟩

theorem prepare_immutable (hfile : d.file? p = some File.empty) (a : Access) :
    ((fileHandle p a true).prepare d).2 = .failed (.sql .readOnly) := by
  have hrights : (fileHandle p a true).rights d = ⟨true, false⟩ := by
    rw [Handle.rights_of_file? rfl hfile]
    simp [fileHandle, File.empty]
  have hopened : (fileHandle p a true).file? d = some File.empty := hfile
  simp only [Handle.prepare, hopened, hrights]
  rfl

/-- Commands run on the relations of a store that has been made again, provided that its name does
not ask for more than commands may have. -/
theorem connect_of_back (hm : s.Missing d) (hl : Location.ofName s.name .write = .ok l)
    (hdone : s.bootstrap d = (d', .done ())) :
    ∃ p db, d'.file? p = some ⟨.tables db true, false⟩ ∧ Relations.Completion {} db ∧
      s.connect d' = (d', .done ⟨.path p, false, false⟩) := by
  obtain ⟨hlong, d₁, h, ho, hprepare⟩ := opened_of_bootstrap hdone
  obtain ⟨⟨place, a, i⟩, hmade, hcovers⟩ := Location.covers_ofName hl
  obtain ⟨p, rfl, hnone⟩ := hm _ hmade
  obtain ⟨before, db, logged, locked, hbefore, hfile, hlog, hcompletion⟩ :=
    (conserved_of_bootstrap hmade hdone).file
  obtain ⟨rfl, ⟨⟨f, hf⟩, -⟩ | ⟨⟨rfl, -⟩, hnew, rfl⟩⟩ := opened_cases hmade ho
  · rw [hnone] at hf
    cases hf
  obtain ⟨logged', hf⟩ | ⟨-, rfl, rfl⟩ := hbefore
  · rw [hnone] at hf
    cases hf
  -- an immutable file has no relations after it is made
  obtain rfl : i = false := by
    cases i with
    | false => rfl
    | true =>
      have hfailed := prepare_immutable (Disk.file?_put_new hnew File.empty) .create
      rw [hprepare] at hfailed
      cases hfailed
  obtain ⟨place, b, j⟩ := l
  obtain rfl : Place.path p = place := hcovers.place
  obtain rfl : false = j := hcovers.immutable
  obtain rfl := hlog rfl
  refine ⟨p, db, hfile, hcompletion, ?_⟩
  rw [connect_of_file? hl hfile hlong]
  -- the name restricts nothing, so a connection may write
  rcases hcovers.access with rfl | ⟨-, rfl⟩ <;> rfl

/-- A file is made by a preparation, or by a connection where its name makes it do so, and by
nothing else. While a store is missing, connections and commands fail, but for blank commands and
for those that make it. A preparation that succeeds brings it back with empty relations, and
commands run on them. -/
theorem serving_never_creates (s : Store) (m : Machine) :
    (∀ us q, Use.bootstrap ∉ us → m.files.file? q = none → ((s.after m us).files.file? q).isSome →
      ∃ before u rest, us = before ++ u :: rest ∧ u.Makes s (s.after m before) q) ∧
    (∀ u q, u ≠ Use.bootstrap → m.files.file? q = none →
      (((u.run s m).files.file? q).isSome ↔ u.Makes s m q)) ∧
    (∀ u q, Use.Makes s m u q → ("mode", "memory") ∈ Location.optionsOf s.name) ∧
    (∀ t, s.Missing m.files → (∀ p, ¬ s.MakesOn t m p) →
      ∃ message, s.engine.connect t m = (m, .error (.failed message)) ∧
        ∀ c, s.engine.execute t m c =
          (m, .ok (if c.isBlank then .success else .failure message))) ∧
    (∀ us, s.Missing m.files → ¬ s.Missing (s.after m us).files →
      ∃ before u rest, us = before ++ u :: rest ∧ s.Missing (s.after m before).files ∧
        s.Restores (s.after m before) u) ∧
    ∀ l m', s.Missing m.files → Location.ofName s.name .write = .ok l →
      s.bootstrapOn m = (m', .done ()) →
        ∃ p db, m'.files.file? p = some ⟨.tables db true, false⟩ ∧ Relations.Completion {} db ∧
          (∀ t, t .opening = none →
            s.engine.connect t m' = (m', .ok ⟨⟨.path p, false, false⟩, none⟩)) ∧
          ∀ c, c.isBlank = false → c.limitsMemory = false →
            (s.engine.execute calm m' c).2 =
              .ok (runText ⟨false, false⟩ (.ok db) c).2 := by
  refine ⟨fun us q => made_after, fun u q => made_iff, ?_, ?_, fun us => restores_of_back, ?_⟩
  · rintro u q ⟨t, -, -, -, hmakes⟩
    exact memory_of_makes hmakes
  · intro t hm hmakes
    obtain ⟨message, hconnect⟩ := connect_of_missing hm hmakes
    refine ⟨message, hconnect, fun c => ?_⟩
    unfold Engine.execute
    split
    · rfl
    · rw [hconnect]
  · intro l m' hm hl hdone
    obtain ⟨hmemory, hdone, hprocess⟩ := bootstrapOn_of_done hdone
    obtain ⟨p, db, hfile, hcompletion, hconnect⟩ := connect_of_back hm hl hdone
    have hmemory' : m'.process.exhausted = false := hprocess ▸ hmemory
    refine ⟨p, db, hfile, hcompletion, fun t ht => ?_, fun c hblank hlimit => ?_⟩
    · change s.connectOn t m' = _
      simp [connectOn, hmemory', ht, hconnect]
    · rw [execute_engine hmemory' hlimit, executeUnder_calm,
        Executor.execute_of_connect hblank hconnect, Handle.rights_of_file? rfl hfile,
        Handle.schema_of_file? rfl hfile]
      rfl

/-- A store on an empty disk: it stays missing until it is prepared. -/
theorem serving_never_creates_empty :
    let s : Store := ⟨"s.db", 5000⟩
    s.Missing {} ∧ (∀ p, ¬ s.MakesOn calm ⟨{}, {}⟩ p) ∧
    (s.after ⟨{}, {}⟩ [.connect calm, .execute calm ⟨"SELECT 1"⟩]).files.file? ["s.db"] = none ∧
    (∃ message, s.engine.connect calm ⟨{}, {}⟩ = (⟨{}, {}⟩, .error (.failed message))) ∧
    (∃ before u rest, [Use.connect calm, .bootstrap] = before ++ u :: rest ∧
      s.Missing (s.after ⟨{}, {}⟩ before).files ∧ s.Restores (s.after ⟨{}, {}⟩ before) u) ∧
    ∃ m' p, s.bootstrapOn ⟨{}, {}⟩ = (m', .done ()) ∧
      s.engine.connect calm m' = (m', .ok ⟨⟨.path p, false, false⟩, none⟩) := by
  intro s
  have hname : Location.ofName "s.db" .create = .ok ⟨.path ["s.db"], .create, false⟩ := rfl
  have hopening : Location.ofName "s.db" .write = .ok ⟨.path ["s.db"], .write, false⟩ := rfl
  have hmissing : s.Missing {} := by
    intro l hl
    obtain rfl := Except.ok.inj (hname.symm.trans hl)
    exact ⟨["s.db"], rfl, rfl⟩
  have hmakes : ∀ p, ¬ s.MakesOn calm ⟨{}, {}⟩ p := by
    rintro p ⟨-, -, ⟨i, hl⟩, -⟩
    cases hopening.symm.trans hl
  obtain ⟨m', hdone⟩ : ∃ m', s.bootstrapOn ⟨{}, {}⟩ = (m', .done ()) := by
    unfold s
    exact ⟨_, Prod.ext rfl rfl⟩
  obtain ⟨hnever, hexact, hmemory, hfails, hback, hruns⟩ := serving_never_creates s ⟨{}, {}⟩
  obtain ⟨message, hmessage, -⟩ := hfails calm hmissing hmakes
  obtain ⟨p, db, -, -, hconnect, -⟩ := hruns _ m' hmissing hopening hdone
  refine ⟨hmissing, hmakes, ?_, ⟨message, hmessage⟩, hback _ hmissing ?_, m', p, hdone,
    hconnect calm rfl⟩
  · refine Option.eq_none_iff_forall_ne_some.mpr fun f hf => ?_
    obtain ⟨before, u, rest, -, hu⟩ := hnever [.connect calm, .execute calm ⟨"SELECT 1"⟩] ["s.db"]
      (by simp) rfl (by simp [hf])
    obtain ⟨t, -, -, -, hmakes⟩ := hu
    have hoptions := memory_of_makes hmakes
    exact absurd hoptions (by decide)
  · intro hm
    obtain ⟨p, hp, hnone⟩ := hm _ hname
    cases hp
    have hthere : ((s.after ⟨{}, {}⟩ [.connect calm, .bootstrap]).files.file? ["s.db"]).isSome := by
      decide +kernel
    rw [hnone] at hthere
    cases hthere

/-- A command makes the file of a store whose name asks for memory and then for a file, and runs on
it. A preparation of a file that is never changed fails, and leaves it for the commands that
follow. With the last name a store is made, but no command runs on it. -/
theorem serving_creates :
    (let s : Store := ⟨"file:x.db?mode=memory&mode=rwc", 5000⟩
      let after := s.engine.execute calm ⟨{}, {}⟩ ⟨"SELECT 1"⟩
      after.2 = .ok (.rows [[.integer 1]]) ∧ (after.1.files.file? ["x.db"]).isSome) ∧
    (let s : Store := ⟨"file:x.db?immutable=1", 5000⟩
      let prepared := s.bootstrapOn ⟨{}, {}⟩
      (prepared.2 matches .failed _) ∧
        (prepared.1.files.file? ["x.db"]).isSome ∧
        (s.engine.execute calm prepared.1 ⟨"SELECT 1"⟩).2 = .ok (.rows [[.integer 1]])) ∧
    (let s : Store := ⟨"file:store.db?mode=rwc", 5000⟩
      let prepared := s.bootstrapOn ⟨{}, {}⟩
      (prepared.2 matches .done ()) ∧
        (s.engine.execute calm prepared.1 ⟨"SELECT * FROM users"⟩).2 =
          .ok (.failure "access mode not allowed: rwc")) := by
  decide +kernel

end Store
end QueryServer
