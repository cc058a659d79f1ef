import QueryServer.Proofs.Engine.Transactions
/-!
Commands one after another. Main statement: no transaction outlives its command. What a command
does depends on the files and on what it takes from elsewhere; a write that succeeds has committed
what it did; inserted BEGINs make no difference; and nothing that an earlier command did can be
committed or undone by a later one.
-/

namespace QueryServer

theorem Disk.entry?_put_self (d₁ d₂ : Disk) (p : Path) (f : File) :
    Disk.entry? (d₁.put p f) p = Disk.entry? (d₂.put p f) p := by
  simp only [Disk.entry?, Disk.put, Disk.lookup_replace]

namespace Store

/-- The same for all connections to the store: at its path, and in whether a file can be made
there. -/
def Alike (s : Store) (d₁ d₂ : Disk) : Prop :=
  ∀ p a i, Location.ofName s.name .write = .ok ⟨.path p, a, i⟩ →
    d₁.entry? p = d₂.entry? p ∧ d₁.isDirectory p.dropLast = d₂.isDirectory p.dropLast

variable {s : Store} {d d₁ d₂ d' : Disk} {h : Handle} {p : Path} {a : Access} {i : Bool}

theorem Alike.put (ha : s.Alike d₁ d₂) (hl : Location.ofName s.name .write = .ok ⟨.path p, a, i⟩)
    (f : File) : s.Alike (d₁.put p f) (d₂.put p f) := by
  intro q b j hq
  cases hl.symm.trans hq
  refine ⟨Disk.entry?_put_self d₁ d₂ p f, ?_⟩
  by_cases hp : p.dropLast = p
  · rw [hp, Disk.isDirectory, Disk.isDirectory, Disk.entry?_put_self d₁ d₂ p f]
  · have hdirectory := (ha p a i hl).2
    rwa [Disk.isDirectory, Disk.isDirectory, Disk.entry?_put_ne hp, Disk.entry?_put_ne hp]

theorem Alike.connect (ha : s.Alike d₁ d₂) :
    (s.connect d₁).2 = (s.connect d₂).2 ∧ s.Alike (s.connect d₁).1 (s.connect d₂).1 := by
  unfold Store.connect opened
  cases hl : Location.ofName s.name .write with
  | error f => exact ⟨rfl, ha⟩
  | ok l =>
    obtain ⟨place, a, i⟩ := l
    cases place with
    | memory => exact ⟨rfl, ha⟩
    | path p =>
      obtain ⟨hentry, hdirectory⟩ := ha p a i hl
      simp only [bind, Except.bind, openAt, ← hentry, ← hdirectory]
      cases hp : d₁.entry? p with
      | none =>
        dsimp only
        by_cases hmake : a = .create ∧ d₁.isDirectory p.dropLast
        · rw [if_pos hmake, if_pos hmake]
          exact ⟨rfl, ha.put hl File.empty⟩
        · rw [if_neg hmake, if_neg hmake]
          exact ⟨rfl, ha⟩
      | some e => cases e <;> exact ⟨rfl, ha⟩

/-- A connection is to no file or to the one at the store's path. -/
theorem place_of_connect (hc : s.connect d = (d', .done h)) : h.place = .memory ∨
    ∃ p a i, h.place = .path p ∧ Location.ofName s.name .write = .ok ⟨.path p, a, i⟩ := by
  cases (opened_of_connect hc).1 with
  | memory a i hl => exact .inl rfl
  | found p a i f hl hf => exact .inr ⟨p, a, i, rfl, hl⟩
  | made p i hl hnew hdir => exact .inr ⟨p, _, i, rfl, hl⟩

theorem Alike.file? (ha : s.Alike d₁ d₂) (hc : s.connect d = (d', .done h)) :
    h.file? d₁ = h.file? d₂ := by
  rcases place_of_connect hc with hp | ⟨p, a, i, hp, hl⟩
  · simp [Handle.file?, hp]
  · rw [Handle.file?_of_place hp, Handle.file?_of_place hp, Disk.file?, Disk.file?, (ha p a i hl).1]

theorem Alike.commit (ha : s.Alike d₁ d₂) (hc : s.connect d = (d', .done h)) (schema : Sql.Schema) :
    s.Alike (h.commit d₁ schema) (h.commit d₂ schema) := by
  rcases place_of_connect hc with hp | ⟨p, a, i, hp, hl⟩
  · simpa [Handle.commit, hp] using ha
  · have hfile := ha.file? hc
    rw [Handle.file?_of_place hp, Handle.file?_of_place hp] at hfile
    cases hf : d₁.file? p with
    | none =>
      rw [Handle.commit_of_missing hp hf, Handle.commit_of_missing hp (hfile ▸ hf)]
      exact ha
    | some f =>
      rw [Handle.commit_of_file? hp hf, Handle.commit_of_file? hp (hfile ▸ hf)]
      exact ha.put hl _

end Store

namespace Executor
open Store

variable {s : Store} {d₁ d₂ d d' : Disk} {h : Handle} {t : Trouble} {c : Command}

theorem alike_runOnce (ha : s.Alike d₁ d₂) (hc : s.connect d = (d', .done h)) (kind : Command.Kind)
    (p : Sql.Prepared) : (runOnce t h d₁ kind p).2 = (runOnce t h d₂ kind p).2 ∧
      s.Alike (runOnce t h d₁ kind p).1 (runOnce t h d₂ kind p).1 := by
  have hfile := ha.file? hc
  have hschema : h.schema d₁ = h.schema d₂ := by rw [Handle.schema, Handle.schema, hfile]
  have hrights : h.rights d₁ = h.rights d₂ := by rw [Handle.rights, Handle.rights, hfile]
  unfold runOnce
  rw [hschema, hrights]
  dsimp only
  split
  · exact ⟨rfl, ha.commit hc _⟩
  · split
    · exact ⟨rfl, ha⟩
    · exact ⟨rfl, ha.commit hc _⟩

/-- What a command does, and what it leaves of the store, depends on what was there of it. -/
theorem alike_executeUnder (ha : s.Alike d₁ d₂) (t : Trouble) (c : Command) :
    (executeUnder t s d₁ c).2 = (executeUnder t s d₂ c).2 ∧
      s.Alike (executeUnder t s d₁ c).1 (executeUnder t s d₂ c).1 := by
  cases hblank : c.isBlank with
  | true => simpa [executeUnder, hblank] using ha
  | false =>
    cases ht : t .opening with
    | some f => simpa [executeUnder, hblank, connectUnder, ht] using ha
    | none =>
      obtain ⟨houtcome, hdisk⟩ := ha.connect
      rcases hc₁ : s.connect d₁ with ⟨d₁', outcome⟩
      rcases hc₂ : s.connect d₂ with ⟨d₂', outcome'⟩
      rw [hc₁, hc₂] at houtcome hdisk
      obtain rfl : outcome = outcome' := houtcome
      have hunder₁ : connectUnder t s d₁ = (d₁', outcome) := by rw [connectUnder, ht, hc₁]
      have hunder₂ : connectUnder t s d₂ = (d₂', outcome) := by rw [connectUnder, ht, hc₂]
      cases outcome with
      | crashed reason | failed f =>
        simp only [executeUnder, hblank, hunder₁, hunder₂, Bool.false_eq_true, if_false, true_and]
        exact hdisk
      | done h =>
        rw [executeUnder_of_connect hblank hunder₁, executeUnder_of_connect hblank hunder₂]
        have hschema : h.schema d₁' = h.schema d₂' := by
          rw [Handle.schema, Handle.schema, Alike.file? hdisk hc₁]
        have hprepare : ((Session.mk h none).prepare t d₁' c.text).result =
            ((Session.mk h none).prepare t d₂' c.text).result := by
          simp only [Session.prepare, hschema]
        rw [hprepare]
        cases ((Session.mk h none).prepare t d₂' c.text).result with
        | error f => exact ⟨rfl, hdisk⟩
        | ok prepared =>
          cases prepared with
          | none => exact ⟨rfl, hdisk⟩
          | some p =>
            obtain ⟨hresponse, hafter⟩ := alike_runOnce (t := t) hdisk hc₁ c.kind p
            exact ⟨congrArg Except.ok hresponse, hafter⟩

/-- What a success of a write leaves: nobody's rights have changed, and the next connection finds
what the statement did, and what it left open. -/
structure Settled (h : Handle) (d : Disk) (c : Command) (d' : Disk) : Prop where
  rights : h.rights d' = h.rights d
  committed : ∀ p, Sql.Prepared.only? (h.schema d) c.text = .ok (some p) →
    ∃ e rows, p.run (h.rights d) (h.schema d) = e ∧ e.result = .ok rows ∧
      (h.place = .memory ∨ h.schema d' = e.pending.getD e.committed)
  unchanged : Sql.Prepared.only? (h.schema d) c.text = .ok none → d' = d

theorem schema_commit_run (hb : h.Backed d) (p : Sql.Prepared) :
    let e := p.run (h.rights d) (h.schema d)
    h.place = .memory ∨ h.schema (h.commit d e.committed) = e.pending.getD e.committed := by
  have houtcome := p.outcome_run (h.rights d) (h.schema d)
  generalize p.run (h.rights d) (h.schema d) = e at houtcome
  cases houtcome with
  | kept result => exact .inr (congrArg h.schema (h.commit_schema d))
  | opened mode hplan hfree => exact .inr (congrArg h.schema (h.commit_schema d))
  | changed before after result hbefore hkeeps => exact hb.schema_commit hbefore

theorem settled_of_runOnce (hb : h.Backed d) {kind : Command.Kind} {p : Sql.Prepared}
    (hp : Sql.Prepared.only? (h.schema d) c.text = .ok (some p))
    (hr : runOnce t h d kind p = (d', .success)) : Settled h d c d' := by
  unfold runOnce at hr
  dsimp only at hr
  cases he : (p.run (h.rights d) (h.schema d)).result with
  | error f =>
    rw [he] at hr
    cases hr
  | ok rows =>
    rw [he] at hr
    dsimp only at hr
    split at hr
    · cases hr
    · obtain rfl := congrArg Prod.fst hr
      refine ⟨h.rights_commit d _, fun q hq => ?_, fun hnone => ?_⟩
      · cases hp.symm.trans hq
        exact ⟨_, rows, rfl, he, schema_commit_run hb p⟩
      · cases hp.symm.trans hnone

theorem settled_of_success (hx : executeUnder t s d c = (d', .ok .success)) :
    c.isBlank ∧ d' = d ∨ ∃ d₁ h, s.connect d = (d₁, .done h) ∧ Settled h d₁ c d' := by
  cases hblank : c.isBlank with
  | true =>
    simp [executeUnder, hblank] at hx
    exact .inl ⟨rfl, hx.symm⟩
  | false =>
    have hexecuted := executed hblank t s d
    rw [executionUnder, hx] at hexecuted
    generalize hy : ((d', answer (.ok .success)) : Disk × Response) = y at hexecuted
    right
    cases hexecuted with
    | refused message => cases hy
    | empty d₁ h hc hp =>
      obtain rfl := congrArg Prod.fst hy
      refine ⟨d', h, connect_of_connectUnder hc, rfl, fun p hq => ?_, fun _ => rfl⟩
      cases hp.symm.trans hq
    | ran d₁ h p hc hp =>
      have hconnect := connect_of_connectUnder hc
      exact ⟨d₁, h, hconnect, settled_of_runOnce (backed_of_connect hconnect) hp hy.symm⟩

end Executor

namespace Engine
open Executor Store

variable {s : Store}

theorem answers_of_alike (m₁ m₂ : Machine) (hm₁ : m₁.process.exhausted = false)
    (hm₂ : m₂.process.exhausted = false) (ha : s.Alike m₁.files m₂.files)
    {ls : List s.engine.Line} (hls : ∀ l ∈ ls, l.command.limitsMemory = false) :
    (s.engine.answers m₁ ls).1 = (s.engine.answers m₂ ls).1 ∧
      s.Alike (s.engine.answers m₁ ls).2.files (s.engine.answers m₂ ls).2.files := by
  induction ls generalizing m₁ m₂ with
  | nil => exact ⟨rfl, ha⟩
  | cons l ls ih =>
    have hlimit := hls l List.mem_cons_self
    obtain ⟨hresponse, hafter⟩ := alike_executeUnder ha l.outside l.command
    have hexecution {m : Machine} (hm : m.process.exhausted = false) :
        s.engine.execution l.outside m l.command =
          ({ m with files := (executeUnder l.outside s m.files l.command).1 },
            answer (executeUnder l.outside s m.files l.command).2) := by
      rw [execution, execute_engine hm hlimit]
    rw [answers_cons, answers_cons, hexecution hm₁, hexecution hm₂, hresponse]
    obtain ⟨hrest, hlast⟩ := ih { m₁ with files := (executeUnder l.outside s m₁.files l.command).1 }
      { m₂ with files := (executeUnder l.outside s m₂.files l.command).1 } hm₁ hm₂ hafter
      fun x hx => hls x (List.mem_cons_of_mem l hx)
    exact ⟨congrArg (List.cons _) hrest, hlast⟩

/-- No transaction of a library outlives its command. -/
structure Isolated (E : Engine) : Prop where
  /-- Nothing but files passes from a command to the next one. -/
  depends : ∀ w ls, (∀ l ∈ ls, E.Passive l.command) →
    E.answers w ls = ((E.answersOver w.process w.files ls).1,
      ⟨(E.answersOver w.process w.files ls).2, w.process⟩)
  concluded : ∀ o w c w', c.kind = .write → E.execute o w c = (w', .ok .success) →
    c.isBlank ∧ w' = w ∨ E.Concluded o w c w'
  undisturbed : ∀ w ls, E.Inserts w ls →
    E.Undisturbed ls (E.answers w ls) (E.answers w (ls.filter (!·.inserted)))
  refused : ∀ o w c, E.Refuses c →
    failed (E.execute o w c).2 ∧ (E.execute o w c).1.files = (E.opening o w).files

/-- Commands on a store on a machine do what is to be expected of transactions. -/
structure Isolates (s : Store) : Prop where
  passive : ∀ c, c.limitsMemory = false → s.engine.Passive c
  alike : ∀ (m₁ m₂ : Machine) (ls : List s.engine.Line), m₁.process.exhausted = false →
    m₂.process.exhausted = false → s.Alike m₁.files m₂.files →
    (∀ l ∈ ls, l.command.limitsMemory = false) →
      (s.engine.answers m₁ ls).1 = (s.engine.answers m₂ ls).1 ∧
        s.Alike (s.engine.answers m₁ ls).2.files (s.engine.answers m₂ ls).2.files
  settled : ∀ t m c m', m.process.exhausted = false → c.limitsMemory = false →
    s.engine.execute t m c = (m', .ok .success) →
      c.isBlank ∧ m' = m ∨
        ∃ d h, s.connect m.files = (d, .done h) ∧ Settled h d c m'.files
  /-- Every form of BEGIN opens a transaction on a store that can be used, where nothing fails. -/
  begins : ∀ (m : Machine) (ls : List s.engine.Line), m.process.exhausted = false →
    s.Usable m.files → (∀ l ∈ ls, l.command.limitsMemory = false) →
    (∀ l ∈ ls, l.inserted → l.outside = calm ∧ l.command.opensTransaction) →
      s.engine.Inserts m ls
  ends : ∀ c, c.endsTransaction → s.engine.Refuses c

/-- No transaction outlives its command, over any library in which transactions are what they
should be and only the preparation of statements acts on the process. A store on a machine is one,
and what it has for BEGIN, COMMIT, END and ROLLBACK is what the law is about. -/
theorem no_transaction_outlives :
    (∀ E : Engine, E.Transactional → E.Confined → E.Isolated) ∧
      ∀ s : Store, s.engine.Transactional ∧ s.engine.Confined ∧ Isolates s := by
  constructor
  · intro E hE hconfined
    exact ⟨fun w ls hls => answers_of_passive hconfined hls w,
      fun o w c w' hk hx => hE.concluded hk hx, fun w ls h => undisturbed hE hconfined h,
      fun o w c hc => hc.failed hE o w⟩
  · intro s
    refine ⟨transactional_engine s, confined_engine s, fun c hc => passive_of_limitsMemory hc,
      fun m₁ m₂ ls hm₁ hm₂ ha hls => answers_of_alike m₁ m₂ hm₁ hm₂ ha hls, ?_,
      fun m ls hm hu hlimit hls => inserts_engine hm hu hlimit hls, fun c hc => refuses_engine hc⟩
    intro t m c m' hm hlimit hx
    rw [execute_engine hm hlimit, Prod.mk.injEq] at hx
    obtain ⟨rfl, hresponse⟩ := hx
    rcases settled_of_success (Prod.ext rfl hresponse) with ⟨hblank, hsame⟩ | hsettled
    · exact .inl ⟨hblank, World.ext hsame rfl⟩
    · exact .inr hsettled

/-- A BEGIN before a read, and a COMMIT, where nobody else uses the store. -/
theorem no_transaction_outlives_begin :
    let s : Store := ⟨"a.db", 0⟩
    let m : Machine := ⟨⟨[(["a.db"], .file File.empty)]⟩, {}⟩
    let begin : Command := ⟨"BEGIN IMMEDIATE"⟩
    let ls : List s.engine.Line := [⟨calm, begin, true⟩, ⟨calm, ⟨"SELECT 1"⟩, false⟩]
    s.engine.answers m ls = ((s.engine.answersOver m.process m.files ls).1,
        ⟨(s.engine.answersOver m.process m.files ls).2, m.process⟩) ∧
      (begin.isBlank ∧ m = m ∨ s.engine.Concluded calm m begin m) ∧
      s.engine.Undisturbed ls (s.engine.answers m ls)
        (s.engine.answers m (ls.filter (!·.inserted))) ∧
      failed (s.engine.execute calm m ⟨"COMMIT"⟩).2 := by
  intro s m begin ls
  obtain ⟨hlaws, hstores⟩ := no_transaction_outlives
  obtain ⟨htransactional, hconfined, hstore⟩ := hstores s
  have hlaw := hlaws s.engine htransactional hconfined
  have hlimit : ∀ l ∈ ls, l.command.limitsMemory = false := by
    have hbegin : begin.limitsMemory = false := by decide +kernel
    have hread : Command.limitsMemory ⟨"SELECT 1"⟩ = false := by decide +kernel
    simp [ls, hbegin, hread]
  have husable : s.Usable m.files :=
    ⟨fileHandle ["a.db"] .write false, ["a.db"], {}, false,
      connect_of_file? (s := ⟨"a.db", 0⟩) rfl rfl (Nat.zero_le _), rfl, rfl⟩
  have hopens : begin.opensTransaction := by
    have hscan : Sql.Lexeme.scan begin.text.toList =
        [⟨.keyword .BEGIN, "BEGIN".toList, " IMMEDIATE".toList⟩,
          ⟨.keyword .IMMEDIATE, "IMMEDIATE".toList, []⟩] := by decide +kernel
    refine ⟨.immediate, ?_⟩
    rw [hscan]
    exact .intro [] [_] [] [] _ _ nofun rfl (.immediate _ rfl) .missing nofun
  have hsuccess : s.engine.execute calm m begin = (m, .ok .success) :=
    (opens_engine rfl husable hopens).execute htransactional hconfined
  refine ⟨hlaw.depends m ls fun l hl => hstore.passive _ (hlimit l hl),
    hlaw.concluded calm m begin m (by decide +kernel) hsuccess,
    hlaw.undisturbed m ls (hstore.begins m ls rfl husable hlimit ?_),
    (hlaw.refused calm m ⟨"COMMIT"⟩ (hstore.ends _ (by decide +kernel))).1⟩
  simp [ls, hopens]

/-- The same text over the same tables, with different answers: somebody else holds the right to
write, a fault comes from elsewhere, or an earlier command has limited memory. -/
theorem answers_differ :
    let s : Store := ⟨"a.db", 0⟩
    let m : Machine := ⟨⟨[(["a.db"], .file File.empty)]⟩, {}⟩
    let held : Machine := ⟨⟨[(["a.db"], .file { File.empty with locked := true })]⟩, {}⟩
    let full : Trouble := fun _ => some .full
    let limited : Machine := (s.engine.execution calm m ⟨"PRAGMA hard_heap_limit=1"⟩).1
    (s.engine.execution calm m ⟨"BEGIN IMMEDIATE"⟩).2 = .success ∧
      (s.engine.execution calm held ⟨"BEGIN IMMEDIATE"⟩).2 = .failure "database is locked" ∧
      (s.engine.execution calm m ⟨"SELECT 1"⟩).2 = .rows [[.integer 1]] ∧
      (s.engine.execution full m ⟨"SELECT 1"⟩).2 = .failure "database or disk is full" ∧
      (s.engine.execution calm limited ⟨"SELECT 1"⟩).2 = .failure "a.db" := by
  decide +kernel

end Engine
end QueryServer
