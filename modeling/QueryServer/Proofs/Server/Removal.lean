import QueryServer.Proofs.Engine.Machine
import QueryServer.Proofs.Server.Turns
/-!
A run with one client less. Main statement: a client whose commands leave everything as it was can be
taken out of a run, whatever else it did, and nobody else can tell the difference.
-/

namespace QueryServer
namespace Service

variable {σ : Type} (execution : Execution σ) {s : Service σ} {x y : ConnectionId}

/-- A service without one of its clients. -/
def without (s : Service σ) (x : ConnectionId) : Service σ :=
  { s with handlers := s.handlers.filter (·.1 ≠ x) }

theorem lookup_filter_other (hy : y ≠ x) (handlers : List (ConnectionId × Handler)) :
    (handlers.filter (·.1 ≠ x)).lookup y = handlers.lookup y := by
  induction handlers with
  | nil => rfl
  | cons entry handlers ih =>
    obtain ⟨i, g⟩ := entry
    by_cases hi : i = x
    · have hyi : (y == i) = false := by simpa [hi] using hy
      rw [List.filter_cons_of_neg (by simp [hi]), ih, List.lookup_cons, hyi]
    · rw [List.filter_cons_of_pos (by simp [hi]), List.lookup_cons, List.lookup_cons, ih]

theorem handler?_without (hy : y ≠ x) : (s.without x).handler? y = s.handler? y :=
  lookup_filter_other hy s.handlers

theorem filter_map_replace (y : ConnectionId) (h : Handler)
    (handlers : List (ConnectionId × Handler)) :
    (handlers.map fun (i, g) => if i = y then (i, h) else (i, g)).filter (·.1 ≠ x) =
      (handlers.filter (·.1 ≠ x)).map fun (i, g) => if i = y then (i, h) else (i, g) := by
  rw [List.filter_map]
  congr 2
  funext entry
  simp only [Function.comp_apply]
  split <;> rfl

theorem without_put_self (s : Service σ) (x : ConnectionId) (h : Handler) :
    (s.put x h).without x = s.without x := by
  simp only [without, put]
  rw [filter_map_replace, Service.mk.injEq]
  refine ⟨rfl, rfl, rfl, (List.map_congr_left fun entry he => ?_).trans (List.map_id _)⟩
  have hne : entry.1 ≠ x := by simpa using (List.mem_filter.mp he).2
  simp [hne]

theorem without_put_other (s : Service σ) (x y : ConnectionId) (h : Handler) :
    (s.put y h).without x = (s.without x).put y h := by
  simp only [without, put]
  rw [filter_map_replace]

/-- An event about the client that is taken out is not seen without it, if it leaves the state. -/
theorem without_step_self {e : Event} (he : e.client? = some x)
    (hidle : ∀ t, s.turn? e = some t → t.after execution = s.state) :
    (s.step execution e).without x = s.without x := by
  cases e with
  | connect id acceptances =>
    obtain rfl := Option.some.inj he
    simp only [step, connect]
    split
    · simp [without]
    · rfl
  | arrive id a =>
    obtain rfl := Option.some.inj he
    simp only [step, arrive]
    split
    · exact without_put_self s id _
    · rfl
  | proceed id =>
    obtain rfl := Option.some.inj he
    have hstate := s.state_step execution (.proceed id)
    have hsame : (s.step execution (.proceed id)).state = s.state := by
      rw [hstate]
      cases ht : s.turn? (.proceed id) with
      | none => rfl
      | some t => exact hidle t ht
    rw [step] at hsame ⊢
    unfold proceed at hsame ⊢
    split
    · rfl
    · rename_i h hx
      rw [hx] at hsame
      dsimp only at hsame ⊢
      split
      · rfl
      · rename_i state h' hstep
        rw [hstep] at hsame
        dsimp only at hsame
        rw [hsame]
        exact without_put_self s id h'
  | shutdown | acceptFault => cases he

/-- Every other event does without that client what it does with it. -/
theorem without_step_other {e : Event} (he : e.client? ≠ some x) :
    (s.step execution e).without x = (s.without x).step execution e ∧
      (s.without x).turn? e = s.turn? e := by
  cases e with
  | connect id acceptances =>
    have hid : id ≠ x := fun h => he (h ▸ rfl)
    refine ⟨?_, rfl⟩
    simp only [step, connect, handler?_without hid]
    have haccepting : (s.without x).accepting = s.accepting := rfl
    rw [haccepting]
    split
    · simp [without, List.filter_append, hid]
    · rfl
  | arrive id a =>
    have hid : id ≠ x := fun h => he (h ▸ rfl)
    refine ⟨?_, rfl⟩
    simp only [step, arrive, handler?_without hid]
    split
    · exact without_put_other s x id _
    · rfl
  | proceed id =>
    have hid : id ≠ x := fun h => he (h ▸ rfl)
    refine ⟨?_, by simp only [turn?, handler?_without hid]; rfl⟩
    simp only [step, proceed, handler?_without hid]
    have hstate : (s.without x).state = s.state := rfl
    rw [hstate]
    split
    · rfl
    · split
      · rfl
      · rename_i state h' _
        exact congrArg (fun z : Service σ => { z with state }) (without_put_other s x id h')
  | shutdown | acceptFault =>
    refine ⟨?_, rfl⟩
    simp only [step, finish]
    have haccepting : (s.without x).accepting = s.accepting := rfl
    rw [haccepting]
    split <;> rfl

/-- A service after events, each with what its command takes from elsewhere. -/
def runAmid {ω : Type} (execution : ω → Execution σ) (s : Service σ) (es : List (ω × Event)) :
    Service σ :=
  es.foldl (fun s x => s.step (execution x.1) x.2) s

/-- All that is executed in such a run, in its order. -/
def turnsAmid {ω : Type} (execution : ω → Execution σ) (s : Service σ) :
    List (ω × Event) → List (ω × Turn σ)
  | [] => []
  | (o, e) :: es =>
    (s.turn? e).toList.map (o, ·) ++ turnsAmid execution (s.step (execution o) e) es

/-- A client of which no turn changes the state can be left out of a run. -/
theorem run_without {ω : Type} {execution : ω → Execution σ} {es : List (ω × Event)}
    (hidle : ∀ t ∈ s.turnsAmid execution es, t.2.id = x → t.2.after (execution t.1) = t.2.state) :
    (s.runAmid execution es).without x =
        (s.without x).runAmid execution (es.filter (·.2.client? ≠ some x)) ∧
      (s.turnsAmid execution es).filter (·.2.id ≠ x) =
        (s.without x).turnsAmid execution (es.filter (·.2.client? ≠ some x)) := by
  induction es generalizing s with
  | nil => exact ⟨rfl, rfl⟩
  | cons head es ih =>
    obtain ⟨o, e⟩ := head
    have hrest := ih (s := s.step (execution o) e) fun t ht =>
      hidle t (List.mem_append_right _ ht)
    by_cases he : e.client? = some x
    · have hhead : ∀ t, s.turn? e = some t → t.id = x ∧ t.after (execution o) = s.state := by
        intro t ht
        obtain ⟨hid, hbefore⟩ := id_of_turn? ht
        have hx : t.id = x := Option.some.inj (hid.symm.trans he)
        exact ⟨hx, (hidle (o, t) (by simp [turnsAmid, ht]) hx).trans hbefore⟩
      have hskip : ((s.turn? e).toList.map (o, ·)).filter (·.2.id ≠ x) = [] := by
        cases ht : s.turn? e with
        | none => rfl
        | some t => simp [(hhead t ht).1]
      rw [without_step_self (execution o) he fun t ht => (hhead t ht).2] at hrest
      rw [List.filter_cons_of_neg (by simpa using he), turnsAmid, List.filter_append, hskip]
      exact hrest
    · obtain ⟨hstep, hturn⟩ := without_step_other (execution o) (s := s) he
      have hkeep : ((s.turn? e).toList.map (o, ·)).filter (·.2.id ≠ x) =
          (s.turn? e).toList.map (o, ·) := by
        cases ht : s.turn? e with
        | none => rfl
        | some t =>
          have hx : t.id ≠ x := fun h => he ((id_of_turn? ht).1.trans (congrArg some h))
          simp [hx]
      rw [hstep] at hrest
      rw [List.filter_cons_of_pos (by simpa using he), turnsAmid, turnsAmid, List.filter_append,
        hkeep, hturn, hrest.2]
      exact ⟨hrest.1, rfl⟩

variable {E : Engine} {o : E.Outside}

/-- A command that changes nothing: one of blanks; a read, or a failure that is undone as a whole,
where neither opening a connection nor preparing a statement changes anything; or any other one that
happens to leave everything as it was. -/
def Turn.Harmless (E : Engine) (o : E.Outside) (t : Turn E.World) : Prop :=
  t.command.isBlank ∨
    (E.opening o t.state = t.state ∧ E.Passive t.command ∧
      (t.command.kind = .read ∧ E.Reads t.command ∨
        (t.response (E.execution o)).isSuccess = false ∧ E.Undone t.command)) ∨
    t.after (E.execution o) = t.state

theorem Turn.Harmless.after {t : Turn E.World} (h : t.Harmless E o) (hE : E.Transactional)
    (hconfined : E.Confined) : t.after (E.execution o) = t.state := by
  rcases h with hblank | ⟨hopening, hpassive, hquiet⟩ | hsame
  · simp [Turn.after, Engine.execution, Engine.execute_of_blank hblank]
  · cases hblank : t.command.isBlank with
    | true => simp [Turn.after, Engine.execution, Engine.execute_of_blank hblank]
    | false =>
      have hfiles : (t.after (E.execution o)).files = (E.opening o t.state).files := by
        rcases hquiet with ⟨hk, hreads⟩ | ⟨hf, hundone⟩
        · exact hE.files_of_reads hk hreads hblank
        · exact hE.files_of_failed hundone (Executor.failed_of_answer hf)
      rw [hopening] at hfiles
      exact World.ext hfiles (hconfined.process_execute hpassive)
  · exact hsame

/-- On a store on a machine, reads and failures change nothing, unless they say OR FAIL, limit
memory, or make the store's file. -/
theorem harmless_engine {s : Store} {t : Executor.Trouble} {turn : Turn Machine}
    (hlimit : turn.command.limitsMemory = false) (hmakes : ∀ p, ¬ s.MakesOn t turn.state p)
    (hquiet : turn.command.kind = .read ∨ turn.command.saysOrFail = false ∧
      (turn.response (s.engine.execution t)).isSuccess = false) :
    Turn.Harmless s.engine t turn := by
  refine .inr (.inl ⟨?_, Store.passive_of_limitsMemory hlimit, ?_⟩)
  · rcases s.opening_cases t turn.state with ⟨-, hsame⟩ | ⟨p, hp, -⟩
    · exact hsame
    · exact absurd hp (hmakes p)
  · rcases hquiet with hk | ⟨hc, hf⟩
    · exact .inl ⟨hk, Store.reads_of_kind hk⟩
    · exact .inr ⟨hf, Store.undone_of_saysOrFail hc⟩

/-- Two services that nobody but this client can tell apart. -/
structure SameBut (x : ConnectionId) (a b : Service σ) : Prop where
  state : a.state = b.state
  outcome : a.outcome = b.outcome
  handlers : ∀ y, y ≠ x → a.handler? y = b.handler? y
  sent : ∀ y, y ≠ x → a.sent y = b.sent y

theorem sameBut_of_without {a b : Service σ} (h : a.without x = b) : SameBut x a b := by
  have hhandlers : ∀ y, y ≠ x → a.handler? y = b.handler? y := fun y hy => by
    rw [← h, handler?_without hy]
  exact ⟨congrArg (·.state) h, congrArg (·.outcome) h, hhandlers,
    fun y hy => by rw [sent, sent, hhandlers y hy]⟩

/-- A client that changes nothing is not noticed by anyone else, over any library that keeps the
laws. Whatever it sends and whenever it connects and leaves, all that commands share, the end of
accepting, the commands of all others with the state they were executed over, what others are sent
and how their connections end are the same in the run without it. -/
theorem run_without_harmless (x : ConnectionId) :
    (∀ (E : Engine) (s : Service E.World) (es : List (E.Outside × Event)),
      E.Transactional → E.Confined → s.handlers = [] →
      (∀ t ∈ s.turnsAmid E.execution es, t.2.id = x → t.2.Harmless E t.1) →
        SameBut x (s.runAmid E.execution es)
          (s.runAmid E.execution (es.filter (·.2.client? ≠ some x))) ∧
        (s.turnsAmid E.execution es).filter (·.2.id ≠ x) =
          s.turnsAmid E.execution (es.filter (·.2.client? ≠ some x))) ∧
    ∀ (s : Store) (t : Executor.Trouble) (turn : Turn Machine),
      turn.command.limitsMemory = false → (∀ p, ¬ s.MakesOn t turn.state p) →
      (turn.command.kind = .read ∨ turn.command.saysOrFail = false ∧
        (turn.response (s.engine.execution t)).isSuccess = false) →
        Turn.Harmless s.engine t turn := by
  refine ⟨fun E s es hE hconfined hs hx => ?_,
    fun s t turn hlimit hmakes hquiet => harmless_engine hlimit hmakes hquiet⟩
  obtain ⟨hrun, hturns⟩ := run_without (s := s)
    fun t ht hid => (hx t ht hid).after hE hconfined
  have hnobody : s.without x = s := by rw [without, hs, List.filter_nil, ← hs]
  rw [hnobody] at hrun hturns
  exact ⟨sameBut_of_without hrun, hturns⟩

/-- One client reads and then sends too much, between the bytes of another one's command. -/
theorem run_without_harmless_oversized :
    let store : Store := ⟨"a.db", 0⟩
    let m : Machine := ⟨⟨[(["a.db"], .file File.empty)]⟩, {}⟩
    let start : Service Machine := { state := m, frameLimit := 9 }
    let es : List (Executor.Trouble × Event) :=
      [.connect 0 [], .connect 1 [], .arrive 0 (.chunk "BEG".toUTF8.toList),
        .arrive 1 (.chunk ("SELECT 1".toUTF8.toList ++ [0])), .proceed 1, .proceed 1, .proceed 1,
        .arrive 1 (.chunk "SELECT 123".toUTF8.toList), .proceed 1, .proceed 0,
        .arrive 0 (.chunk ("IN".toUTF8.toList ++ [0])), .proceed 0, .proceed 0, .proceed 0].map
          (Executor.calm, ·)
    (∀ t ∈ start.turnsAmid store.engine.execution es, t.2.id = 1 →
        Turn.Harmless store.engine t.1 t.2) ∧
      (start.runAmid store.engine.execution es).sent 0 = Frame.encode "SUCCESS" ∧
      (start.runAmid store.engine.execution (es.filter (·.2.client? ≠ some 1))).sent 0 =
        Frame.encode "SUCCESS" := by
  intro store m start es
  have hreads : ∀ t ∈ start.turnsAmid store.engine.execution es, t.2.id = 1 →
      t.2.command.kind = .read ∧ t.2.command.limitsMemory = false := by
    decide +kernel
  have hnone : ∀ t m' p, ¬ store.MakesOn t m' p := by
    rintro t m' p ⟨-, -, ⟨i, hl⟩, -⟩
    have hname : Location.ofName "a.db" .write = .ok ⟨.path ["a.db"], .write, false⟩ := rfl
    cases hname.symm.trans hl
  obtain ⟨hlaw, hstore⟩ := run_without_harmless 1
  have hx : ∀ t ∈ start.turnsAmid store.engine.execution es, t.2.id = 1 →
      Turn.Harmless store.engine t.1 t.2 := by
    intro t ht hid
    obtain ⟨hk, hlimit⟩ := hreads t ht hid
    exact hstore store t.1 t.2 hlimit (hnone t.1 t.2.state) (.inl hk)
  have hsent : (start.runAmid store.engine.execution es).sent 0 = Frame.encode "SUCCESS" := by
    decide +kernel
  obtain ⟨hsame, -⟩ := hlaw store.engine start es (Store.transactional_engine store)
    (Store.confined_engine store) rfl hx
  exact ⟨hx, hsent, (hsame.sent 0 (by decide)).symm.trans hsent⟩

/-- Clients that cannot be taken out of a run although their command is a failure. The first one
leaves no memory for the command of another one; the second one makes the file of a store that was
missing. -/
theorem run_without_noticed :
    (let store : Store := ⟨"a.db", 0⟩
      let start : Service Machine :=
        { state := ⟨⟨[(["a.db"], .file File.empty)]⟩, {}⟩, frameLimit := 99 }
      let es : List (Executor.Trouble × Event) :=
        [.connect 0 [], .connect 1 [],
          .arrive 1 (.chunk ("PRAGMA hard_heap_limit=1; x".toUTF8.toList ++ [0])),
          .proceed 1, .proceed 1, .proceed 1,
          .arrive 0 (.chunk ("SELECT 1".toUTF8.toList ++ [0])), .proceed 0, .proceed 0,
          .proceed 0].map (Executor.calm, ·)
      (start.runAmid store.engine.execution es).sent 1 =
          Frame.encode "ERROR: near \"x\": syntax error" ∧
        (start.runAmid store.engine.execution es).sent 0 = Frame.encode "ERROR: a.db" ∧
        (start.runAmid store.engine.execution (es.filter (·.2.client? ≠ some 1))).sent 0 =
          Frame.encode "SUCCESS|(1,)") ∧
    (let store : Store := ⟨"file:x.db?mode=memory&mode=rwc", 0⟩
      let start : Service Machine := { state := ⟨{}, {}⟩, frameLimit := 99 }
      let es : List (Executor.Trouble × Event) :=
        [.connect 1 [], .arrive 1 (.chunk ("SELECT * FROM nope".toUTF8.toList ++ [0])),
          .proceed 1, .proceed 1, .proceed 1].map (Executor.calm, ·)
      (start.runAmid store.engine.execution es).sent 1 =
          Frame.encode "ERROR: no such table: nope" ∧
        ((start.runAmid store.engine.execution es).state.files.file? ["x.db"]).isSome ∧
        ((start.runAmid store.engine.execution (es.filter (·.2.client? ≠ some 1))).state.files.file?
          ["x.db"]).isNone) := by
  decide +kernel

end Service
end QueryServer
