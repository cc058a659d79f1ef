import QueryServer.Proofs.Server.Turns
/-!
The end of accepting. Main statement: a service that is shut down returns without an error and takes
on no one else, and it goes on with the clients that it has as if nothing had happened.
-/

namespace QueryServer.Service

variable {σ : Type} (execution : Execution σ) {s : Service σ}

/-- Events in the work for a client that is connected already. -/
def Event.serves : Event → Bool
  | arrive .. => true
  | proceed .. => true
  | connect .. => false
  | shutdown => false
  | acceptFault .. => false

/-- The connections that a service has accepted, in their order. -/
def connections (s : Service σ) : List ConnectionId :=
  s.handlers.map (·.1)

theorem connections_put (s : Service σ) (id : ConnectionId) (h : Handler) :
    (s.put id h).connections = s.connections := by
  simp only [connections, put, List.map_map]
  refine List.map_congr_left fun entry _ => ?_
  simp only [Function.comp_apply]
  split <;> rfl

theorem connections_step {e : Event} (he : e.serves = true) :
    (s.step execution e).connections = s.connections := by
  cases e with
  | arrive id a =>
    simp only [step, arrive]
    split
    · exact connections_put s id _
    · rfl
  | proceed id =>
    simp only [step, proceed]
    split
    · rfl
    · split
      · rfl
      · exact connections_put s id _
  | connect | shutdown | acceptFault => cases he

/-- Work for clients goes on whether or not accepting has ended, and does not end it. -/
theorem step_serves {e : Event} (he : e.serves = true) (outcome : Option (Except String Unit)) :
    ({ s with outcome } : Service σ).step execution e =
      { s.step execution e with outcome } ∧
    ({ s with outcome } : Service σ).turn? e = s.turn? e := by
  cases e with
  | arrive id a =>
    refine ⟨?_, rfl⟩
    have hsame : ({ s with outcome } : Service σ).handler? id = s.handler? id := rfl
    simp only [step, arrive, hsame]
    cases s.handler? id <;> rfl
  | proceed id =>
    refine ⟨?_, rfl⟩
    have hsame : ({ s with outcome } : Service σ).handler? id = s.handler? id := rfl
    simp only [step, proceed, hsame]
    cases s.handler? id with
    | none => rfl
    | some h =>
      dsimp only
      cases h.step? execution s.state <;> rfl
  | connect | shutdown | acceptFault => cases he

theorem step_ended {e : Event} (he : e.serves = false) (hs : s.accepting = false) :
    s.step execution e = s ∧ s.turn? e = none := by
  cases e with
  | connect id acceptances => exact ⟨by simp [step, connect, hs], rfl⟩
  | shutdown | acceptFault => exact ⟨by simp [step, finish, hs], rfl⟩
  | arrive | proceed => cases he

/-- Once accepting has ended, only the work for clients makes a difference. -/
theorem run_ended (outcome : Except String Unit) (es : List Event) :
    ({ s with outcome := some outcome } : Service σ).run execution es =
      { s.run execution (es.filter (·.serves)) with outcome := some outcome } ∧
    ({ s with outcome := some outcome } : Service σ).turns execution es =
      s.turns execution (es.filter (·.serves)) := by
  induction es generalizing s with
  | nil => exact ⟨rfl, rfl⟩
  | cons e es ih =>
    cases he : e.serves with
    | true =>
      obtain ⟨hstep, hturn⟩ := step_serves execution (s := s) he (some outcome)
      obtain ⟨hrun, hturns⟩ := ih (s := s.step execution e)
      simp only [List.filter_cons_of_pos he, run_cons, turns, hstep, hturn, hrun, hturns, and_self]
    | false =>
      obtain ⟨hstep, hturn⟩ := step_ended execution
        (s := { s with outcome := some outcome }) he rfl
      rw [List.filter_cons_of_neg (by simp [he]), run_cons, turns, hstep, hturn]
      exact ih

theorem connections_run {es : List Event} (hes : ∀ e ∈ es, e.serves = true) :
    (s.run execution es).connections = s.connections := by
  induction es generalizing s with
  | nil => rfl
  | cons e es ih =>
    rw [run_cons, ih fun x hx => hes x (List.mem_cons_of_mem e hx),
      connections_step execution (hes e List.mem_cons_self)]

/-- Whenever a service that still accepts connections is told to stop, it ends without an error,
has no further connections, and from then on does for the connected clients and to the shared state
what it would have done without that. -/
theorem run_shutdown (s : Service σ) (before later : List Event)
    (hs : (s.run execution before).accepting = true) :
    let stopped := s.run execution (before ++ .shutdown :: later)
    let going := s.run execution (before ++ later.filter (·.serves))
    stopped.outcome = some (.ok ()) ∧
      stopped.connections = (s.run execution before).connections ∧
      s.turns execution (before ++ .shutdown :: later) =
        s.turns execution (before ++ later.filter (·.serves)) ∧
      stopped.state = going.state ∧
      ∀ id, stopped.handler? id = going.handler? id ∧ stopped.sent id = going.sent id := by
  have hstep : (s.run execution before).step execution .shutdown =
      { s.run execution before with outcome := some (.ok ()) } := by
    simp [step, finish, hs]
  obtain ⟨hrun, hturns⟩ := run_ended execution (s := s.run execution before) (.ok ()) later
  have hserves : ∀ e ∈ later.filter (·.serves), e.serves = true :=
    fun e he => (List.mem_filter.mp he).2
  have hstopped : s.run execution (before ++ .shutdown :: later) =
      { s.run execution (before ++ later.filter (·.serves)) with outcome := some (.ok ()) } := by
    rw [run_append, run_cons, hstep, hrun, run_append]
  rw [hstopped]
  refine ⟨rfl, ?_, ?_, rfl, fun id => ⟨rfl, rfl⟩⟩
  · have hsame := connections_run execution (s := s.run execution before) hserves
    rw [← run_append] at hsame
    exact hsame
  · simp only [turns_append, turns, hstep, hturns]
    rfl

/-- A client that is in the middle of its command, and one that comes too late. -/
theorem run_shutdown_midway :
    let store : Store := ⟨"a.db", 0⟩
    let before : List Event := [.connect 0 [], .arrive 0 (.chunk [32]), .proceed 0]
    let later : List Event := [.connect 1 [], .arrive 0 (.chunk [0]), .proceed 0, .proceed 0,
      .proceed 0]
    let start : Service Disk := { state := {} }
    (start.run store.execution before).accepting = true ∧
      (start.run store.execution (before ++ .shutdown :: later)).outcome = some (.ok ()) ∧
      (start.run store.execution (before ++ .shutdown :: later)).connections = [0] ∧
      (start.run store.execution (before ++ .shutdown :: later)).sent 0 =
        (start.run store.execution (before ++ later.filter (·.serves))).sent 0 := by
  intro store before later start
  have hstart : (start.run store.execution before).accepting = true := by decide
  obtain ⟨houtcome, hconnections, -, -, hclients⟩ :=
    run_shutdown store.execution start before later hstart
  exact ⟨hstart, houtcome, hconnections.trans (by decide), (hclients 0).2⟩

end QueryServer.Service
