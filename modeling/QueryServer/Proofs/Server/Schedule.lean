import QueryServer.Proofs.Server.Account
/-!
Many clients at once. In every run the commands of each client are executed one by one in the order
in which it sent them, however the clients take turns, and each client is sent the responses to its
own commands.
-/

namespace QueryServer.Service
open Handler (Account received replies)

variable {σ : Type} (execution : Execution σ) {s : Service σ} {x y : ConnectionId}

/-- What an event brings to the handler of a client. -/
def arrival? (s : Service σ) (y : ConnectionId) : Event → Option Arrival
  | .arrive id a => if id = y ∧ (s.handler? y).isSome then some a else none
  | _ => none

/-- All that is handed to the handler of a client in a run. -/
def delivered (s : Service σ) (y : ConnectionId) : List Event → List Arrival
  | [] => []
  | e :: es => (s.arrival? y e).toList ++ delivered (s.step execution e) y es

/-- The turns of one client. -/
def turnsOf (s : Service σ) (y : ConnectionId) (es : List Event) : List (Turn σ) :=
  (s.turns execution es).filter (·.id = y)

/-- The handler of a client and its account, once the client has connected. -/
def Tracked (limit : Nat) (arrived : List Arrival) (mine : List (Turn σ)) : Option Handler → Prop
  | none => arrived = [] ∧ mine = []
  | some h =>
    Account limit arrived (mine.map (·.command)) (mine.map (·.response execution)) h

theorem tracked_fresh (hs : s.handlers = []) (limit : Nat) (y : ConnectionId) :
    Tracked execution limit [] [] (s.handler? y) := by
  simp [handler?, hs, Tracked]

theorem frameLimit_step (e : Event) : (s.step execution e).frameLimit = s.frameLimit := by
  cases e with
  | connect id acceptances =>
    simp only [step, connect]
    split <;> rfl
  | arrive id a =>
    simp only [step, arrive]
    split <;> rfl
  | proceed id =>
    simp only [step, proceed]
    split
    · rfl
    · split <;> rfl
  | shutdown | acceptFault =>
    simp only [step, finish]
    split <;> rfl

theorem frameLimit_run (es : List Event) : (s.run execution es).frameLimit = s.frameLimit := by
  induction es generalizing s with
  | nil => rfl
  | cons e es ih => rw [run_cons, ih, frameLimit_step]

variable {execution} {arrived : List Arrival} {mine : List (Turn σ)}

/-- All that an event can do to the handler of a client. -/
inductive Moved (execution : Execution σ) (s : Service σ) (y : ConnectionId) (e : Event) :
    Option Handler → Prop where
  | same (harrival : s.arrival? y e = none) (hturn : (s.turn? e).toList.filter (·.id = y) = []) :
      Moved execution s y e (s.handler? y)
  | connected (acceptances : List Acceptance) (he : e = .connect y acceptances)
      (hy : s.handler? y = none) :
      Moved execution s y e (some (.ofArrivals s.frameLimit [] acceptances))
  | arrived (h : Handler) (a : Arrival) (he : e = .arrive y a) (hy : s.handler? y = some h) :
      Moved execution s y e (some { h with connection :=
        { h.connection with arrivals := h.connection.arrivals ++ [a] } })
  | proceeded (h : Handler) (next : σ × Handler) (he : e = .proceed y)
      (hy : s.handler? y = some h) (hstep : h.step? execution s.state = some next) :
      Moved execution s y e (some next.2)

theorem moved_connect (id : ConnectionId) (acceptances : List Acceptance) :
    Moved execution s y (.connect id acceptances) ((s.connect id acceptances).handler? y) := by
  unfold connect
  split
  · rename_i hopen
    rw [Bool.and_eq_true, Option.isNone_iff_eq_none] at hopen
    have hlookup : ({ s with handlers := s.handlers ++
        [(id, Handler.ofArrivals s.frameLimit [] acceptances)] } : Service σ).handler? y =
        (s.handler? y).or ([(id, Handler.ofArrivals s.frameLimit [] acceptances)].lookup y) :=
      List.lookup_append
    rw [hlookup]
    by_cases hid : id = y
    · subst hid
      rw [hopen.2]
      simpa using Moved.connected acceptances rfl hopen.2
    · have hne : (y == id) = false := by simpa using Ne.symm hid
      simpa [List.lookup_cons, hne] using
        Moved.same (e := .connect id acceptances) (s := s) (y := y) rfl rfl
  · exact .same rfl rfl

theorem moved_arrive (id : ConnectionId) (a : Arrival) :
    Moved execution s y (.arrive id a) ((s.arrive id a).handler? y) := by
  by_cases hid : id = y
  · subst hid
    cases hx : s.handler? id with
    | none =>
      have hsame : s.arrive id a = s := by simp [arrive, hx]
      rw [hsame]
      exact .same (by simp [arrival?, hx]) rfl
    | some h =>
      rw [arrive_of_some hx, handler?_put_self hx]
      exact .arrived h a rfl hx
  · have hsame : (s.arrive id a).handler? y = s.handler? y := by
      unfold arrive
      split
      · exact handler?_put_other (Ne.symm hid) _
      · rfl
    rw [hsame]
    exact .same (by simp [arrival?, hid]) rfl

theorem moved_proceed (id : ConnectionId) :
    Moved execution s y (.proceed id) ((s.proceed execution id).handler? y) := by
  by_cases hid : id = y
  · subst hid
    cases hx : s.handler? id with
    | none =>
      rw [proceed_of_none hx]
      exact .same rfl (by simp [turn?, hx])
    | some h =>
      cases hstep : h.step? execution s.state with
      | none =>
        rw [proceed_of_stuck hx hstep]
        exact .same rfl (by simp [turn?_of_stuck hx hstep])
      | some next =>
        have hnext : (s.proceed execution id).handler? id = some next.2 := by
          rw [proceed_of_step hx hstep]
          exact handler?_put_self hx next.2
        rw [hnext]
        exact .proceeded h next rfl hx hstep
  · have hothers : (s.turn? (.proceed id)).toList.filter (·.id = y) = [] := by
      cases hturn : s.turn? (.proceed id) with
      | none => rfl
      | some t =>
        have hid' : id = t.id := Option.some.inj (id_of_turn? hturn).1
        have hne : t.id ≠ y := hid' ▸ hid
        simp [hne]
    have hsame : (s.proceed execution id).handler? y = s.handler? y := by
      unfold proceed
      split
      · rfl
      · split
        · rfl
        · exact handler?_put_other (Ne.symm hid) _
    rw [hsame]
    exact .same rfl hothers

theorem moved (execution : Execution σ) (s : Service σ) (y : ConnectionId) (e : Event) :
    Moved execution s y e ((s.step execution e).handler? y) := by
  cases e with
  | connect id acceptances => exact moved_connect id acceptances
  | arrive id a => exact moved_arrive id a
  | proceed id => exact moved_proceed id
  | shutdown | acceptFault =>
    rw [step, handler?, handlers_finish]
    exact .same rfl rfl

theorem tracked_step (ht : Tracked execution s.frameLimit arrived mine (s.handler? y))
    (e : Event) :
    Tracked execution s.frameLimit (arrived ++ (s.arrival? y e).toList)
      (mine ++ (s.turn? e).toList.filter (·.id = y)) ((s.step execution e).handler? y) := by
  have hmoved := moved execution s y e
  generalize (s.step execution e).handler? y = after at hmoved ⊢
  cases hmoved with
  | same harrival hturn => simpa [harrival, hturn] using ht
  | connected acceptances he hy =>
    rw [hy] at ht
    obtain ⟨rfl, rfl⟩ := ht
    simpa [he, arrival?, turn?, Tracked] using Account.fresh s.frameLimit acceptances
  | arrived h a he hy =>
    rw [hy] at ht
    simpa [he, arrival?, turn?, hy, Tracked] using Account.arrive ht a
  | proceeded h next he hy hstep =>
    rw [hy] at ht
    subst he
    rcases Account.step ht hstep with ⟨c, hp, hafter⟩ | ⟨hp, hafter⟩
    · rw [turn?_proceed hy, hp]
      simpa [arrival?, Tracked, Turn.response] using hafter
    · rw [turn?_of_other hy hp]
      simpa [arrival?, Tracked] using hafter

/-- The accounts are kept over a whole run. -/
theorem tracked_run (ht : Tracked execution s.frameLimit arrived mine (s.handler? y))
    (es : List Event) :
    Tracked execution s.frameLimit (arrived ++ s.delivered execution y es)
      (mine ++ s.turnsOf execution y es) ((s.run execution es).handler? y) := by
  induction es generalizing s arrived mine with
  | nil => simpa [delivered, turnsOf, turns] using ht
  | cons e es ih =>
    have hrest := ih (s := s.step execution e) (by
      rw [frameLimit_step]
      exact tracked_step ht e)
    rw [frameLimit_step] at hrest
    simpa [delivered, turnsOf, turns] using hrest

/-- The handler of a client waits for it, or has closed. -/
def Resting (execution : Execution σ) (s : Service σ) (y : ConnectionId) : Prop :=
  ∀ h, s.handler? y = some h → h.step? execution s.state = none

/-- A handler that is let go on comes to rest. -/
theorem exists_resting (ht : Tracked execution s.frameLimit arrived mine (s.handler? y)) :
    ∃ n, (s.run execution (List.replicate n (.proceed y))).Resting execution y := by
  cases hy : s.handler? y with
  | none => exact ⟨0, fun h hh => by simp [hy] at hh⟩
  | some h =>
    rw [hy] at ht
    induction hwork : h.work s.frameLimit using Nat.strongRecOn
      generalizing s h arrived mine with
    | _ m ih =>
      cases hstep : h.step? execution s.state with
      | none =>
        refine ⟨0, fun g hg => ?_⟩
        obtain rfl : h = g := Option.some.inj (hy.symm.trans hg)
        exact hstep
      | some next =>
        obtain ⟨state, h'⟩ := next
        have hless := Handler.work_decreases (Account.reader ht) hstep
        have hlimit := frameLimit_step execution (s := s) (.proceed y)
        have hnext : (s.step execution (.proceed y)).handler? y = some h' := by
          rw [step, proceed_of_step hy hstep]
          exact handler?_put_self hy h'
        have htracked := tracked_step (s := s) (y := y) (hy ▸ ht) (.proceed y)
        rw [hnext, ← hlimit] at htracked
        rw [hwork] at hless
        obtain ⟨n, hn⟩ := ih _ (hlimit ▸ hless) h' htracked hnext rfl
        exact ⟨n + 1, by rwa [List.replicate_succ, run_cons]⟩

/-- The part of one client in a run that ends with the state `s` and with its handler `h`, if these
are the complete frames that have come from it. -/
structure Served (execution : Execution σ) (frames : List Command) (mine : List (Turn σ)) (s : σ)
    (h : Handler) : Prop where
  /-- Frames are executed in the order in which they came, and none of them twice. -/
  inOrder : mine.map (·.command) <+: frames
  answered : h.connection.writer.sent <+: replies (mine.map (·.response execution))
  /-- When the handler has come to rest, every frame has been executed and answered, unless a reply
  could not be written. -/
  complete : h.step? execution s = none → ¬ h.Severed →
    mine.map (·.command) = frames ∧
      h.connection.writer.sent = replies (mine.map (·.response execution))

theorem served_run (hs : s.handlers = []) (es : List Event) {h : Handler}
    (hy : (s.run execution es).handler? y = some h) :
    Served execution (received s.frameLimit (s.delivered execution y es))
      (s.turnsOf execution y es) (s.run execution es).state h := by
  have htracked := tracked_run (tracked_fresh execution hs s.frameLimit y) es
  rw [hy, List.nil_append, List.nil_append] at htracked
  exact ⟨Account.commands_prefix htracked, Account.sent_prefix htracked,
    Account.complete htracked⟩

end QueryServer.Service
