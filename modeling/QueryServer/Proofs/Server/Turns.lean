import QueryServer.Proofs.Server.Conversation
import QueryServer.Server.Service
/-!
The history of a service: which command was executed when, for which client and over which state.
Nothing but these turns changes the shared state, and an event touches one handler at most.
-/

namespace QueryServer

/-- What one step of a handler can do. -/
inductive Handler.Stepped {σ : Type} (run : Execution σ) (s : σ) (h : Handler) :
    σ × Handler → Prop where
  | read (result : Option Reader.Result) (c : Connection) (hp : h.phase = .reading)
      (hpoll : h.connection.pollFrame = (result, c))
      (hwait : result = none → h.connection.arrivals ≠ []) :
      Stepped run s h (s, ⟨c, Handler.afterRead result⟩)
  | executed (command : Command) (hp : h.phase = .executing command) :
      Stepped run s h ((run s command).1,
        ⟨h.connection, .replying (run s command).2.render⟩)
  | sent (text : String) (c : Connection) (hp : h.phase = .replying text)
      (hwrite : h.connection.writeFrame text = (.ok (), c)) : Stepped run s h (s, ⟨c, .reading⟩)
  | severed (text : String) (c : Connection) (f : WriteFault) (hp : h.phase = .replying text)
      (hwrite : h.connection.writeFrame text = (.error f, c)) :
      Stepped run s h (s, ⟨c, .closed (.write f)⟩)

theorem Handler.stepped_of_step? {σ : Type} {run : Execution σ} {s : σ} {h : Handler}
    {next : σ × Handler} (hstep : h.step? run s = some next) : h.Stepped run s next := by
  unfold step? at hstep
  cases hp : h.phase with
  | closed reason => simp [hp] at hstep
  | executing command =>
    simp only [hp, Option.some.injEq] at hstep
    subst hstep
    exact .executed command hp
  | reading =>
    rcases hpoll : h.connection.pollFrame with ⟨result, c⟩
    simp only [hp, hpoll] at hstep
    split at hstep
    · cases hstep
    · rename_i hwait
      cases hstep
      exact .read result c hp hpoll fun hr => by simpa [hr] using hwait
  | replying text =>
    rcases hwrite : h.connection.writeFrame text with ⟨result, c⟩
    simp only [hp, hwrite] at hstep
    cases result with
    | ok done =>
      cases hstep
      exact .sent text c hp hwrite
    | error f =>
      cases hstep
      exact .severed text c f hp hwrite

namespace Service

variable {σ : Type} {execution : Execution σ} {s : Service σ} {x y : ConnectionId} {h : Handler}

/-- The execution of one command for a client, with the state it was executed over. -/
structure Turn (σ : Type) where
  id : ConnectionId
  command : Command
  state : σ

def Turn.response (execution : Execution σ) (t : Turn σ) : Response :=
  (execution t.state t.command).2

/-- The state that it leaves. -/
def Turn.after (execution : Execution σ) (t : Turn σ) : σ :=
  (execution t.state t.command).1

/-- The client that an event is about. -/
def Event.client? : Event → Option ConnectionId
  | connect id _ => some id
  | arrive id _ => some id
  | proceed id => some id
  | shutdown => none
  | acceptFault _ => none

/-- What is executed in an event. -/
def turn? (s : Service σ) : Event → Option (Turn σ)
  | .proceed id =>
    match s.handler? id with
    | some ⟨_, .executing c⟩ => some ⟨id, c, s.state⟩
    | _ => none
  | _ => none

/-- All that is executed in a run, in its order. -/
def turns (execution : Execution σ) (s : Service σ) : List Event → List (Turn σ)
  | [] => []
  | e :: es => (s.turn? e).toList ++ turns execution (s.step execution e) es

@[simp] theorem run_nil : s.run execution [] = s := rfl

@[simp] theorem run_cons (e : Event) (es : List Event) :
    s.run execution (e :: es) = (s.step execution e).run execution es := rfl

theorem run_append (es es' : List Event) :
    s.run execution (es ++ es') = (s.run execution es).run execution es' :=
  List.foldl_append

theorem turns_append (es es' : List Event) :
    s.turns execution (es ++ es') =
      s.turns execution es ++ (s.run execution es).turns execution es' := by
  induction es generalizing s with
  | nil => rfl
  | cons e es ih => simp [turns, ih]

theorem lookup_map_replace (handlers : List (ConnectionId × Handler)) (x : ConnectionId)
    (h : Handler) (y : ConnectionId) :
    (handlers.map fun (i, g) => if i = x then (i, h) else (i, g)).lookup y =
      if y = x then (handlers.lookup x).map fun _ => h else handlers.lookup y := by
  induction handlers with
  | nil => simp
  | cons entry handlers ih =>
    obtain ⟨i, g⟩ := entry
    rw [List.map_cons]
    by_cases hy : y = i
    · by_cases hi : i = x <;> simp [hy, hi]
    · have hyi : (y == i) = false := by simpa using hy
      by_cases hi : i = x
      · have hyx : y ≠ x := hi ▸ hy
        rw [if_neg hyx] at ih ⊢
        simp only [hi, if_true, List.lookup_cons, hi ▸ hyi, ih]
      · have hxi : (x == i) = false := by simpa using Ne.symm hi
        simp only [hi, if_false, List.lookup_cons, hyi, hxi, ih]

theorem handler?_put (s : Service σ) (x : ConnectionId) (h : Handler) (y : ConnectionId) :
    (s.put x h).handler? y = if y = x then (s.handler? x).map fun _ => h else s.handler? y :=
  lookup_map_replace s.handlers x h y

theorem handler?_put_self (hx : s.handler? x = some h) (g : Handler) :
    (s.put x g).handler? x = some g := by
  simp [handler?_put, hx]

theorem handler?_put_other (hy : y ≠ x) (g : Handler) :
    (s.put x g).handler? y = s.handler? y := by
  simp [handler?_put, hy]

theorem handlers_finish (s : Service σ) (outcome : Except String Unit) :
    (s.finish outcome).handlers = s.handlers := by
  unfold finish
  split <;> rfl

theorem arrive_of_some (hx : s.handler? x = some h) (a : Arrival) :
    s.arrive x a = s.put x { h with connection :=
      { h.connection with arrivals := h.connection.arrivals ++ [a] } } := by
  simp [arrive, hx]

theorem proceed_of_none (hx : s.handler? x = none) : s.proceed execution x = s := by
  simp [proceed, hx]

theorem proceed_of_stuck (hx : s.handler? x = some h) (hstep : h.step? execution s.state = none) :
    s.proceed execution x = s := by
  simp [proceed, hx, hstep]

theorem proceed_of_step {state : σ} {h' : Handler} (hx : s.handler? x = some h)
    (hstep : h.step? execution s.state = some (state, h')) :
    s.proceed execution x = { s.put x h' with state } := by
  simp [proceed, hx, hstep]

theorem turn?_proceed (hx : s.handler? x = some h) : s.turn? (.proceed x) =
    match h.phase with
    | .executing c => some ⟨x, c, s.state⟩
    | _ => none := by
  obtain ⟨connection, phase⟩ := h
  cases phase <;> simp [turn?, hx]

theorem id_of_turn? {e : Event} {t : Turn σ} (ht : s.turn? e = some t) :
    e.client? = some t.id ∧ t.state = s.state := by
  unfold turn? at ht
  split at ht
  · split at ht
    · cases ht
      exact ⟨rfl, rfl⟩
    · cases ht
  · cases ht

/-- Only the execution of a command changes the shared state. -/
theorem state_of_step? {state : σ} {h' : Handler} (hx : s.handler? x = some h)
    (hstep : h.step? execution s.state = some (state, h')) :
    state = ((s.turn? (.proceed x)).map (·.after execution)).getD s.state := by
  rw [turn?_proceed hx]
  cases Handler.stepped_of_step? hstep with
  | read result c hp => simp [hp]
  | executed command hp => simp [hp, Turn.after]
  | sent text c hp => simp [hp]
  | severed text c f hp => simp [hp]

theorem turn?_of_other (hx : s.handler? x = some h) (hp : ∀ c, h.phase ≠ .executing c) :
    s.turn? (.proceed x) = none := by
  rw [turn?_proceed hx]
  cases hphase : h.phase with
  | executing c => exact absurd hphase (hp c)
  | reading | replying | closed => rfl

/-- A handler with a command executes it. -/
theorem turn?_of_stuck (hx : s.handler? x = some h)
    (hstep : h.step? execution s.state = none) : s.turn? (.proceed x) = none := by
  refine turn?_of_other hx fun c hp => ?_
  simp [Handler.step?, hp] at hstep

theorem state_step (execution : Execution σ) (s : Service σ) (e : Event) : (s.step execution e).state =
    ((s.turn? e).map (·.after execution)).getD s.state := by
  cases e with
  | connect x acceptances =>
    simp only [step, connect]
    split <;> rfl
  | arrive x a =>
    simp only [step, arrive]
    split <;> rfl
  | shutdown | acceptFault message =>
    simp only [step, finish]
    split <;> rfl
  | proceed x =>
    rw [step]
    cases hx : s.handler? x with
    | none => rw [proceed_of_none hx]; simp [turn?, hx]
    | some h =>
      cases hstep : h.step? execution s.state with
      | some next => rw [proceed_of_step hx hstep, ← state_of_step? hx hstep]
      | none =>
        rw [proceed_of_stuck hx hstep, turn?_of_stuck hx hstep]
        rfl

/-- The turns of a run answer their commands one after another. -/
theorem answers_turns (es : List Event) :
    Handler.answers execution s.state ((s.turns execution es).map (·.command)) =
      ((s.turns execution es).map (·.response execution), (s.run execution es).state) := by
  induction es generalizing s with
  | nil => rfl
  | cons e es ih =>
    have hstate := s.state_step execution e
    cases ht : s.turn? e with
    | none =>
      rw [ht] at hstate
      simpa [turns, ht, hstate] using ih (s := s.step execution e)
    | some t =>
      have hrest := ih (s := s.step execution e)
      rw [ht] at hstate
      rw [hstate] at hrest
      obtain ⟨-, hbefore⟩ := id_of_turn? ht
      simp only [turns, ht, Option.toList_some, List.singleton_append, List.map_cons, run_cons,
        Handler.answers, ← hbefore]
      simp only [Option.map_some, Option.getD_some, Turn.after] at hrest
      rw [hrest]
      rfl

end Service
end QueryServer
