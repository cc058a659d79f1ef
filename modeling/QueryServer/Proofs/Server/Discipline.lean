import QueryServer.Proofs.Server.Moment
/-!
The discipline of a handler at every point of its work, each single write of a reply included. Main
statement: no command is read or executed while a reply is not out to its last byte, and nothing is
done after the first failure; so at most the last command that was executed has not been answered.
-/

namespace QueryServer.Handler

variable {σ : Type} {run : Execution σ} {s₀ : σ}

/-- What is true of a handler between any two of the things that it does, when it began over the
state `s₀`. -/
structure Moment.Sound (run : Execution σ) (s₀ : σ) (m : Moment σ) : Prop where
  orderly : Orderly m.acts
  stage : Stage m.acts m.handler.phase m.sending m.handler.connection.writer.backlog
  sent : m.handler.connection.writer.sent = acceptedIn m.acts
  state : answers run s₀ (commandsOf m.acts) = (responsesOf m.acts, m.state)

theorem answers_snoc (run : Execution σ) (s : σ) (cs : List Command) (c : Command) :
    answers run s (cs ++ [c]) =
      ((answers run s cs).1 ++ [(run (answers run s cs).2 c).2], (run (answers run s cs).2 c).1) := by
  induction cs generalizing s with
  | nil => rfl
  | cons x cs ih => simp [answers, ih]

namespace Moment.Sound

variable {m m' : Moment σ}

theorem read (h : m.Sound run s₀) (hp : m.handler.phase = .reading)
    (hn : m.next? run = some m') : m'.Sound run s₀ := by
  obtain ⟨s, ⟨c, phase⟩, sending, acts⟩ := m
  obtain rfl : phase = .reading := hp
  obtain ⟨horderly, hstage, hsent, hstate⟩ := h
  dsimp only at horderly hstage hsent hstate
  generalize hb : c.writer.backlog = backlog at hstage
  cases hstage with
  | reading taken out going =>
    rcases hpoll : c.pollFrame with ⟨result, c'⟩
    have hw : c'.writer = c.writer := by
      rw [← pollFrame_writer c, hpoll]
    cases result with
    | none =>
      simp only [next?, hpoll] at hn
      split at hn
      · simp at hn
      · obtain rfl := Option.some.inj hn
        exact ⟨horderly, by simpa [hw, hb] using .reading taken out going, by simpa [hw] using hsent,
          hstate⟩
    | some result =>
      simp only [next?, hpoll, Option.some.injEq] at hn
      subst hn
      have hstage' := Stage.afterRead taken out going result
      refine ⟨horderly.snoc going (fun _ => out) hstage', ?_, ?_, ?_⟩
      · simpa [hw, hb] using hstage'
      · simpa [hw] using hsent
      · simpa using hstate

theorem execute {command : Command} (h : m.Sound run s₀)
    (hp : m.handler.phase = .executing command) (hn : m.next? run = some m') :
    m'.Sound run s₀ := by
  obtain ⟨s, ⟨c, phase⟩, sending, acts⟩ := m
  obtain rfl : phase = .executing command := hp
  obtain ⟨horderly, hstage, hsent, hstate⟩ := h
  dsimp only at horderly hstage hsent hstate
  generalize hb : c.writer.backlog = backlog at hstage
  cases hstage with
  | executing _ taken out going =>
    simp only [next?, Option.some.injEq] at hn
    subst hn
    have hstage' : Stage (acts ++ [.executed command (run s command).2])
        (.replying (run s command).2.render) false [] := by
      refine .replying (responsesOf acts) _ ?_ ?_ ?_ ?_
      · simpa using taken
      · simp
      · simpa using out
      · exact going_snoc going rfl
    refine ⟨horderly.snoc going (fun _ => out) hstage', ?_, ?_, ?_⟩
    · simpa [hb] using hstage'
    · simpa using hsent
    · simp [answers_snoc, hstate]

theorem reply {text : String} (h : m.Sound run s₀)
    (hp : m.handler.phase = .replying text) (hn : m.next? run = some m') :
    m'.Sound run s₀ := by
  obtain ⟨s, ⟨c, phase⟩, sending, acts⟩ := m
  obtain rfl : phase = .replying text := hp
  obtain ⟨horderly, hstage, hsent, hstate⟩ := h
  dsimp only at horderly hstage hsent hstate
  generalize hb : c.writer.backlog = backlog at hstage
  cases hstage with
  | replying rs r taken responses out going =>
    simp only [next?, Bool.false_eq_true, if_false, Option.some.injEq] at hn
    subst hn
    refine ⟨horderly, ?_, hsent, hstate⟩
    simpa [Writer.enqueue, hb] using .sending rs r [] (Frame.encode r.render) taken responses
      (by simpa using out) rfl going
  | sending rs r part _ taken responses out rest going =>
    obtain ⟨bytes, hgrow, hmove, hend⟩ := c.writer.attempt_moves c.acceptances
    rcases ha : c.writer.attempt c.acceptances with ⟨result, w, script⟩
    rw [ha] at hgrow hmove hend
    dsimp only at hgrow hmove hend
    cases result with
    | none =>
      simp only [next?, if_true, ha, Option.some.injEq] at hn
      subst hn
      have hbytes : w.sent.drop c.writer.sent.length = bytes := by simp [hgrow]
      have hstage' : Stage (acts ++ [.accepted bytes]) (.replying r.render) true w.backlog := by
        refine .sending rs r (part ++ bytes) w.backlog ?_ ?_ ?_ ?_ ?_
        · simpa using taken
        · simpa using responses
        · simp [out]
        · rw [List.append_assoc, hmove, hb, rest]
        · exact going_snoc going rfl
      rw [hbytes]
      refine ⟨horderly.snoc going (by simp) hstage', hstage', ?_, ?_⟩
      · simp [hgrow, hsent]
      · simpa using hstate
    | some result =>
      obtain rfl := hend (by simp)
      rw [List.append_nil] at hgrow
      rw [List.nil_append] at hmove
      cases result with
      | ok _ =>
        simp only [next?, if_true, ha, Option.some.injEq] at hn
        subst hn
        have hempty := (Writer.backlog_of_attempt_ok ha).2.2
        have hstage' : Stage (acts ++ [.wrote (.ok ())]) .reading false [] := by
          rw [hb] at hempty
          rw [hempty, List.append_nil] at rest
          refine .reading ?_ ?_ ?_
          · simpa using taken
          · simp [out, responses, rest, replies_append, replies_singleton]
          · exact going_snoc going rfl
        refine ⟨horderly.snoc going (by simp) hstage', ?_, ?_, ?_⟩
        · simpa [hmove, hempty] using hstage'
        · simpa [hgrow] using hsent
        · simpa using hstate
      | error f =>
        simp only [next?, if_true, ha, Option.some.injEq] at hn
        subst hn
        have hstage' : Stage (acts ++ [.wrote (.error f)]) (.closed (.write f)) false w.backlog := by
          refine .closed _ rs [r] part c.writer.backlog w.backlog ?_ ?_ (by simp) ?_ ?_
          · simpa using taken
          · simpa using responses
          · simpa using out
          · rw [hb, rest, replies_singleton]
        refine ⟨horderly.snoc going (by simp) hstage', hstage', ?_, ?_⟩
        · simpa [hgrow] using hsent
        · simpa using hstate

/-- Whatever a handler does next, all of this stays true. -/
theorem next (h : m.Sound run s₀) (hn : m.next? run = some m') : m'.Sound run s₀ := by
  cases hp : m.handler.phase with
  | reading => exact h.read hp hn
  | executing command => exact h.execute hp hn
  | replying text => exact h.reply hp hn
  | closed reason => simp [next?, hp] at hn

theorem after (h : m.Sound run s₀) (n : Nat) : (m.after run n).Sound run s₀ := by
  induction n generalizing m with
  | zero => exact h
  | succ n ih =>
    rw [Moment.after]
    split
    · exact ih (h.next ‹_›)
    · exact h

theorem start (run : Execution σ) (s : σ) (limit : Nat) (arrivals : List Arrival)
    (acceptances : List Acceptance) :
    (Moment.start s (ofArrivals limit arrivals acceptances)).Sound run s := by
  have hstage : Stage [] .reading false [] := .reading rfl rfl (by simp)
  refine ⟨⟨hstage.lag, hstage.inOrder, hstage.oneByOne, ?_, ?_⟩, hstage, rfl, rfl⟩
  · intro before act later he
    simp [Moment.start] at he
  · intro before act later he
    simp [Moment.start] at he

end Moment.Sound

/-- While a reply is not out, nothing is read and nothing executed. -/
theorem Moment.Sound.held {m : Moment σ} (h : m.Sound run s₀)
    (hout : acceptedIn m.acts ≠ replies (responsesOf m.acts)) :
    (m.after run 1).handler.connection.reader = m.handler.connection.reader ∧
      (m.after run 1).handler.connection.arrivals = m.handler.connection.arrivals ∧
      (m.after run 1).state = m.state ∧ commandsOf (m.after run 1).acts = commandsOf m.acts := by
  cases hn : m.next? run with
  | none => simp [Moment.after, hn]
  | some m' =>
    have hone : m.after run 1 = m' := by simp [Moment.after, hn]
    rw [hone]
    cases hp : m.handler.phase with
    | replying text => exact Moment.next?_of_replying hp hn
    | closed reason => simp [Moment.next?, hp] at hn
    -- before a reply is made, all earlier ones are out
    | reading =>
      have hstage := h.stage
      rw [hp] at hstage
      generalize m.handler.connection.writer.backlog = backlog at hstage
      generalize m.sending = sending at hstage
      cases hstage
      contradiction
    | executing c =>
      have hstage := h.stage
      rw [hp] at hstage
      generalize m.handler.connection.writer.backlog = backlog at hstage
      generalize m.sending = sending at hstage
      cases hstage
      contradiction

/-- A handler that has done `n` things since it began over the state `s`. -/
def point (run : Execution σ) (s : σ) (h : Handler) (n : Nat) : Moment σ :=
  (Moment.start s h).after run n

/-- At every point of every run of a handler, whatever its stream gives and accepts, its acts are
orderly, they account for the bytes that the stream has accepted and for the state; nothing is read
or executed while a reply is not out, and nothing is done after the end; and the steps of the handler
lead from one such point to another. -/
theorem orderly_point (run : Execution σ) (s : σ) (limit : Nat) (arrivals : List Arrival)
    (acceptances : List Acceptance) :
    let h := ofArrivals limit arrivals acceptances
    let moment := point run s h
    (∀ n, Orderly (moment n).acts ∧
      (moment n).handler.connection.writer.sent = acceptedIn (moment n).acts ∧
      answers run s (commandsOf (moment n).acts) =
        (responsesOf (moment n).acts, (moment n).state)) ∧
    (∀ n, acceptedIn (moment n).acts ≠ replies (responsesOf (moment n).acts) →
      (moment (n + 1)).handler.connection.reader = (moment n).handler.connection.reader ∧
      (moment (n + 1)).handler.connection.arrivals = (moment n).handler.connection.arrivals ∧
      (moment (n + 1)).state = (moment n).state ∧
      commandsOf (moment (n + 1)).acts = commandsOf (moment n).acts) ∧
    (∀ n k, (moment n).handler.isClosed = true → moment (n + k) = moment n) ∧
    ∀ k, ∃ n, (moment n).sending = false ∧
      ((moment n).state, (moment n).handler) = h.steps run k s := by
  intro h moment
  have hsound : ∀ n, (moment n).Sound run s :=
    (Moment.Sound.start run s limit arrivals acceptances).after
  have hadd : ∀ n k, moment (n + k) = (moment n).after run k :=
    Moment.after_add (Moment.start s h)
  refine ⟨fun n => ⟨(hsound n).orderly, (hsound n).sent, (hsound n).state⟩, ?_, ?_, ?_⟩
  · intro n hout
    rw [hadd]
    exact (hsound n).held hout
  · intro n k hc
    rw [hadd]
    exact Moment.after_of_closed hc k
  · intro k
    have hclear : Moment.Clear h := fun _ => rfl
    obtain ⟨n, acts, hn⟩ := Moment.steps_reached run hclear s [] k
    have hmoment : moment n = ⟨(h.steps run k s).1, (h.steps run k s).2, false, acts⟩ := hn
    exact ⟨n, by rw [hmoment], by rw [hmoment]⟩

/-- A stream that breaks after the first byte of the second reply: the first command is answered,
the second one was executed, and the third one is never read. -/
theorem orderly_point_severed :
    let moment := point (Store.execution ⟨"store.db", 5000⟩) ({} : Disk)
      (ofArrivals 9 [.chunk [0, 0, 0]] [.upTo 8, .upTo 1, .failure "reset"])
    (acceptedIn (moment 9).acts ≠ replies (responsesOf (moment 9).acts) ∧
      commandsOf (moment 10).acts = commandsOf (moment 9).acts) ∧
    (moment 10).handler.isClosed = true ∧ (∀ k, moment (10 + k) = moment 10) ∧
    (commandsOf (moment 10).acts).length = 2 ∧
    delivered (acceptedIn (moment 10).acts) (responsesOf (moment 10).acts) = 1 := by
  intro moment
  obtain ⟨-, hheld, hend, -⟩ := orderly_point (Store.execution ⟨"store.db", 5000⟩) ({} : Disk) 9
    [.chunk [0, 0, 0]] [.upTo 8, .upTo 1, .failure "reset"]
  have hout : acceptedIn (moment 9).acts ≠ replies (responsesOf (moment 9).acts) := by
    decide +kernel
  have hclosed : (moment 10).handler.isClosed = true := by decide +kernel
  refine ⟨⟨hout, (hheld 9 hout).2.2.2⟩, hclosed, fun k => hend 10 k hclosed, ?_, ?_⟩
  · decide +kernel
  · decide +kernel

end QueryServer.Handler
