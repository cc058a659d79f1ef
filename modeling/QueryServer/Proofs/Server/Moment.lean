import QueryServer.Proofs.Connection.Conservation
import QueryServer.Proofs.Server.Acts
/-!
A handler in the midst of its work. Each write of the stream is a step of its own, so a reply may be
out in part; what the handler has done so far goes with its state, and the steps of a handler lead
from one such moment to another.
-/

namespace QueryServer
namespace Writer

/-- One step of a flush: the write of the stream that comes next, or the end of the flush. -/
def attempt (w : Writer) (script : List Acceptance) :
    Option (Except WriteFault Unit) × Writer × List Acceptance :=
  if w.backlog.isEmpty then (some (.ok ()), w, script)
  else
    match script with
    | [] => (none, w.accept w.backlog.length, [])
    | .pending :: rest => (none, w, rest)
    | .failure message :: rest => (some (.error (.stream message)), w, rest)
    | .upTo 0 :: rest => (some (.error .nothingAccepted), w.accept 0, rest)
    | .upTo (count + 1) :: rest => (none, w.accept (count + 1), rest)

variable {w w' : Writer} {script rest : List Acceptance}

/-- What an attempt moves from the backlog to the other side. -/
theorem attempt_moves (w : Writer) (script : List Acceptance) :
    ∃ bytes, (w.attempt script).2.1.sent = w.sent ++ bytes ∧
      bytes ++ (w.attempt script).2.1.backlog = w.backlog ∧
      ((w.attempt script).1 ≠ none → bytes = []) := by
  by_cases hb : w.backlog.isEmpty = true
  · exact ⟨[], by simp [attempt, hb]⟩
  · cases script with
    | nil => exact ⟨w.backlog, by simp [attempt, hb, accept]⟩
    | cons acceptance rest =>
      cases acceptance with
      | pending => exact ⟨[], by simp [attempt, hb]⟩
      | failure message => exact ⟨[], by simp [attempt, hb]⟩
      | upTo count =>
        cases count with
        | zero => exact ⟨[], by simp [attempt, hb, accept]⟩
        | succ count => exact ⟨w.backlog.take (count + 1), by simp [attempt, hb, accept]⟩

theorem backlog_of_attempt_ok (h : w.attempt script = (some (.ok ()), w', rest)) :
    w' = w ∧ rest = script ∧ w.backlog = [] := by
  unfold attempt at h
  split at h
  · rename_i hb
    simp only [Prod.mk.injEq, true_and] at h
    exact ⟨h.1.symm, h.2.symm, by simpa using hb⟩
  · split at h <;> simp at h

end Writer

namespace Handler

/-- A handler in the midst of its work, with all that it has done. -/
structure Moment (σ : Type) where
  state : σ
  handler : Handler
  /-- The reply has joined the backlog and is on its way. -/
  sending : Bool := false
  acts : List Act := []

namespace Moment

variable {σ : Type}

/-- The next thing that a handler does; nothing if it is closed or waits for its client. -/
def next? (run : Execution σ) (m : Moment σ) : Option (Moment σ) :=
  let c := m.handler.connection
  match m.handler.phase with
  | .closed _ => none
  | .reading =>
    match c.pollFrame with
    | (none, c') => if c.arrivals.isEmpty then none else some { m with handler := ⟨c', .reading⟩ }
    | (some result, c') => some { m with
        handler := ⟨c', afterRead (some result)⟩
        acts := m.acts ++ [.read result] }
  | .executing command =>
    let (state, r) := run m.state command
    some { m with
      state
      handler := ⟨c, .replying r.render⟩
      acts := m.acts ++ [.executed command r] }
  | .replying text =>
    if m.sending then
      match c.writer.attempt c.acceptances with
      | (none, w, rest) => some { m with
          handler := ⟨{ c with writer := w, acceptances := rest }, .replying text⟩
          acts := m.acts ++ [.accepted (w.sent.drop c.writer.sent.length)] }
      | (some (.ok _), w, rest) => some { m with
          handler := ⟨{ c with writer := w, acceptances := rest }, .reading⟩
          sending := false
          acts := m.acts ++ [.wrote (.ok ())] }
      | (some (.error f), w, rest) => some { m with
          handler := ⟨{ c with writer := w, acceptances := rest }, .closed (.write f)⟩
          sending := false
          acts := m.acts ++ [.wrote (.error f)] }
    else some { m with
      handler := ⟨{ c with writer := c.writer.enqueue text }, .replying text⟩
      sending := true }

/-- The moment after so many things, or after the last one. -/
def after (run : Execution σ) : Nat → Moment σ → Moment σ
  | 0, m => m
  | n + 1, m =>
    match m.next? run with
    | some m' => after run n m'
    | none => m

/-- The beginning of the work of a handler. -/
def start (s : σ) (h : Handler) : Moment σ where
  state := s
  handler := h

theorem pollFrame_writer (c : Connection) : c.pollFrame.2.writer = c.writer :=
  rfl

variable {run : Execution σ} {m m' : Moment σ} {s s' : σ}

theorem after_of_stuck (h : m.next? run = none) (n : Nat) : m.after run n = m := by
  cases n with
  | zero => rfl
  | succ n => simp [after, h]

theorem after_add (m : Moment σ) (i j : Nat) :
    m.after run (i + j) = (m.after run i).after run j := by
  induction i generalizing m with
  | zero => simp [after]
  | succ i ih =>
    rw [Nat.succ_add, after, after]
    cases hn : m.next? run with
    | some m' => exact ih m'
    | none => exact (after_of_stuck hn j).symm

theorem after_of_closed (h : m.handler.isClosed = true) (n : Nat) : m.after run n = m := by
  apply after_of_stuck
  unfold isClosed at h
  split at h
  · rename_i reason hp
    simp [next?, hp]
  · contradiction

/-- Sending a reply touches neither what was read nor the commands that were executed. -/
theorem next?_of_replying {text : String} (hp : m.handler.phase = .replying text)
    (hn : m.next? run = some m') :
    m'.handler.connection.reader = m.handler.connection.reader ∧
      m'.handler.connection.arrivals = m.handler.connection.arrivals ∧ m'.state = m.state ∧
      commandsOf m'.acts = commandsOf m.acts := by
  simp only [next?, hp] at hn
  split at hn
  · split at hn
    all_goals
      obtain rfl := Option.some.inj hn
      exact ⟨rfl, rfl, rfl, by simp [Act.command?]⟩
  · obtain rfl := Option.some.inj hn
    exact ⟨rfl, rfl, rfl, rfl⟩

/-- The phase after the write of a reply has ended. -/
def afterWrite : Except WriteFault Unit → Phase
  | .ok _ => .reading
  | .error f => .closed (.write f)

/-- The single writes of a reply lead to where the whole flush leads. -/
theorem finish (run : Execution σ) (s : σ) (c : Connection) (text : String) (acts : List Act) :
    ∃ n acts', after run n ⟨s, ⟨c, .replying text⟩, true, acts⟩ =
      ⟨s, ⟨{ c with
        writer := (c.writer.flush c.acceptances).2.1
        acceptances := (c.writer.flush c.acceptances).2.2 },
        afterWrite (c.writer.flush c.acceptances).1⟩, false, acts'⟩ := by
  obtain ⟨reader, arrivals, w, script⟩ := c
  have hdone : ∀ (w : Writer) (script : List Acceptance) (acts : List Act), w.backlog = [] →
      after run 1 ⟨s, ⟨⟨reader, arrivals, w, script⟩, .replying text⟩, true, acts⟩ =
        ⟨s, ⟨⟨reader, arrivals, w, script⟩, .reading⟩, false, acts ++ [.wrote (.ok ())]⟩ := by
    intro w script acts hb
    simp [after, next?, Writer.attempt, hb]
  have hstep : ∀ (w w' : Writer) (script rest : List Acceptance) (acts : List Act),
      w.attempt script = (none, w', rest) → ∃ acts',
        after run 1 ⟨s, ⟨⟨reader, arrivals, w, script⟩, .replying text⟩, true, acts⟩ =
          ⟨s, ⟨⟨reader, arrivals, w', rest⟩, .replying text⟩, true, acts'⟩ := by
    intro w w' script rest acts ha
    simp [after, next?, ha]
  dsimp only
  -- one entry of the script for each attempt, until nothing waits or the stream fails
  induction script generalizing w acts with
  | nil =>
    by_cases hb : w.backlog = []
    · refine ⟨1, acts ++ [.wrote (.ok ())], ?_⟩
      rw [hdone w [] acts hb, Writer.flush_empty hb]
      rfl
    · obtain ⟨acts', hacts⟩ := hstep w (w.accept w.backlog.length) [] [] acts
        (by simp [Writer.attempt, hb])
      refine ⟨1 + 1, acts' ++ [.wrote (.ok ())], ?_⟩
      rw [after_add, hacts, hdone _ _ _ (by simp [Writer.accept]), Writer.flush_nil hb]
      rfl
  | cons acceptance rest ih =>
    by_cases hb : w.backlog = []
    · refine ⟨1, acts ++ [.wrote (.ok ())], ?_⟩
      rw [hdone w _ acts hb, Writer.flush_empty hb]
      rfl
    · cases acceptance with
      | pending =>
        obtain ⟨acts', hacts⟩ := hstep w w (.pending :: rest) rest acts
          (by simp [Writer.attempt, hb])
        obtain ⟨n, acts'', hn⟩ := ih acts' w
        exact ⟨1 + n, acts'', by rw [after_add, hacts, hn, Writer.flush_pending hb]⟩
      | failure message =>
        refine ⟨1, acts ++ [.wrote (.error (.stream message))], ?_⟩
        rw [Writer.flush_failure hb]
        simp [after, next?, Writer.attempt, hb, afterWrite]
      | upTo count =>
        cases count with
        | zero =>
          refine ⟨1, acts ++ [.wrote (.error .nothingAccepted)], ?_⟩
          rw [Writer.flush_upTo_zero hb]
          simp [after, next?, Writer.attempt, hb, afterWrite]
        | succ count =>
          obtain ⟨acts', hacts⟩ := hstep w (w.accept (count + 1)) (.upTo (count + 1) :: rest) rest
            acts (by simp [Writer.attempt, hb])
          obtain ⟨n, acts'', hn⟩ := ih acts' (w.accept (count + 1))
          exact ⟨1 + n, acts'', by rw [after_add, hacts, hn, Writer.flush_upTo_succ hb]⟩

/-- A handler that is not in the midst of a reply leaves nothing of an earlier one behind. -/
def Clear (h : Handler) : Prop :=
  h.isClosed = false → h.connection.writer.backlog = []

/-- One step of a handler is some of the things that it does one after another. -/
theorem step?_reached {h h' : Handler} (hclear : Clear h) (hs : h.step? run s = some (s', h'))
    (acts : List Act) :
    Clear h' ∧ ∃ n acts', after run n ⟨s, h, false, acts⟩ = ⟨s', h', false, acts'⟩ := by
  obtain ⟨c, phase⟩ := h
  cases phase with
  | closed reason => simp [step?] at hs
  | executing command =>
    simp only [step?, Option.some.injEq, Prod.mk.injEq] at hs
    obtain ⟨rfl, rfl⟩ := hs
    exact ⟨fun _ => hclear rfl, 1, acts ++ [.executed command (run s command).2],
      by simp [after, next?]⟩
  | reading =>
    rcases hpoll : c.pollFrame with ⟨result, c'⟩
    have hw : c'.writer = c.writer := by
      rw [← pollFrame_writer c, hpoll]
    simp only [step?, hpoll] at hs
    split at hs
    · simp at hs
    · rename_i hwait
      simp only [Option.some.injEq, Prod.mk.injEq] at hs
      obtain ⟨rfl, rfl⟩ := hs
      refine ⟨fun _ => by simpa [hw] using hclear rfl, 1, ?_⟩
      cases result with
      | none =>
        have harrivals : c.arrivals ≠ [] := by simpa using hwait
        exact ⟨acts, by simp [after, next?, hpoll, harrivals, Handler.afterRead]⟩
      | some result => exact ⟨acts ++ [.read result], by simp [after, next?, hpoll]⟩
  | replying text =>
    have hempty : c.writer.backlog = [] := hclear rfl
    have hwrite : c.writer.write text c.acceptances =
        (c.writer.enqueue text).flush c.acceptances := by
      simp [Writer.write, hempty, Writer.flushBoundary]
    obtain ⟨n, acts', hn⟩ := finish run s { c with writer := c.writer.enqueue text } text acts
    have hstart : after run 1 ⟨s, ⟨c, .replying text⟩, false, acts⟩ =
        ⟨s, ⟨{ c with writer := c.writer.enqueue text }, .replying text⟩, true, acts⟩ := by
      simp [after, next?]
    rcases hf : (c.writer.enqueue text).flush c.acceptances with ⟨result, w, rest⟩
    simp only [step?, Connection.writeFrame, hwrite, hf] at hs
    rw [hf] at hn
    cases result with
    | ok _ =>
      simp only [Option.some.injEq, Prod.mk.injEq] at hs
      obtain ⟨rfl, rfl⟩ := hs
      exact ⟨fun _ => Writer.backlog_of_flush_ok hf, 1 + n, acts', by rw [after_add, hstart, hn]; rfl⟩
    | error f =>
      simp only [Option.some.injEq, Prod.mk.injEq] at hs
      obtain ⟨rfl, rfl⟩ := hs
      exact ⟨fun hc => by simp [isClosed] at hc, 1 + n, acts', by rw [after_add, hstart, hn]; rfl⟩

theorem steps_reached (run : Execution σ) {h : Handler} (hclear : Clear h) (s : σ)
    (acts : List Act) (k : Nat) :
    ∃ n acts', after run n ⟨s, h, false, acts⟩ =
      ⟨(h.steps run k s).1, (h.steps run k s).2, false, acts'⟩ := by
  induction k generalizing h s acts with
  | zero => exact ⟨0, acts, rfl⟩
  | succ k ih =>
    cases hs : h.step? run s with
    | none => exact ⟨0, acts, by simp [steps, hs, after]⟩
    | some next =>
      obtain ⟨s', h'⟩ := next
      obtain ⟨hclear', n, acts', hn⟩ := step?_reached hclear hs acts
      obtain ⟨n', acts'', hn'⟩ := ih hclear' s' acts'
      refine ⟨n + n', acts'', ?_⟩
      rw [after_add, hn, hn', steps_succ hs]

end Moment

end Handler
end QueryServer
