import QueryServer.Connection
import QueryServer.Proofs.Connection.Delivery
/-!
The bytes of frames over many calls of one connection. Main statement: what the stream has accepted
and what still waits are together the frames that were taken over, in the order of the calls, however
many writes fail in between.
-/

namespace QueryServer
namespace Writer

variable {w w' : Writer} {script rest : List Acceptance} {e : WriteFault}

theorem flush_empty (hb : w.backlog = []) (script : List Acceptance) :
    w.flush script = (.ok (), w, script) := by
  cases script <;> simp [flush, hb]

theorem flush_nil (hb : w.backlog ≠ []) :
    w.flush [] = (.ok (), w.accept w.backlog.length, []) := by
  simp [flush, hb]

theorem flush_pending (hb : w.backlog ≠ []) (script : List Acceptance) :
    w.flush (.pending :: script) = w.flush script := by
  simp [flush, hb]

theorem flush_failure (hb : w.backlog ≠ []) (message : String) (script : List Acceptance) :
    w.flush (.failure message :: script) = (.error (.stream message), w, script) := by
  simp [flush, hb]

theorem flush_upTo_zero (hb : w.backlog ≠ []) (script : List Acceptance) :
    w.flush (.upTo 0 :: script) = (.error .nothingAccepted, w.accept 0, script) := by
  simp [flush, hb]

theorem flush_upTo_succ (hb : w.backlog ≠ []) (count : Nat) (script : List Acceptance) :
    w.flush (.upTo (count + 1) :: script) = (w.accept (count + 1)).flush script := by
  simp [flush, hb]

theorem backlog_of_flush_error (h : w.flush script = (.error e, w', rest)) : w'.backlog ≠ [] := by
  induction script generalizing w with
  | nil => simp [flush] at h
  | cons acceptance tail ih =>
    by_cases hb : w.backlog = []
    · simp [flush_empty hb] at h
    · cases acceptance with
      | pending => exact ih (flush_pending hb tail ▸ h)
      | failure message =>
        rw [flush_failure hb, Prod.mk.injEq, Prod.mk.injEq] at h
        exact h.2.1 ▸ hb
      | upTo count =>
        cases count with
        | zero =>
          rw [flush_upTo_zero hb, Prod.mk.injEq, Prod.mk.injEq] at h
          rw [← h.2.1]
          simpa [accept] using hb
        | succ count => exact ih (flush_upTo_succ hb count tail ▸ h)

theorem flush_ok_iff (w : Writer) (script : List Acceptance) :
    (w.flush script).1 = .ok () ↔ (w.flush script).2.1.backlog = [] := by
  rcases hf : w.flush script with ⟨result, w', rest⟩
  cases result with
  | ok _ => simpa using backlog_of_flush_ok hf
  | error e => simpa using backlog_of_flush_error hf

/-- A flush uses the script up from its front, an entry for each write, and writes at most once
more when the script has ended. -/
theorem flush_uses (w : Writer) (script : List Acceptance) :
    ∃ used, script = used ++ (w.flush script).2.2 ∧
      (w.flush script).2.1.writes ≤ w.writes + used.length + 1 := by
  induction script generalizing w with
  | nil =>
    refine ⟨[], rfl, ?_⟩
    by_cases hb : w.backlog = []
    · simp [flush_empty hb]
    · simp [flush_nil hb, accept]
  | cons acceptance tail ih =>
    by_cases hb : w.backlog = []
    · exact ⟨[], by simp [flush_empty hb], by simp [flush_empty hb]⟩
    · cases acceptance with
      | pending =>
        obtain ⟨used, hused, hwrites⟩ := ih w
        rw [flush_pending hb]
        exact ⟨.pending :: used, by rw [List.cons_append, ← hused],
          by rw [List.length_cons]; omega⟩
      | failure message =>
        rw [flush_failure hb]
        exact ⟨[.failure message], rfl, by simp; omega⟩
      | upTo count =>
        cases count with
        | zero =>
          rw [flush_upTo_zero hb]
          exact ⟨[.upTo 0], rfl, by simp [accept]⟩
        | succ count =>
          obtain ⟨used, hused, hwrites⟩ := ih (w.accept (count + 1))
          have haccept : (w.accept (count + 1)).writes = w.writes + 1 := rfl
          rw [flush_upTo_succ hb]
          exact ⟨.upTo (count + 1) :: used, by rw [List.cons_append, ← hused],
            by rw [List.length_cons]; omega⟩

/-- A write fails before its frame joins the backlog, or flushes the backlog with the frame in it. -/
theorem write_cases (w : Writer) (text : String) (script : List Acceptance) :
    (flushBoundary ≤ w.backlog.length ∧ (w.flush script).1 ≠ .ok () ∧
      w.write text script = w.flush script) ∨
    (¬ (flushBoundary ≤ w.backlog.length ∧ (w.flush script).1 ≠ .ok ()) ∧
      ∃ (w₁ : Writer) (script₁ used : List Acceptance),
        script = used ++ script₁ ∧ w₁.writes ≤ w.writes + used.length + 1 ∧
        w₁.handed = w.handed ∧ w.write text script = (w₁.enqueue text).flush script₁) := by
  by_cases hb : flushBoundary ≤ w.backlog.length
  · rcases hf : w.flush script with ⟨result, w₁, script₁⟩
    cases result with
    | ok _ =>
      obtain ⟨used, hused, hwrites⟩ := w.flush_uses script
      have hhanded := handed_flush w script
      rw [hf] at hused hwrites hhanded
      exact .inr ⟨by simp, w₁, script₁, used, hused, hwrites, hhanded, by simp [write, hb, hf]⟩
    | error e => exact .inl ⟨hb, by simp, by simp [write, hb, hf]⟩
  · exact .inr ⟨fun h => hb h.1, w, script, [], rfl, by omega, rfl, by simp [write, hb]⟩

end Writer

namespace Frame

theorem encode_ne_nil (text : String) : encode text ≠ [] := by
  simp [encode]

end Frame

namespace Connection

/-- What is asked of a connection. -/
inductive Call where
  | read
  | write (text : String)
  deriving DecidableEq, Repr

/-- A connection before its first call. -/
def fresh (limit : Nat) (arrivals : List Arrival) (acceptances : List Acceptance) : Connection where
  reader := .ofLimit limit
  arrivals := arrivals
  acceptances := acceptances

/-- The connection after one call. -/
def serve (c : Connection) : Call → Connection
  | .read => c.readFrame.2
  | .write text => (c.writeFrame text).2

/-- The connection after calls in their order. -/
def after (c : Connection) (calls : List Call) : Connection :=
  calls.foldl serve c

/-- A write takes its frame over if any byte is handed over by it, to be sent at once or later. -/
def takesOver (c : Connection) (text : String) : Bool :=
  (c.writeFrame text).2.writer.handed != c.writer.handed

/-- The frames that calls take over. -/
def taken : Connection → List Call → List String
  | _, [] => []
  | c, .read :: calls => taken (c.serve .read) calls
  | c, .write text :: calls =>
    (if c.takesOver text then [text] else []) ++ taken (c.serve (.write text)) calls

variable (c : Connection) (text : String)

theorem writeFrame_eq : c.writeFrame text =
    ((c.writer.write text c.acceptances).1,
      { c with
        writer := (c.writer.write text c.acceptances).2.1
        acceptances := (c.writer.write text c.acceptances).2.2 }) :=
  rfl

/-- Exactly the frames are left out that come to a large backlog which cannot be flushed. -/
theorem takesOver_eq_false_iff : c.takesOver text = false ↔
    Writer.flushBoundary ≤ c.writer.backlog.length ∧
      (c.writer.flush c.acceptances).1 ≠ .ok () := by
  simp only [takesOver, bne_eq_false_iff_eq, writeFrame_eq]
  rcases c.writer.write_cases text c.acceptances with
    ⟨hb, hf, hw⟩ | ⟨hno, w₁, script₁, used, -, -, hhanded, hw⟩
  · simp [hw, Writer.handed_flush, hb, hf]
  · simp only [hw, Writer.handed_flush, Writer.handed_enqueue, hhanded, List.append_right_eq_self,
      hno, iff_false]
    exact Frame.encode_ne_nil text

/-- One write hands over its whole frame or nothing. -/
theorem handed_writeFrame : (c.writeFrame text).2.writer.handed =
    c.writer.handed ++ if c.takesOver text then Frame.encode text else [] := by
  cases ht : c.takesOver text with
  | true =>
    have hno := mt (c.takesOver_eq_false_iff text).mpr (by simp [ht])
    rcases c.writer.write_cases text c.acceptances with
      ⟨hb, hf, -⟩ | ⟨-, w₁, script₁, used, -, -, hhanded, hw⟩
    · exact absurd ⟨hb, hf⟩ hno
    · simp [writeFrame_eq, hw, Writer.handed_flush, Writer.handed_enqueue, hhanded]
  | false =>
    have hsame : (c.writeFrame text).2.writer.handed = c.writer.handed := by
      simpa [takesOver] using ht
    simp [hsame]

theorem writeFrame_ok_iff :
    (c.writeFrame text).1 = .ok () ↔ (c.writeFrame text).2.writer.backlog = [] := by
  simp only [writeFrame_eq]
  rcases c.writer.write_cases text c.acceptances with
    ⟨-, -, hw⟩ | ⟨-, w₁, script₁, used, -, -, -, hw⟩
  · rw [hw]
    exact c.writer.flush_ok_iff c.acceptances
  · rw [hw]
    exact (w₁.enqueue text).flush_ok_iff script₁

theorem takesOver_of_ok (h : (c.writeFrame text).1 = .ok ()) : c.takesOver text = true := by
  rcases c.writer.write_cases text c.acceptances with ⟨-, hf, hw⟩ | ⟨hno, -⟩
  · rw [writeFrame_eq, hw] at h
    exact absurd h hf
  · simpa using mt (c.takesOver_eq_false_iff text).mp hno

/-- A write returns after it has used up some of the script, with a write of the stream for each
entry at most and two more after the end of the script. -/
theorem writeFrame_uses : ∃ used, c.acceptances = used ++ (c.writeFrame text).2.acceptances ∧
    (c.writeFrame text).2.writer.writes ≤ c.writer.writes + used.length + 2 := by
  simp only [writeFrame_eq]
  rcases c.writer.write_cases text c.acceptances with
    ⟨-, -, hw⟩ | ⟨-, w₁, script₁, used₁, hused₁, hwrites₁, -, hw⟩
  · obtain ⟨used, hused, hwrites⟩ := c.writer.flush_uses c.acceptances
    exact ⟨used, by rw [hw]; exact hused, by rw [hw]; omega⟩
  -- the second flush goes on in the script where the first one stopped
  · obtain ⟨used, hused, hwrites⟩ := (w₁.enqueue text).flush_uses script₁
    refine ⟨used₁ ++ used, ?_, ?_⟩
    · rw [hw, List.append_assoc, ← hused, hused₁]
    · rw [hw, List.length_append]
      have henqueue : (w₁.enqueue text).writes = w₁.writes := rfl
      omega

/-- Over any calls the bytes handed over grow by the frames that are taken over. -/
theorem handed_after (calls : List Call) : (c.after calls).writer.handed =
    c.writer.handed ++ (c.taken calls).flatMap Frame.encode := by
  induction calls generalizing c with
  | nil => simp [after, taken]
  | cons call calls ih =>
    have hstep : (c.after (call :: calls)).writer.handed =
        (c.serve call).writer.handed ++ ((c.serve call).taken calls).flatMap Frame.encode :=
      ih (c.serve call)
    rw [hstep]
    cases call with
    | read => rfl
    | write text =>
      rw [serve, handed_writeFrame, taken, List.flatMap_append, ← List.append_assoc]
      by_cases ht : c.takesOver text = true
      · simp [ht, serve]
      · simp [ht, serve]

/-- What is true of one more write, where `frames` were taken over before it. -/
structure Accounted (frames : List String) (c : Connection) (text : String) : Prop where
  /-- A frame is left out only where a large backlog could not be flushed before it. -/
  leftOut : c.takesOver text = false ↔
    Writer.flushBoundary ≤ c.writer.backlog.length ∧ (c.writer.flush c.acceptances).1 ≠ .ok ()
  /-- Nothing of a frame that is left out is ever handed over. -/
  neverSent : c.takesOver text = false → (c.writeFrame text).1 ≠ .ok () ∧
    ∀ later, ((c.writeFrame text).2.after later).writer.handed =
      (frames ++ (c.writeFrame text).2.taken later).flatMap Frame.encode
  /-- Success says that nothing waits and that the frame is out to its last byte. -/
  success : (c.writeFrame text).1 = .ok () ↔ (c.writeFrame text).2.writer.backlog = [] ∧
    (c.writeFrame text).2.writer.sent = (frames ++ [text]).flatMap Frame.encode
  /-- A frame that was taken over goes out before all later ones. -/
  inOrder : c.takesOver text = true → ∀ later, ((c.writeFrame text).2.after later).writer.sent <+:
    (frames ++ text :: (c.writeFrame text).2.taken later).flatMap Frame.encode
  /-- The next success completes it, whatever failed before. -/
  completed : c.takesOver text = true → ∀ later last,
    (((c.writeFrame text).2.after later).writeFrame last).1 = .ok () →
      (((c.writeFrame text).2.after later).writeFrame last).2.writer.sent =
        (frames ++ text :: (c.writeFrame text).2.taken later ++ [last]).flatMap Frame.encode
  /-- The write returns: it uses up some of what the stream is going to do, and does not go on for
  long after that. -/
  returns : ∃ used, c.acceptances = used ++ (c.writeFrame text).2.acceptances ∧
    (c.writeFrame text).2.writer.writes ≤ c.writer.writes + used.length + 2

variable {c text} {frames : List String}

theorem sent_of_ok (hc : c.writer.handed = frames.flatMap Frame.encode)
    (h : (c.writeFrame text).1 = .ok ()) :
    (c.writeFrame text).2.writer.sent = (frames ++ [text]).flatMap Frame.encode := by
  have hempty := (c.writeFrame_ok_iff text).mp h
  have hhanded := c.handed_writeFrame text
  rw [Writer.handed, hempty, List.append_nil, hc, takesOver_of_ok c text h, if_pos rfl] at hhanded
  rw [hhanded, List.flatMap_append, List.flatMap_singleton]

theorem accounted (hc : c.writer.handed = frames.flatMap Frame.encode) :
    Accounted frames c text where
  leftOut := c.takesOver_eq_false_iff text
  neverSent := by
    intro ht
    refine ⟨fun hok => ?_, fun later => ?_⟩
    · rw [takesOver_of_ok c text hok] at ht
      contradiction
    · rw [handed_after, handed_writeFrame, hc, ht, List.flatMap_append]
      simp
  success := by
    refine ⟨fun hok => ⟨(c.writeFrame_ok_iff text).mp hok, sent_of_ok hc hok⟩, ?_⟩
    exact fun h => (c.writeFrame_ok_iff text).mpr h.1
  inOrder := by
    intro ht later
    refine ⟨((c.writeFrame text).2.after later).writer.backlog, ?_⟩
    have h := (c.writeFrame text).2.handed_after later
    rw [handed_writeFrame, hc, ht, if_pos rfl] at h
    simpa [Writer.handed] using h
  completed := by
    intro ht later last hok
    refine sent_of_ok ?_ hok
    rw [handed_after, handed_writeFrame, hc, ht, if_pos rfl]
    simp
  returns := c.writeFrame_uses text

/-- After any calls of a connection, whatever its stream does, the bytes that were accepted and
those that wait are the frames that were taken over; and so it stays with one more write. -/
theorem handed_after_fresh (limit : Nat) (arrivals : List Arrival) (acceptances : List Acceptance)
    (calls : List Call) :
    let c := (fresh limit arrivals acceptances).after calls
    let frames := (fresh limit arrivals acceptances).taken calls
    c.writer.sent ++ c.writer.backlog = frames.flatMap Frame.encode ∧
      ∀ text, Accounted frames c text := by
  have h := (fresh limit arrivals acceptances).handed_after calls
  exact ⟨h, fun _ => accounted h⟩

example : ((fresh 9 [] [.upTo 1, .failure "reset"]).after
    [.write "ab", .read, .write "c"]).writer.sent = Frame.encode "ab" ++ Frame.encode "c" := by
  decide

end Connection
end QueryServer
