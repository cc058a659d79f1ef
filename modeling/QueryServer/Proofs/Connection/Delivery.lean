import QueryServer.Connection.Writer
/-!
What a writer has sent and what waits to be sent, taken together: a flush moves bytes from one to
the other and neither drops nor repeats any.
-/

namespace QueryServer

/-- A write that takes some bytes, or that is tried again. -/
def Acceptance.accepts : Acceptance → Bool
  | upTo count => 0 < count
  | pending => true
  | failure _ => false

namespace Writer

/-- All bytes that were handed over, in the order in which they were. -/
def handed (w : Writer) : Bytes :=
  w.sent ++ w.backlog

theorem handed_accept (w : Writer) (count : Nat) : (w.accept count).handed = w.handed := by
  simp [handed, accept, List.append_assoc]

theorem handed_enqueue (w : Writer) (text : String) :
    (w.enqueue text).handed = w.handed ++ Frame.encode text := by
  simp [handed, enqueue, List.append_assoc]

theorem handed_flush (w : Writer) (script : List Acceptance) :
    (w.flush script).2.1.handed = w.handed := by
  induction script generalizing w with
  | nil =>
    simp only [flush]
    split
    · rfl
    · exact handed_accept w _
  | cons acceptance rest ih =>
    simp only [flush]
    split
    · rfl
    · cases acceptance with
      | pending => exact ih w
      | failure message => rfl
      | upTo count =>
        cases count with
        | zero => exact handed_accept w 0
        | succ count => rw [ih, handed_accept]

theorem backlog_of_flush_ok {w w' : Writer} {script rest : List Acceptance}
    (h : w.flush script = (.ok (), w', rest)) : w'.backlog = [] := by
  induction script generalizing w with
  | nil =>
    simp only [flush, Prod.mk.injEq, true_and] at h
    rw [← h.1]
    split
    · simpa using ‹w.backlog.isEmpty = true›
    · simp [accept]
  | cons acceptance tail ih =>
    simp only [flush] at h
    split at h
    · simp only [Prod.mk.injEq, true_and] at h
      rw [← h.1]
      simpa using ‹w.backlog.isEmpty = true›
    · cases acceptance with
      | pending => exact ih h
      | failure message => simp at h
      | upTo count =>
        cases count with
        | zero => simp at h
        | succ count => exact ih h

/-- Where every write takes some bytes or is tried again, a flush succeeds. -/
theorem flush_of_accepts {script : List Acceptance} (h : ∀ a ∈ script, a.accepts = true)
    (w : Writer) : ∃ w' rest, w.flush script = (.ok (), w', rest) ∧
      ∀ a ∈ rest, a.accepts = true := by
  induction script generalizing w with
  | nil => exact ⟨_, [], rfl, by simp⟩
  | cons acceptance rest ih =>
    have hrest : ∀ a ∈ rest, a.accepts = true := fun a ha => h a (List.mem_cons_of_mem _ ha)
    by_cases hb : w.backlog.isEmpty = true
    · exact ⟨w, acceptance :: rest, by simp [flush, hb], h⟩
    · cases acceptance with
      | pending =>
        obtain ⟨w', left, hf, hl⟩ := ih hrest w
        exact ⟨w', left, by simpa [flush, hb] using hf, hl⟩
      | failure message => simpa [Acceptance.accepts] using h (.failure message) List.mem_cons_self
      | upTo count =>
        cases count with
        | zero => simpa [Acceptance.accepts] using h (.upTo 0) List.mem_cons_self
        | succ count =>
          obtain ⟨w', left, hf, hl⟩ := ih hrest (w.accept (count + 1))
          exact ⟨w', left, by simpa [flush, hb] using hf, hl⟩

/-- A frame that is written with nothing before it in the backlog is sent to its last byte. -/
theorem write_of_accepts {script : List Acceptance} (h : ∀ a ∈ script, a.accepts = true)
    {w : Writer} (hb : w.backlog = []) (text : String) :
    ∃ w' rest, w.write text script = (.ok (), w', rest) ∧ w'.backlog = [] ∧
      w'.sent = w.sent ++ Frame.encode text ∧ ∀ a ∈ rest, a.accepts = true := by
  obtain ⟨w', rest, hf, hrest⟩ := flush_of_accepts h (w.enqueue text)
  have hempty := backlog_of_flush_ok hf
  have hwrite : w.write text script = (w.enqueue text).flush script := by
    simp [write, hb, flushBoundary]
  have hhanded : w'.handed = w.handed ++ Frame.encode text := by
    have := handed_flush (w.enqueue text) script
    rwa [hf, handed_enqueue] at this
  exact ⟨w', rest, hwrite.trans hf, hempty, by simpa [handed, hempty, hb] using hhanded, hrest⟩

end Writer
end QueryServer
