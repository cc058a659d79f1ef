import QueryServer.Executor
import QueryServer.Proofs.Store.Connect
/-!
Opening the file of a store, as connections and the preparation of a store do it. The time to wait
is only looked at when the file is open, and one that is too long is the only crash.
-/

namespace QueryServer.Store

def Opens (s : Store) (wanted : Access) (d : Disk) : Prop :=
  ∃ d' h, s.opened wanted d = .ok (d', h)

namespace Outcome

def Crashed {α : Type} (o : Outcome α) : Prop :=
  ∃ reason, o = .crashed reason

variable {α : Type} {a : α} {f : Fault}

theorem not_crashed_done : ¬ (Outcome.done a).Crashed := by
  rintro ⟨reason, h⟩
  cases h

theorem not_crashed_failed : ¬ (Outcome.failed f : Outcome α).Crashed := by
  rintro ⟨reason, h⟩
  cases h

end Outcome

variable {s : Store} {d d' : Disk} {h : Handle} {wanted : Access} {f : OpenFault}

theorem opens_of_opened (ho : s.opened wanted d = .ok (d', h)) : s.Opens wanted d :=
  ⟨d', h, ho⟩

theorem not_opens_of_opened (ho : s.opened wanted d = .error f) : ¬ s.Opens wanted d := by
  rintro ⟨d', h, hok⟩
  rw [ho] at hok
  cases hok

theorem bootstrap_of_opened (ho : s.opened .create d = .ok (d', h)) :
    s.bootstrap d =
      if longestTimeout < s.busyTimeout then (d', .crashed "too big") else h.prepare d' := by
  simp only [bootstrap, ho, setTimeout]
  by_cases hlong : longestTimeout < s.busyTimeout
  · rw [if_pos hlong, if_pos hlong]
  · rw [if_neg hlong, if_neg hlong]

theorem bootstrap_of_unopened (ho : s.opened .create d = .error f) :
    s.bootstrap d = (d, .failed (.opening f)) := by
  simp [bootstrap, ho]

/-- A store is prepared through a connection that was opened and could be told how long to wait. -/
theorem opened_of_bootstrap (hb : s.bootstrap d = (d', .done ())) :
    s.busyTimeout ≤ longestTimeout ∧
      ∃ d₁ h, s.opened .create d = .ok (d₁, h) ∧ h.prepare d₁ = (d', .done ()) := by
  cases ho : s.opened .create d with
  | error f =>
    rw [bootstrap_of_unopened ho] at hb
    cases hb
  | ok r =>
    obtain ⟨d₁, h⟩ := r
    rw [bootstrap_of_opened ho] at hb
    split at hb
    · cases hb
    · rename_i hlong
      exact ⟨Nat.not_lt.mp hlong, d₁, h, rfl, hb⟩

theorem not_crashed_prepare (h : Handle) (d : Disk) : ¬ (h.prepare d).2.Crashed := by
  unfold Handle.prepare
  split
  · dsimp only
    split
    · exact Outcome.not_crashed_failed
    · split
      · exact Outcome.not_crashed_failed
      · exact Outcome.not_crashed_done
  · dsimp only
    split
    · exact Outcome.not_crashed_failed
    · exact Outcome.not_crashed_done

theorem crashed_bootstrap_iff :
    (s.bootstrap d).2.Crashed ↔ longestTimeout < s.busyTimeout ∧ s.Opens .create d := by
  cases ho : s.opened .create d with
  | error f =>
    rw [bootstrap_of_unopened ho]
    exact iff_of_false Outcome.not_crashed_failed fun hl => not_opens_of_opened ho hl.2
  | ok r =>
    obtain ⟨d', h⟩ := r
    rw [bootstrap_of_opened ho]
    by_cases hlong : longestTimeout < s.busyTimeout
    · rw [if_pos hlong]
      exact iff_of_true ⟨_, rfl⟩ ⟨hlong, opens_of_opened ho⟩
    · rw [if_neg hlong]
      exact iff_of_false (not_crashed_prepare h d') fun hl => hlong hl.1

theorem crashed_connect_iff :
    (s.connect d).2.Crashed ↔ longestTimeout < s.busyTimeout ∧ s.Opens .write d := by
  cases ho : s.opened .write d with
  | error f =>
    rw [connect_of_unopened ho]
    exact iff_of_false Outcome.not_crashed_failed fun hl => not_opens_of_opened ho hl.2
  | ok r =>
    obtain ⟨d', h⟩ := r
    rw [connect_of_opened ho, setTimeout]
    by_cases hlong : longestTimeout < s.busyTimeout
    · rw [if_pos hlong]
      exact iff_of_true ⟨_, rfl⟩ ⟨hlong, opens_of_opened ho⟩
    · rw [if_neg hlong]
      exact iff_of_false Outcome.not_crashed_done fun hl => hlong hl.1

/-- A command crashes if its connection does; a blank command has none. -/
theorem crashed_execute_iff {c : Command} :
    (∃ reason, (Executor.execute s d c).2 = .error reason) ↔
      c.isBlank = false ∧ longestTimeout < s.busyTimeout ∧ s.Opens .write d := by
  rw [← crashed_connect_iff]
  unfold Executor.execute
  by_cases hblank : c.isBlank = true
  · rw [if_pos hblank]
    simp [hblank]
  · rw [if_neg hblank]
    rcases hc : s.connect d with ⟨d', h | f | reason⟩ <;> simp [Outcome.Crashed, hblank]

end QueryServer.Store
