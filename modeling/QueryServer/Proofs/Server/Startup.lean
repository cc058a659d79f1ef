import QueryServer.Proofs.Arguments
import QueryServer.Proofs.Store.Opening
import QueryServer.Server.Program
/-!
The start of the program. No connection is accepted before the store is prepared, and the only
crash is that of a store whose time to wait is longer than a connection can be given.
-/

namespace QueryServer

variable {c : Configuration} {d d' : Disk} {occupied : Port → Bool}

theorem serving_of_start {service : Service Disk}
    (h : (Start.of c d occupied).result = .serving service) :
    ∃ d', c.store.bootstrap d = (d', .done ()) ∧
      service = { state := d', frameLimit := c.frameLimit } := by
  unfold Start.of at h
  split at h
  · cases h
  · cases h
  · rename_i d' hdone
    dsimp only at h
    split at h
    · cases h
    · cases h
      exact ⟨d', hdone, rfl⟩

theorem crashed_start_iff :
    (∃ reason, (Start.of c d occupied).result = .crashed reason) ↔
      (c.store.bootstrap d).2.Crashed := by
  unfold Start.of
  obtain ⟨d', o⟩ := c.store.bootstrap d
  cases o with
  | failed f => simp [Store.Outcome.Crashed]
  | crashed reason => simp [Store.Outcome.Crashed]
  | done u =>
    by_cases hport : occupied c.port = true <;> simp [Store.Outcome.Crashed, hport]

namespace Program

/-- The program ends as one that crashes does. -/
def Crashed (p : Program) : Prop :=
  ∃ notices output error, p = .exits crashCode notices output error

variable {argv : List String} {env : Arguments.Environment}

theorem crashed_iff_start {a : Arguments} (ha : Arguments.parse argv env = .ok a) :
    (start argv env d occupied).Crashed ↔
      ∃ reason, (Start.of a.configuration d occupied).result = .crashed reason := by
  simp only [start, ha]
  cases (Start.of a.configuration d occupied).result with
  | serving service => simp [Crashed]
  | failed f => simp [Crashed, crashCode]
  | crashed reason => simp [Crashed]

theorem not_crashed_of_fault {f : ArgumentFault} (ha : Arguments.parse argv env = .error f) :
    ¬ (start argv env d occupied).Crashed := by
  rintro ⟨notices, output, error, h⟩
  simp only [start, ha] at h
  split at h
  · cases h
  · cases h
  · rename_i hok
    cases hok

theorem serves_of_start {service : Service Disk} {notices : List Notice}
    (h : start argv env d occupied = .serves c notices service) :
    (Start.of c d occupied).result = .serving service := by
  unfold start at h
  split at h
  · cases h
  · cases h
  · dsimp only at h
    split at h
    · rename_i hserving
      cases h
      exact hserving
    · cases h
    · cases h

/-- A store that was prepared can be waited for. -/
theorem busyTimeout_le_of_serves {service : Service Disk} {notices : List Notice}
    (h : start argv env d occupied = .serves c notices service) :
    c.busyTimeout ≤ Store.longestTimeout := by
  obtain ⟨d', hdone, -⟩ := serving_of_start (serves_of_start h)
  exact (Store.opened_of_bootstrap hdone).1

/-- The program crashes at its start only for a time to wait above the longest one of a connection,
and then no command of a program that serves crashes. The arguments allow any number of 64 bits. -/
theorem crashed_iff_overlong (argv : List String) (env : Arguments.Environment) (d : Disk)
    (occupied : Port → Bool) :
    ((start argv env d occupied).Crashed ↔
      ∃ a, Arguments.parse argv env = .ok a ∧ Store.longestTimeout < a.busyTimeout ∧
        a.configuration.store.Opens .create d) ∧
    (∀ c notices service, start argv env d occupied = .serves c notices service →
      ∀ d command, ∃ r, (Executor.execute c.store d command).2 = .ok r) ∧
    (∀ s : Store,
      ((s.bootstrap d).2.Crashed ↔ Store.longestTimeout < s.busyTimeout ∧ s.Opens .create d) ∧
      ((s.connect d).2.Crashed ↔ Store.longestTimeout < s.busyTimeout ∧ s.Opens .write d)) ∧
    (∀ a, Arguments.parse argv env = .ok a → a.busyTimeout < UInt64.size) ∧
    ∀ n < UInt64.size,
      Arguments.parse ["--" ++ Setting.busyTimeout.name, toString n] [] =
        .ok { busyTimeout := n } ∧
      Arguments.parse [] [(Setting.busyTimeout.environmentName, toString n)] =
        .ok { busyTimeout := n } := by
  refine ⟨?_, ?_, fun s => ⟨Store.crashed_bootstrap_iff, Store.crashed_connect_iff⟩,
    fun a => Arguments.busyTimeout_lt,
    fun n hn => ⟨Arguments.parse_option hn, Arguments.parse_environment hn⟩⟩
  · cases ha : Arguments.parse argv env with
    | error f => simp [not_crashed_of_fault ha]
    | ok a =>
      rw [crashed_iff_start ha, crashed_start_iff, Store.crashed_bootstrap_iff]
      simp [Configuration.store, Arguments.configuration]
  · intro c notices service hserves d command
    cases hr : (Executor.execute c.store d command).2 with
    | ok r => exact ⟨r, rfl⟩
    | error reason =>
      have hlong := (Store.crashed_execute_iff.mp ⟨reason, hr⟩).2.1
      exact absurd (busyTimeout_le_of_serves hserves) (Nat.not_le.mpr hlong)

/-- One millisecond more than a connection can be given is accepted, and the program crashes with
it, as do connections to a store that is there. -/
theorem crashed_one_above :
    let s : Store := ⟨"m.db", Store.longestTimeout + 1⟩
    let d : Disk := { entries := [(["m.db"], .file File.empty)] }
    (∃ a, Arguments.parse ["--database", "m.db", "--busy-timeout-ms", "2147483648"] [] = .ok a ∧
      a.configuration.store = s) ∧
    (start ["--database", "m.db", "--busy-timeout-ms", "2147483648"] [] {} fun _ => true).Crashed ∧
    (s.bootstrap {}).2.Crashed ∧ (s.connect d).2.Crashed ∧
    ∃ reason, (Executor.execute s d ⟨"SELECT 1"⟩).2 = .error reason := by
  refine ⟨⟨_, rfl, rfl⟩, ⟨_, _, _, rfl⟩, ⟨_, rfl⟩, ⟨_, rfl⟩, ⟨_, rfl⟩⟩

end Program
end QueryServer
