import QueryServer.Proofs.Executor.Recall
import QueryServer.Proofs.Response
import QueryServer.Proofs.Server.Exchange
import QueryServer.Proofs.Store.Reached
/-!
Users read back. Main statement: what a client has entered, any client can ask for, and it gets the
same texts back whatever characters they have.
-/

namespace QueryServer
open Sql Relations

namespace Sql

/-- A text that is one statement limits memory if that statement does. -/
theorem limitsMemory_of_only {ls : List Lexeme} {p : Parsed}
    (h : Parsed.next? ls = .ok (some (p, []))) (hp : p.statement.memory? = none) :
    limitsMemory ls = false := by
  have hstart : Parsed.next? (skipEmpty ls) = .ok (some (p, [])) :=
    (Parsed.next?_skipEmpty ls).trans h
  have hnone : starts false [] = [] := rfl
  rw [limitsMemory, (Parsed.starts_of_next? h).1, hnone]
  simp [hstart, hp]

end Sql

namespace Command

variable {u p r : String}

theorem limitsMemory_enter (hfree : '\x00' ∉ u.toList ∧ '\x00' ∉ p.toList ∧ '\x00' ∉ r.toList) :
    (enter u p r).limitsMemory = false := by
  obtain ⟨ls, hnext, -⟩ := next?_enter hfree.1 hfree.2.1 hfree.2.2
  exact limitsMemory_of_only hnext rfl

theorem limitsMemory_find (hfree : '\x00' ∉ u.toList) : (find u).limitsMemory = false := by
  obtain ⟨ls, hnext, -⟩ := next?_find hfree
  exact limitsMemory_of_only hnext rfl

end Command

namespace Store
open Executor

/-- The store admits users, nobody has this name, and a number is left for one more row. -/
def Lacks (s : Store) (m : Machine) (name : String) : Prop :=
  ∃ t, s.Admits m t ∧ (∀ x ∈ t.rows, username x.values ≠ .ofString name) ∧
    t.rows.length < 2 ^ 64

variable {store : Store} {m : Machine} {u p r : String}

/-- A row that is added is the only one of its name. -/
theorem filter_of_perm {t t' : Table} {n : Int64}
    (hrows : t'.rows.Perm (⟨n, entry u p r⟩ :: t.rows))
    (hnew : ∀ x ∈ t.rows, username x.values ≠ .ofString u) :
    t'.rows.filter (fun x => username x.values = .ofString u) = [⟨n, entry u p r⟩] := by
  have hself : username (entry u p r) = .ofString u := rfl
  have hnone : t.rows.filter (fun x => decide (username x.values = .ofString u)) = [] := by
    rw [List.filter_eq_nil_iff]
    exact fun x hx => by simpa using hnew x hx
  have hfilter := hrows.filter (fun x => decide (username x.values = .ofString u))
  rw [List.filter_cons_of_pos (by simp [hself]), hnone] at hfilter
  exact List.perm_singleton.mp hfilter

theorem recalls (hm : store.Reached m) (hlacks : store.Lacks m u)
    (hfree : '\x00' ∉ u.toList ∧ '\x00' ∉ p.toList ∧ '\x00' ∉ r.toList) :
    ∃ m', store.engine.execution calm m (.enter u p r) = (m', .success) ∧
      store.engine.execution calm m' (.find u) = (m', .rows [[.text u, .text p, .text r]]) := by
  obtain ⟨t, hadmits, hnew, hroom⟩ := hlacks
  obtain ⟨db, hholds, hu, hnamed⟩ := holds_of_admits hm hadmits
  obtain ⟨i, -, hi⟩ := exists_unused hroom (Nat.le_refl _)
  obtain ⟨d', db', t', n, henter, hholds', hu', hrows⟩ :=
    execution_of_enter hholds hu hfree hnew ⟨_, hi⟩
  have hfind := execution_of_find hholds' hu' hfree.1 (fun x hx => ?_) (filter_of_perm hrows hnew)
  · refine ⟨{ m with files := d' }, ?_, ?_⟩
    · rw [execution_engine hadmits.unlimited (Command.limitsMemory_enter hfree), henter]
    · rw [execution_engine (m := { m with files := d' }) hadmits.unlimited
        (Command.limitsMemory_find hfree.1), hfind]
  · rcases List.mem_cons.mp (hrows.mem_iff.mp hx) with rfl | hx
    · rfl
    · exact hnamed x hx

end Store

namespace Service
open Executor

variable {store : Store} {s : Service Machine} {before : List Event} {x : ConnectionId}
  {u p r : String}

/-- Whatever clients do, they do nothing to the store but execute commands on it. -/
theorem reached_run (hstore : store.Reached s.state) (es : List Event) :
    store.Reached (s.run (store.engine.execution calm) es).state := by
  induction es generalizing s with
  | nil => exact hstore
  | cons e es ih =>
    refine ih ?_
    rw [state_step]
    cases hturn : s.turn? e with
    | none => exact hstore
    | some t =>
      rw [Option.map_some, Option.getD_some, Turn.after, (id_of_turn? hturn).2]
      exact .executed hstore calm t.command

theorem state_of_no_turns {σ : Type} {execution : Execution σ} {s : Service σ} {es : List Event}
    (h : s.turns execution es = []) : (s.run execution es).state = s.state := by
  have hanswers : Handler.answers execution s.state ((s.turns execution es).map (·.command)) = _ :=
    answers_turns es
  rw [h] at hanswers
  exact (congrArg Prod.snd hanswers).symm

/-- A user whose name is new is entered with success, whatever is in the store. When a client then
asks for it before other commands are executed, be it the same or another client, the frame that
comes back holds the three texts as they were given. -/
theorem user_read_back (hs : s.handlers = []) (hstore : store.Reached s.state)
    (hx : Attended (store.engine.execution calm) s x before)
    (hlacks : store.Lacks (s.run (store.engine.execution calm) before).state u)
    (hfree : '\x00' ∉ u.toList ∧ '\x00' ∉ p.toList ∧ '\x00' ∉ r.toList)
    (henter : (Text.Utf8.encode (Command.enter u p r).text.toList).length ≤ s.frameLimit)
    (hfind : (Text.Utf8.encode (Command.find u).text.toList).length ≤ s.frameLimit) :
    Replied (store.engine.execution calm) s x before (.enter u p r) .success ∧
      (∀ asking between y, Exchange (store.engine.execution calm) s x before asking (.enter u p r) →
        (s.run (store.engine.execution calm) (before ++ asking)).turns
          (store.engine.execution calm) between = [] →
        Attended (store.engine.execution calm) s y (before ++ asking ++ between) →
        Replied (store.engine.execution calm) s y (before ++ asking ++ between) (.find u)
          (.rows [[.text u, .text p, .text r]])) ∧
      ∃ reply, (Response.rows [[.text u, .text p, .text r]]).render = reply ∧
        (∀ limit rest, Frame.Decoder.decode { limit } (Frame.encode reply ++ rest) =
          (.ok (some reply), { limit }, rest)) ∧
        Response.read? reply = some (.rows [[.text u, .text p, .text r]]) := by
  obtain ⟨d, hentered, hfound⟩ := Store.recalls (reached_run hstore before) hlacks hfree
  refine ⟨?_, ?_, _, rfl, ?_, Response.read?_render _⟩
  · have hreplied := hx.replied hs (Command.free_enter hfree.1 hfree.2.1 hfree.2.2) henter
    rwa [hentered] at hreplied
  · intro asking between y hasking hbetween hy
    -- nothing has been executed since the user was entered
    have hstate : (s.run (store.engine.execution calm) (before ++ asking ++ between)).state = d := by
      rw [run_append, state_of_no_turns hbetween, (hasking.answered hs hx).1, hentered]
    have hreplied := hy.replied hs (Command.free_find hfree.1) hfind
    rwa [hstate, hfound] at hreplied
  · refine Frame.Decoder.decode_encode ?_
    rw [Response.toList_render]
    exact Response.zero_not_mem_written nofun

/-- A name with a quote, a password of a backslash, a bar and a line feed, and a date that is not
ASCII: the first client enters them, in a frame that is cut after nine bytes, and the second client,
which has waited meanwhile, gets them back. -/
theorem user_read_back_quotes :
    let store : Store := ⟨"a.db", 0⟩
    let s : Service Machine := { state := (store.bootstrapOn ⟨{}, {}⟩).1 }
    let before : List Event := [.connect 0 [], .connect 1 []]
    let enter : Command := .enter "o'neil" "\\|\n" "é"
    let arrivals : List Arrival := [.chunk ((Frame.encode enter.text).take 9), .pending,
      .chunk ((Frame.encode enter.text).drop 9)]
    Replied (store.engine.execution calm) s 0 before enter .success ∧
      ∃ n, Replied (store.engine.execution calm) s 1
        (before ++ (arrivals.map (.arrive 0) ++ List.replicate n (.proceed 0))) (.find "o'neil")
        (.rows [[.text "o'neil", .text "\\|\n", .text "é"]]) := by
  intro store s before enter arrivals
  have hkept : store.KeptAt ["a.db"] := Store.kept_of_path (by decide +kernel) (by decide)
    (by decide) (by decide) (by decide)
  have hbootstrap := Store.bootstrapOn_of_bootstrap
    (Store.bootstrap_of_new (d := {}) hkept rfl rfl (by decide))
  have hstore : store.Reached s.state :=
    .prepared (m := ⟨{}, {}⟩) Disk.sound_empty (Prod.ext rfl (by rw [hbootstrap]))
  have hlacks : store.Lacks (s.run (store.engine.execution calm) before).state "o'neil" := by
    have hstate : (s.run (store.engine.execution calm) before).state =
      (store.bootstrapOn ⟨{}, {}⟩).1 := rfl
    rw [hstate, hbootstrap]
    exact ⟨_, ⟨rfl, ⟨_, _, _, _, hkept.opening, by decide, Disk.file?_put_new rfl _,
      Store.hasUsers_ensureAll.found, Store.supports_ensureAll false⟩, rfl, .of_shape rfl⟩, nofun,
      by decide⟩
  have hfirst : Attended (store.engine.execution calm) s 0 ([] ++ [.connect 0 []]) :=
    attended_connect rfl rfl rfl (by simp [Patient]) (List.forall_mem_nil _)
  have hx : Attended (store.engine.execution calm) s 0 before := hfirst.quiet rfl (by simp [Patient])
  have hy : Attended (store.engine.execution calm) s 1 ([.connect 0 []] ++ [.connect 1 []]) :=
    attended_connect rfl rfl rfl (by simp [Patient]) (List.forall_mem_nil _)
  obtain ⟨hentered, hback, -⟩ := user_read_back (u := "o'neil") (p := "\\|\n") (r := "é") rfl hstore
    hx hlacks (by decide) (by decide +kernel) (by decide +kernel)
  have hcarry : Arrival.Carry arrivals (Frame.encode enter.text) :=
    ⟨by simp [arrivals, Arrival.flows], by simp [arrivals, Arrival.bytes]⟩
  obtain ⟨n, hasking⟩ := hentered.comes arrivals hcarry
  refine ⟨hentered, n, ?_⟩
  have hothers : ∀ e ∈ arrivals.map (Event.arrive 0) ++ List.replicate n (.proceed 0),
      e.client? ≠ some 1 := by
    intro e he
    rw [client?_of_mem he]
    decide
  have hwaiting := hy.quiet (delivered_of_others hothers) fun _ he => absurd rfl (hothers _ he)
  have hreplied := hback _ [] 1 hasking rfl (by rwa [List.append_nil])
  rwa [List.append_nil] at hreplied

/-- Users who are not entered although their names are new: the name of the store asks for more than
a connection may do, or lets connections only read, what was prepared in memory is lost, commands
have made an index or a deferred foreign key or have limited the memory of the process, or all
numbers of rows are taken. -/
theorem user_refused :
    (let answers (store : Store) (m : Machine) (cs : List Command) :=
        (Handler.answers (store.engine.execution calm) m cs).1
      let new (store : Store) : Machine := (store.bootstrapOn ⟨{}, {}⟩).1
      answers ⟨"file:x.db?mode=rwc", 0⟩ (new ⟨"file:x.db?mode=rwc", 0⟩) [.enter "u" "p" "d"] =
        [.failure "access mode not allowed: rwc"] ∧
      answers ⟨"file:x.db?mode=ro", 0⟩ (new ⟨"x.db", 0⟩) [.enter "u" "p" "d"] =
        [.failure "attempt to write a readonly database"] ∧
      answers ⟨"file:x.db?immutable=1", 0⟩ (new ⟨"x.db", 0⟩) [.enter "u" "p" "d"] =
        [.failure "attempt to write a readonly database"] ∧
      answers ⟨":memory:", 0⟩ (new ⟨":memory:", 0⟩) [.enter "u" "p" "d"] =
        [.failure "no such table: users"] ∧
      answers ⟨"x.db", 0⟩ (new ⟨"x.db", 0⟩) [.enter "a" "p" "d",
          ⟨"CREATE UNIQUE INDEX i ON users (password)"⟩, .enter "u" "p" "d"] =
        [.success, .success, .failure "UNIQUE constraint failed: users.password"] ∧
      answers ⟨"x.db", 0⟩ (new ⟨"x.db", 0⟩) [⟨"CREATE TABLE c (x REFERENCES users (password) " ++
          "DEFERRABLE INITIALLY DEFERRED)"⟩, .enter "u" "p" "d"] =
        [.success, .failure "foreign key mismatch - \"c\" referencing \"users\""] ∧
      answers ⟨"x.db", 0⟩ (new ⟨"x.db", 0⟩) [⟨"PRAGMA hard_heap_limit=1"⟩, .enter "u" "p" "d"] =
        [.success, .failure "x.db"]) ∧
    ∃ store m t, Store.Reached store m ∧ store.Admits m t ∧
      (∀ x ∈ t.rows, username x.values ≠ .ofString "u") ∧
      (store.engine.execution calm m (.enter "u" "p" "d")).2 =
        .failure "database or disk is full" := by
  refine ⟨by decide +kernel, ?_⟩
  have hkept : Store.KeptAt ⟨"a.db", 0⟩ ["a.db"] := Store.kept_of_path (by decide +kernel)
    (by decide) (by decide) (by decide) (by decide)
  have hfree : '\x00' ∉ "u".toList ∧ '\x00' ∉ "p".toList ∧ '\x00' ∉ "d".toList := by decide
  obtain ⟨rows, hordered, hall, hvalues⟩ := Table.exists_crowded [.null, .null, .null]
  obtain ⟨m, t, hreached, hadmits, rfl⟩ := Store.exists_reached hkept (by decide) rfl hordered
    fun x hx => by rw [hvalues x hx]; rfl
  obtain ⟨db, hholds, hu, -⟩ := Store.holds_of_admits hreached hadmits
  refine ⟨_, m, t, hreached, hadmits, fun x hx => ?_, ?_⟩
  · rw [hvalues x hx]
    nofun
  · rw [Store.execution_engine hadmits.unlimited (Command.limitsMemory_enter hfree)]
    refine Store.execution_of_taken hholds hu (Store.enters_enter hu hfree) fun n hn => ?_
    obtain ⟨x, hx, rfl⟩ := hall n
    exact List.find?_eq_none.mp hn x hx (beq_self_eq_true _)

end Service
end QueryServer
