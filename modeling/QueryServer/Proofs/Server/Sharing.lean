import Mathlib.Data.List.Perm.Basic
import QueryServer.Proofs.Server.Schedule
import QueryServer.Proofs.Server.Shutdown
/-!
A state that all clients share. Every frame of every client is executed in one turn, the turns of
all clients follow one another, and no order of the events can keep a client from its replies.
-/

namespace QueryServer

namespace Handler

/-- Nothing has been left unsent, and no write will be refused. -/
structure Steady (h : Handler) : Prop where
  accepts : ∀ a ∈ h.connection.acceptances, a.accepts = true
  backlog : h.connection.writer.backlog = []
  unsevered : ¬ h.Severed

variable {σ : Type} {run : Execution σ} {s s' : σ} {h h' : Handler}

theorem Steady.step (hs : h.Steady) (hstep : h.step? run s = some (s', h')) : h'.Steady := by
  cases stepped_of_step? hstep with
  | executed c hp => exact ⟨hs.accepts, hs.backlog, not_severed (by simp)⟩
  | read result c hp hpoll =>
    obtain rfl : h.connection.pollFrame.2 = c := congrArg Prod.snd hpoll
    refine ⟨hs.accepts, hs.backlog, not_severed fun f hf => ?_⟩
    rcases result with _ | f | (_ | text) <;> cases hf
  | sent text c hp hwrite =>
    obtain ⟨w', rest, hok, hempty, -, hrest⟩ :=
      Writer.write_of_accepts hs.accepts hs.backlog text
    rw [Connection.writeFrame, hok] at hwrite
    cases hwrite
    exact ⟨hrest, hempty, not_severed (by simp)⟩
  | severed text c f hp hwrite =>
    obtain ⟨w', rest, hok, -⟩ := Writer.write_of_accepts hs.accepts hs.backlog text
    rw [Connection.writeFrame, hok] at hwrite
    cases hwrite

/-- Whether a handler waits has nothing to do with what others have made of the state. -/
theorem step?_eq_none (s' : σ) (hstep : h.step? run s = none) : h.step? run s' = none := by
  unfold step? at hstep ⊢
  cases hp : h.phase with
  | closed reason => rfl
  | executing c => simp [hp] at hstep
  | reading =>
    simp only [hp] at hstep ⊢
    split at hstep
    · rename_i hwait
      rw [if_pos hwait]
    · cases hstep
  | replying text =>
    rcases hwrite : h.connection.writeFrame text with ⟨result, c⟩
    cases result <;> simp [hp, hwrite] at hstep

end Handler

namespace Service
open Handler (received replies)

variable {σ : Type} {execution : Execution σ} {s : Service σ} {x y : ConnectionId}

theorem mem_connections : y ∈ s.connections ↔ (s.handler? y).isSome := by
  rw [connections, handler?, List.mem_map, List.lookup_isSome_iff]
  refine exists_congr fun entry => and_congr_right fun _ => ?_
  rw [beq_iff_eq, eq_comm]

theorem connections_fresh (hs : s.handlers = []) : s.connections.Nodup := by
  rw [connections, hs]
  exact List.Pairwise.nil

theorem connections_connect (s : Service σ) (x : ConnectionId) (acceptances : List Acceptance) :
    (s.connect x acceptances).connections = s.connections ∨
      (s.connect x acceptances).connections = s.connections ++ [x] := by
  unfold connect
  split
  · exact .inr List.map_append
  · exact .inl rfl

/-- Connections are only ever added, and none twice. -/
theorem connections_grow (execution : Execution σ) (hs : s.connections.Nodup) (e : Event) :
    (s.step execution e).connections.Nodup ∧
      s.connections <+: (s.step execution e).connections := by
  cases e with
  | connect id acceptances =>
    rw [step]
    cases hid : s.handler? id with
    | some h =>
      have hsame : s.connect id acceptances = s := by simp [connect, hid]
      rw [hsame]
      exact ⟨hs, List.prefix_refl _⟩
    | none =>
      have hnew : id ∉ s.connections := by simp [mem_connections, hid]
      rcases connections_connect s id acceptances with hsame | hgrown
      · rw [hsame]
        exact ⟨hs, List.prefix_refl _⟩
      · rw [hgrown]
        refine ⟨List.nodup_append.mpr ⟨hs, List.pairwise_singleton _ id, ?_⟩, List.prefix_append _ _⟩
        intro y hy z hz hyz
        rw [List.mem_singleton.mp hz] at hyz
        exact hnew (hyz ▸ hy)
  | arrive | proceed =>
    rw [connections_step execution rfl]
    exact ⟨hs, List.prefix_refl _⟩
  | shutdown | acceptFault =>
    rw [step, connections, handlers_finish]
    exact ⟨hs, List.prefix_refl _⟩

theorem connections_grow_run (execution : Execution σ) (hs : s.connections.Nodup)
    (es : List Event) :
    (s.run execution es).connections.Nodup ∧ s.connections <+: (s.run execution es).connections := by
  induction es generalizing s with
  | nil => exact ⟨hs, List.prefix_refl _⟩
  | cons e es ih =>
    obtain ⟨hnodup, hgrown⟩ := connections_grow execution hs e
    obtain ⟨hnodup', hgrown'⟩ := ih hnodup
    exact ⟨hnodup', hgrown.trans hgrown'⟩

theorem handler?_of_turn? {e : Event} {t : Turn σ} (ht : s.turn? e = some t) :
    (s.handler? t.id).isSome := by
  unfold turn? at ht
  split at ht
  · split at ht
    · rename_i hx
      cases ht
      simp [hx]
    · cases ht
  · cases ht

/-- Only clients that have connected have turns. -/
theorem id_mem_connections (hs : s.connections.Nodup) {es : List Event} {t : Turn σ}
    (ht : t ∈ s.turns execution es) : t.id ∈ (s.run execution es).connections := by
  induction es generalizing s with
  | nil => cases ht
  | cons e es ih =>
    obtain ⟨hnodup, hgrown⟩ := connections_grow execution hs e
    rcases List.mem_append.mp ht with ht | ht
    · have hhere := mem_connections.mpr (handler?_of_turn? (Option.mem_toList.mp ht))
      exact (connections_grow_run execution hnodup es).2.subset (hgrown.subset hhere)
    · exact ih hnodup ht

/-- A list falls into the parts that belong to each of some keys. -/
theorem perm_flatMap_filter {α β : Type} [DecidableEq β] (f : α → β) {keys : List β}
    (hkeys : keys.Nodup) {as : List α} (has : ∀ a ∈ as, f a ∈ keys) :
    as.Perm (keys.flatMap fun k => as.filter (f · = k)) := by
  induction keys generalizing as with
  | nil =>
    cases as with
    | nil => rfl
    | cons a as => cases has a List.mem_cons_self
  | cons k keys ih =>
    obtain ⟨hk, hkeys⟩ := List.nodup_cons.mp hkeys
    have hrest : ∀ a ∈ as.filter fun a => !decide (f a = k), f a ∈ keys := by
      intro a ha
      obtain ⟨ha, hne⟩ := List.mem_filter.mp ha
      exact (List.mem_cons.mp (has a ha)).resolve_left (by simpa using hne)
    have hothers := ih hkeys hrest
    -- what belongs to another key is not touched by taking out this one
    have hsame : (keys.flatMap fun k' =>
        (as.filter fun a => !decide (f a = k)).filter (f · = k')) =
        keys.flatMap fun k' => as.filter (f · = k') := by
      refine congrArg List.flatten (List.map_congr_left fun k' hk' => ?_)
      rw [List.filter_filter]
      refine List.filter_congr fun a _ => ?_
      by_cases ha : f a = k'
      · have hne : k' ≠ k := fun he => hk (he ▸ hk')
        simp [ha, hne]
      · simp [ha]
    rw [hsame] at hothers
    exact (List.filter_append_perm _ as).symm.trans (hothers.append_left _)

/-- The streams of a client never refuse what is written to them. -/
def Patient (y : ConnectionId) (es : List Event) : Prop :=
  ∀ acceptances, Event.connect y acceptances ∈ es → ∀ a ∈ acceptances, a.accepts = true

theorem steady_fresh (hs : s.handlers = []) : ∀ h, s.handler? y = some h → h.Steady := by
  intro h hh
  simp [handler?, hs] at hh

theorem steady_step {e : Event} (hs : ∀ h, s.handler? y = some h → h.Steady)
    (hy : Patient y [e]) : ∀ h, (s.step execution e).handler? y = some h → h.Steady := by
  have hmoved := moved execution s y e
  generalize (s.step execution e).handler? y = after at hmoved ⊢
  intro g hg
  cases hmoved with
  | same => exact hs g hg
  | connected acceptances he =>
    cases hg
    exact ⟨hy acceptances (he ▸ List.mem_cons_self), rfl,
      Handler.not_severed (by simp [Handler.ofArrivals])⟩
  | arrived h a he hy =>
    cases hg
    exact ⟨(hs h hy).accepts, (hs h hy).backlog, (hs h hy).unsevered⟩
  | proceeded h next he hy hstep =>
    cases hg
    exact (hs h hy).step hstep

theorem steady_run {es : List Event} (hs : ∀ h, s.handler? y = some h → h.Steady)
    (hy : Patient y es) : ∀ h, (s.run execution es).handler? y = some h → h.Steady := by
  induction es generalizing s with
  | nil => exact hs
  | cons e es ih =>
    refine ih (steady_step hs fun acceptances he => hy acceptances ?_) fun acceptances he =>
      hy acceptances (List.mem_cons_of_mem e he)
    rw [List.mem_singleton.mp he]
    exact List.mem_cons_self

theorem resting_proceed (hxy : x ≠ y) (hy : s.Resting execution y) :
    (s.step execution (.proceed x)).Resting execution y := by
  have hmoved := moved execution s y (.proceed x)
  intro g hg
  generalize (s.step execution (.proceed x)).handler? y = after at hmoved hg
  cases hmoved with
  | same => exact Handler.step?_eq_none _ (hy g hg)
  | connected acceptances he | arrived h a he => cases he
  | proceeded h next he => exact absurd (Event.proceed.inj he) hxy

theorem resting_proceeds (hxy : x ≠ y) (hy : s.Resting execution y) (n : Nat) :
    (s.run execution (List.replicate n (.proceed x))).Resting execution y := by
  induction n generalizing s with
  | zero => exact hy
  | succ n ih => exact ih (resting_proceed hxy hy)

/-- From any moment on, all handlers can come to rest. -/
theorem exists_all_resting (execution : Execution σ) (hs : s.handlers = []) (es : List Event)
    (clients : List ConnectionId) :
    ∃ later, (∀ e ∈ later, e.serves) ∧ ∀ y ∈ clients,
      ((s.run execution es).run execution later).Resting execution y := by
  induction clients with
  | nil => exact ⟨[], by simp, by simp⟩
  | cons x clients ih =>
    -- the others are at rest, and stay so while this one goes on
    obtain ⟨later, hlater, hrest⟩ := ih
    have htracked := tracked_run (tracked_fresh execution hs s.frameLimit x) (es ++ later)
    rw [← frameLimit_run execution (es ++ later)] at htracked
    obtain ⟨n, hn⟩ := exists_resting htracked
    rw [run_append] at hn
    refine ⟨later ++ List.replicate n (.proceed x), ?_, ?_⟩
    · intro e he
      rcases List.mem_append.mp he with he | he
      · exact hlater e he
      · rw [List.eq_of_mem_replicate he]
        rfl
    · intro y hy
      rw [run_append]
      by_cases hxy : x = y
      · subst hxy
        exact hn
      · refine resting_proceeds hxy (hrest y ?_) n
        exact (List.mem_cons.mp hy).resolve_left (Ne.symm hxy)

/-- When all handlers have come to rest and no write has failed, the turns are one for every frame
of every client. -/
theorem commands_perm (hs : s.handlers = []) (es : List Event)
    (hrest : ∀ y h, (s.run execution es).handler? y = some h →
      h.step? execution (s.run execution es).state = none ∧ ¬ h.Severed) :
    ((s.turns execution es).map (·.command)).Perm ((s.run execution es).connections.flatMap
      fun y => received s.frameLimit (s.delivered execution y es)) := by
  have hnone := connections_fresh hs
  have hparts := perm_flatMap_filter (·.id) (connections_grow_run execution hnone es).1
    fun t ht => id_mem_connections hnone ht
  refine (hparts.map (·.command)).trans (List.Perm.of_eq ?_)
  rw [List.map_flatMap]
  refine congrArg List.flatten (List.map_congr_left fun y hy => ?_)
  obtain ⟨h, hh⟩ := Option.isSome_iff_exists.mp (mem_connections.mp hy)
  obtain ⟨hstuck, hopen⟩ := hrest y h hh
  exact ((served_run hs es hh).complete hstuck hopen).1

/-- What is true of every run of a service, in whichever order its handlers take their steps. -/
structure Orderly (execution : Execution σ) (s : Service σ) (es : List Event) : Prop where
  /-- The turns are one sequence, in which each command is executed over what the ones before it
  have left. -/
  sequence : Handler.answers execution s.state ((s.turns execution es).map (·.command)) =
    ((s.turns execution es).map (·.response execution), (s.run execution es).state)
  served : ∀ y h, (s.run execution es).handler? y = some h →
    Served execution (received s.frameLimit (s.delivered execution y es))
      (s.turnsOf execution y es) (s.run execution es).state h
  /-- Where nothing is oversized, the frames of a client are all that it has terminated. -/
  frames : ∀ y arrivals bytes (ended : Bool),
    s.delivered execution y es = arrivals ++ (if ended then [.ending] else []) →
    Arrival.Carry arrivals bytes →
    (∀ start, start <+: bytes → (Frame.tail start).length ≤ s.frameLimit) →
    received s.frameLimit (s.delivered execution y es) = Handler.commandsIn bytes
  shared : (∀ y h, (s.run execution es).handler? y = some h →
      h.step? execution (s.run execution es).state = none ∧ ¬ h.Severed) →
    ((s.turns execution es).map (·.command)).Perm ((s.run execution es).connections.flatMap
      fun y => received s.frameLimit (s.delivered execution y es))
  patient : ∀ y, Patient y es →
    ∀ h, (s.run execution es).handler? y = some h → ¬ h.Severed
  settles : ∃ later, (∀ e ∈ later, e.serves) ∧
    ∀ y, ((s.run execution es).run execution later).Resting execution y

theorem orderly_run (execution : Execution σ) (hs : s.handlers = []) (es : List Event) :
    Orderly execution s es where
  sequence := answers_turns es
  served _ _ := served_run hs es
  frames y arrivals bytes ended harrived hc hfit := by
    rw [harrived]
    exact Handler.received_of_carry hc hfit ended
  shared := commands_perm hs es
  patient y hy h hh := (steady_run (steady_fresh hs) hy h hh).unsevered
  settles := by
    obtain ⟨later, hlater, hrest⟩ := exists_all_resting execution hs es
      (s.run execution es).connections
    refine ⟨later, hlater, fun y h hh => hrest y ?_ h hh⟩
    rw [← connections_run execution hlater, mem_connections, hh]
    rfl

end Service
end QueryServer
