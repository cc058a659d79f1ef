import QueryServer.Proofs.Server.Sharing
/-!
A command and its reply. Where a client has all its replies and no other command is executed
meanwhile, the frame of a command that comes from it, in whatever pieces, is executed once over the
shared state and is answered with one frame more.
-/

namespace QueryServer

namespace Frame

variable {bytes start : Bytes} {text : String}

theorem free_of_text (h : '\x00' ∉ text.toList) : terminator ∉ Text.Utf8.encode text.toList :=
  fun hm => h (Text.Utf8.zero_mem_encode.mp hm)

theorem split_encode (h : '\x00' ∉ text.toList) :
    pieces (encode text) = [Text.Utf8.encode text.toList] ∧ tail (encode text) = [] := by
  have hcut : cut? (encode text) = some (Text.Utf8.encode text.toList, []) :=
    cut?_append (free_of_text h)
  exact ⟨by rw [pieces_of_cut hcut]; rfl, by rw [tail_of_cut hcut]; rfl⟩

theorem commandsIn_encode (hb : tail bytes = []) (h : '\x00' ∉ text.toList) :
    Handler.commandsIn (bytes ++ encode text) = Handler.commandsIn bytes ++ [⟨text⟩] := by
  rw [Handler.commandsIn, pieces_append, hb, List.nil_append, (split_encode h).1, List.map_append,
    ← Handler.commandsIn]
  exact congrArg (fun t => Handler.commandsIn bytes ++ [⟨t⟩]) (Decoder.textOf_utf8 text)

/-- While a frame comes in after others, no more than its bytes wait for the terminator. -/
theorem fits_encode {limit : Nat} (hb : tail bytes = [])
    (hbytes : ∀ start, start <+: bytes → (tail start).length ≤ limit)
    (hfree : '\x00' ∉ text.toList) (hlimit : (Text.Utf8.encode text.toList).length ≤ limit)
    (hstart : start <+: bytes ++ encode text) : (tail start).length ≤ limit := by
  rcases List.prefix_or_prefix_of_prefix hstart (List.prefix_append bytes _) with h | ⟨part, rfl⟩
  · exact hbytes start h
  · have hpart := (List.prefix_append_right_inj bytes).mp hstart
    rw [tail_append, hb, List.nil_append]
    rcases List.prefix_concat_iff.mp hpart with rfl | hpart
    · rw [← encode, (split_encode hfree).2]
      exact Nat.zero_le _
    · exact Nat.le_trans (Nat.le_trans (tail_suffix part).length_le hpart.length_le) hlimit

end Frame

namespace Service
open Handler (received replies)

variable {σ : Type} (execution : Execution σ) {s : Service σ} {x y : ConnectionId}
  {es es' : List Event} {c : Command}

/-- A client is connected, takes all that is written to it, and has sent complete frames only, which
have all been answered. -/
structure Attended (s : Service σ) (y : ConnectionId) (es : List Event) : Prop where
  connected : ((s.run execution es).handler? y).isSome
  patient : Patient y es
  frames : ∃ bytes, Arrival.Carry (s.delivered execution y es) bytes ∧ Frame.tail bytes = [] ∧
    ∀ start, start <+: bytes → (Frame.tail start).length ≤ s.frameLimit
  resting : (s.run execution es).Resting execution y

/-- After some events, the frame of a command comes from a client, and its handler comes to rest.
No command of another client is executed meanwhile. -/
structure Exchange (s : Service σ) (y : ConnectionId) (es es' : List Event) (c : Command) :
    Prop where
  free : '\x00' ∉ c.text.toList
  fits : (Text.Utf8.encode c.text.toList).length ≤ s.frameLimit
  arrived : Arrival.Carry ((s.run execution es).delivered execution y es') (Frame.encode c.text)
  patient : Patient y es'
  alone : ∀ t ∈ (s.run execution es).turns execution es', t.id = y
  resting : (s.run execution (es ++ es')).Resting execution y

variable {execution}

theorem delivered_append (es es' : List Event) :
    s.delivered execution y (es ++ es') =
      s.delivered execution y es ++ (s.run execution es).delivered execution y es' := by
  induction es generalizing s with
  | nil => rfl
  | cons e es ih => simp [delivered, ih]

theorem turnsOf_append (es es' : List Event) :
    s.turnsOf execution y (es ++ es') =
      s.turnsOf execution y es ++ (s.run execution es).turnsOf execution y es' := by
  rw [turnsOf, turns_append, List.filter_append]
  rfl

theorem connected_append (hs : s.handlers = []) (h : ((s.run execution es).handler? y).isSome)
    (es' : List Event) : ((s.run execution (es ++ es')).handler? y).isSome := by
  have hnodup := (connections_grow_run execution (connections_fresh hs) es).1
  rw [run_append]
  exact mem_connections.mp
    ((connections_grow_run execution hnodup es').2.subset (mem_connections.mpr h))

theorem patient_append (h : Patient y es) (h' : Patient y es') : Patient y (es ++ es') := by
  intro acceptances he
  exact (List.mem_append.mp he).elim (h acceptances) (h' acceptances)

theorem carry_append {arrivals arrivals' : List Arrival} {bytes bytes' : Bytes}
    (h : Arrival.Carry arrivals bytes) (h' : Arrival.Carry arrivals' bytes') :
    Arrival.Carry (arrivals ++ arrivals') (bytes ++ bytes') where
  flows a ha := (List.mem_append.mp ha).elim (h.flows a) (h'.flows a)
  bytes := by rw [List.flatMap_append, h.bytes, h'.bytes]

/-- All that has come from such a client has been executed and answered. -/
theorem Attended.answered (hs : s.handlers = []) (ha : Attended execution s y es) {bytes : Bytes}
    (hc : Arrival.Carry (s.delivered execution y es) bytes)
    (hfit : ∀ start, start <+: bytes → (Frame.tail start).length ≤ s.frameLimit) :
    (s.turnsOf execution y es).map (·.command) = Handler.commandsIn bytes ∧
      (s.run execution es).sent y =
        replies ((s.turnsOf execution y es).map (·.response execution)) := by
  obtain ⟨h, hh⟩ := Option.isSome_iff_exists.mp ha.connected
  have hopen := (steady_run (steady_fresh hs) ha.patient h hh).unsevered
  obtain ⟨hcommands, hsent⟩ := (served_run hs es hh).complete (ha.resting h hh) hopen
  have hreceived := Handler.received_of_carry hc hfit false
  rw [if_neg Bool.false_ne_true, List.append_nil] at hreceived
  refine ⟨hcommands.trans hreceived, ?_⟩
  rw [sent, hh]
  exact hsent

theorem Attended.sent (hs : s.handlers = []) (ha : Attended execution s y es) :
    (s.run execution es).sent y =
      replies ((s.turnsOf execution y es).map (·.response execution)) := by
  obtain ⟨bytes, hc, -, hfit⟩ := ha.frames
  exact (ha.answered hs hc hfit).2

namespace Exchange

theorem frames (hx : Exchange execution s y es es' c) {bytes : Bytes}
    (hc : Arrival.Carry (s.delivered execution y es) bytes)
    (hb : Frame.tail bytes = [])
    (hfit : ∀ start, start <+: bytes → (Frame.tail start).length ≤ s.frameLimit) :
    Arrival.Carry (s.delivered execution y (es ++ es')) (bytes ++ Frame.encode c.text) ∧
      ∀ start, start <+: bytes ++ Frame.encode c.text →
        (Frame.tail start).length ≤ s.frameLimit := by
  rw [delivered_append]
  exact ⟨carry_append hc hx.arrived,
    fun start hstart => Frame.fits_encode hb hfit hx.free hx.fits hstart⟩

variable (hs : s.handlers = []) (ha : Attended execution s y es)
  (hx : Exchange execution s y es es' c)
include hs ha hx

/-- The client has its reply, and is attended as before. -/
theorem attended : Attended execution s y (es ++ es') := by
  obtain ⟨bytes, hc, hb, hfit⟩ := ha.frames
  obtain ⟨hc', hfit'⟩ := hx.frames hc hb hfit
  refine ⟨connected_append hs ha.connected es', patient_append ha.patient hx.patient,
    ⟨_, hc', ?_, hfit'⟩, hx.resting⟩
  rw [Frame.tail_append, hb, List.nil_append, (Frame.split_encode hx.free).2]

theorem turn : ∃ t : Turn σ, (s.run execution es).turns execution es' = [t] ∧
    (s.run execution es).turnsOf execution y es' = [t] ∧ t.command = c := by
  obtain ⟨bytes, hc, hb, hfit⟩ := ha.frames
  obtain ⟨hc', hfit'⟩ := hx.frames hc hb hfit
  have hbefore := (ha.answered hs hc hfit).1
  have hafter := ((hx.attended hs ha).answered hs hc' hfit').1
  -- the turns of the client are its frames, before as after, and nobody else has one in between
  have hmine : (s.run execution es).turnsOf execution y es' =
      (s.run execution es).turns execution es' :=
    List.filter_eq_self.mpr fun t ht => by simpa using hx.alone t ht
  rw [turnsOf_append, List.map_append, hbefore, Frame.commandsIn_encode hb hx.free,
    List.append_cancel_left_eq] at hafter
  obtain ⟨t, rest, hturns, hcommand, hrest⟩ := List.map_eq_cons_iff.mp hafter
  rw [List.map_eq_nil_iff.mp hrest] at hturns
  exact ⟨t, hmine ▸ hturns, hturns, hcommand⟩

/-- The command is executed once over what was there, and one frame comes back with its response. -/
theorem answered :
    (s.run execution (es ++ es')).state = (execution (s.run execution es).state c).1 ∧
      (s.run execution (es ++ es')).sent y = (s.run execution es).sent y ++
        Frame.encode (execution (s.run execution es).state c).2.render := by
  obtain ⟨t, hturns, hmine, rfl⟩ := hx.turn hs ha
  have hanswers : Handler.answers execution (s.run execution es).state
      (((s.run execution es).turns execution es').map (·.command)) = _ := answers_turns es'
  rw [hturns] at hanswers
  have hresponse : t.response execution = (execution (s.run execution es).state t.command).2 :=
    (List.cons.inj (congrArg Prod.fst hanswers)).1.symm
  refine ⟨?_, ?_⟩
  · rw [run_append]
    exact (congrArg Prod.snd hanswers).symm
  · rw [(hx.attended hs ha).sent hs, ha.sent hs, turnsOf_append, hmine, List.map_append,
      Handler.replies_append, List.map_singleton, Handler.replies_singleton, hresponse]

end Exchange

theorem delivered_arrivals (hy : (s.handler? y).isSome) (arrivals : List Arrival) :
    s.delivered execution y (arrivals.map (.arrive y)) = arrivals := by
  induction arrivals generalizing s with
  | nil => rfl
  | cons a arrivals ih =>
    obtain ⟨h, hh⟩ := Option.isSome_iff_exists.mp hy
    have hnext : ((s.step execution (.arrive y a)).handler? y).isSome := by
      rw [step, arrive_of_some hh, handler?_put_self hh]
      rfl
    rw [List.map_cons, delivered, ih hnext, arrival?, if_pos ⟨rfl, hy⟩]
    rfl

theorem delivered_proceeds (n : Nat) :
    s.delivered execution y (List.replicate n (.proceed x)) = [] := by
  induction n generalizing s with
  | zero => rfl
  | succ n ih => exact ih

theorem delivered_of_others (h : ∀ e ∈ es, e.client? ≠ some y) :
    s.delivered execution y es = [] := by
  induction es generalizing s with
  | nil => rfl
  | cons e es ih =>
    have hhere : s.arrival? y e = none := by
      cases e with
      | arrive id a =>
        have hid : id ≠ y := fun hid => h _ List.mem_cons_self (congrArg some hid)
        exact if_neg fun he => hid he.1
      | _ => rfl
    rw [delivered, hhere, ih fun e he => h e (List.mem_cons_of_mem _ he)]
    rfl

theorem client?_of_mem_turns {t : Turn σ} (ht : t ∈ s.turns execution es) :
    ∃ e ∈ es, e.client? = some t.id := by
  induction es generalizing s with
  | nil => cases ht
  | cons e es ih =>
    rcases List.mem_append.mp ht with ht | ht
    · exact ⟨e, List.mem_cons_self, (id_of_turn? (Option.mem_toList.mp ht)).1⟩
    · obtain ⟨e', he', hid⟩ := ih ht
      exact ⟨e', List.mem_cons_of_mem e he', hid⟩

theorem client?_of_mem {arrivals : List Arrival} {n : Nat} {e : Event}
    (he : e ∈ arrivals.map (.arrive y) ++ List.replicate n (.proceed y)) : e.client? = some y := by
  rcases List.mem_append.mp he with he | he
  · obtain ⟨a, -, rfl⟩ := List.mem_map.mp he
    rfl
  · rw [List.eq_of_mem_replicate he]
    rfl

/-- However the frame of a command is cut, its handler comes to rest some steps after it is in. -/
theorem exists_exchange (hs : s.handlers = []) (ha : Attended execution s y es)
    {arrivals : List Arrival} (hfree : '\x00' ∉ c.text.toList)
    (hfits : (Text.Utf8.encode c.text.toList).length ≤ s.frameLimit)
    (hc : Arrival.Carry arrivals (Frame.encode c.text)) :
    ∃ n, Exchange execution s y es (arrivals.map (.arrive y) ++ List.replicate n (.proceed y))
      c := by
  have htracked := tracked_run (tracked_fresh execution hs s.frameLimit y)
    (es ++ arrivals.map (.arrive y))
  rw [← frameLimit_run execution (es ++ arrivals.map (.arrive y))] at htracked
  obtain ⟨n, hn⟩ := exists_resting htracked
  refine ⟨n, hfree, hfits, ?_, ?_, ?_, ?_⟩
  · rw [delivered_append, delivered_arrivals ha.connected, delivered_proceeds, List.append_nil]
    exact hc
  · intro acceptances he
    simp at he
  · intro t ht
    obtain ⟨e, he, hid⟩ := client?_of_mem_turns ht
    exact Option.some.inj (hid.symm.trans (client?_of_mem he))
  · rw [← List.append_assoc, run_append]
    exact hn

/-- A client that sends a command is sent this response to it, in whichever pieces the frame of the
command comes. -/
structure Replied (execution : Execution σ) (s : Service σ) (y : ConnectionId) (es : List Event)
    (c : Command) (r : Response) : Prop where
  comes : ∀ arrivals, Arrival.Carry arrivals (Frame.encode c.text) → ∃ n,
    Exchange execution s y es (arrivals.map (.arrive y) ++ List.replicate n (.proceed y)) c
  sent : ∀ es', Exchange execution s y es es' c →
    (s.run execution (es ++ es')).sent y = (s.run execution es).sent y ++ Frame.encode r.render ∧
      Attended execution s y (es ++ es')

theorem Attended.replied (hs : s.handlers = []) (ha : Attended execution s y es)
    (hfree : '\x00' ∉ c.text.toList)
    (hfits : (Text.Utf8.encode c.text.toList).length ≤ s.frameLimit) :
    Replied execution s y es c (execution (s.run execution es).state c).2 where
  comes _ hc := exists_exchange hs ha hfree hfits hc
  sent _ hx := ⟨(hx.answered hs ha).2, hx.attended hs ha⟩

/-- A handler at rest is not touched by what is done to the others. -/
theorem handler?_of_resting {e : Event} (hy : (s.handler? y).isSome)
    (hrest : s.Resting execution y) (hnothing : s.arrival? y e = none) :
    (s.step execution e).handler? y = s.handler? y := by
  have hmoved := moved execution s y e
  generalize (s.step execution e).handler? y = after at hmoved ⊢
  cases hmoved with
  | same => rfl
  | connected acceptances he hnone => simp [hnone] at hy
  | arrived h a he hh =>
    subst he
    simp [arrival?, hy] at hnothing
  | proceeded h next he hh hstep => simp [hrest h hh] at hstep

theorem handler?_of_resting_run (hy : (s.handler? y).isSome) (hrest : s.Resting execution y)
    (hnothing : s.delivered execution y es = []) :
    (s.run execution es).handler? y = s.handler? y := by
  induction es generalizing s with
  | nil => rfl
  | cons e es ih =>
    obtain ⟨hhere, hlater⟩ := List.append_eq_nil_iff.mp hnothing
    have hsame := handler?_of_resting hy hrest (Option.toList_eq_nil_iff.mp hhere)
    have hrest' : (s.step execution e).Resting execution y := fun h hh =>
      Handler.step?_eq_none _ (hrest h (hsame ▸ hh))
    rw [run_cons, ih (hsame ▸ hy) hrest' hlater, hsame]

/-- Who has nothing to say stays attended while others are served. -/
theorem Attended.quiet (ha : Attended execution s y es)
    (hnothing : (s.run execution es).delivered execution y es' = []) (hpatient : Patient y es') :
    Attended execution s y (es ++ es') := by
  have hsame := handler?_of_resting_run ha.connected ha.resting hnothing
  rw [← run_append] at hsame
  refine ⟨hsame ▸ ha.connected, patient_append ha.patient hpatient, ?_, ?_⟩
  · rw [delivered_append, hnothing, List.append_nil]
    exact ha.frames
  · intro h hh
    exact Handler.step?_eq_none _ (ha.resting h (hsame ▸ hh))

/-- So is a client that has just connected. -/
theorem attended_connect (hs : s.handlers = []) (hopen : (s.run execution es).accepting)
    (hnew : (s.run execution es).handler? y = none) (hpatient : Patient y es)
    {acceptances : List Acceptance} (haccepts : ∀ a ∈ acceptances, a.accepts = true) :
    Attended execution s y (es ++ [.connect y acceptances]) := by
  have hhandler : (s.run execution (es ++ [.connect y acceptances])).handler? y =
      some (.ofArrivals (s.run execution es).frameLimit [] acceptances) := by
    have hfree : (s.run execution es).handlers.lookup y = none := hnew
    rw [run_append, run_cons, run_nil, step, connect, if_pos (by simp [hopen, hnew]), handler?,
      List.lookup_append, hfree]
    simp
  have htracked := tracked_run (tracked_fresh execution hs s.frameLimit y) es
  rw [hnew] at htracked
  have hnothing : s.delivered execution y es = [] := htracked.1
  refine ⟨by rw [hhandler]; rfl, patient_append hpatient ?_, ⟨[], ?_, rfl, ?_⟩, ?_⟩
  · rintro _ he
    obtain rfl := (Event.connect.inj (List.mem_singleton.mp he)).2
    exact haccepts
  · rw [delivered_append, hnothing]
    exact ⟨List.forall_mem_nil _, rfl⟩
  · rintro start hstart
    rw [List.prefix_nil.mp hstart]
    exact Nat.zero_le _
  · intro h hh
    obtain rfl := Option.some.inj (hhandler.symm.trans hh)
    rfl

end Service
end QueryServer
