import QueryServer.Proofs.Connection.Delivery
import QueryServer.Proofs.Connection.Emission
import QueryServer.Server.Start
/-!
A handler from its first byte to its end. Main statement: however its bytes come in and however its
replies go out, it answers the terminated frames that fit, in their order, and nothing else.
-/

namespace QueryServer.Handler

/-- The answers to commands that are executed one after another, and the state after the last. -/
def answers {σ : Type} (run : Execution σ) (s : σ) : List Command → List Response × σ
  | [] => ([], s)
  | c :: cs =>
    let (s', r) := run s c
    let (rs, s'') := answers run s' cs
    (r :: rs, s'')

/-- The bytes of responses, each as one frame. -/
def replies (rs : List Response) : Bytes :=
  rs.flatMap fun r => Frame.encode r.render

/-- The commands in the terminated frames of bytes. -/
def commandsIn (bytes : Bytes) : List Command :=
  (Frame.pieces bytes).map fun piece => ⟨Frame.textOf piece⟩

/-- All commands in `bytes` were answered over the state `s`, and the handler has closed. -/
structure Answered {σ : Type} (run : Execution σ) (s : σ) (bytes : Bytes) (reason : Closing)
    (outcome : σ × Handler) : Prop where
  sent : outcome.2.connection.writer.sent = replies (answers run s (commandsIn bytes)).1
  state : outcome.1 = (answers run s (commandsIn bytes)).2
  phase : outcome.2.phase = .closed reason

/-- A handler between two commands: its last reply is out, and every write takes some bytes. -/
structure Ready (limit : Nat) (h : Handler) : Prop where
  phase : h.phase = .reading
  reader : h.connection.reader.Sound limit
  backlog : h.connection.writer.backlog = []
  accepts : ∀ a ∈ h.connection.acceptances, a.accepts = true

/-- What a handler is still going to read. -/
def due (limit : Nat) (h : Handler) : List Reader.Result :=
  h.connection.reader.due limit h.connection.arrivals

variable {σ : Type} (run : Execution σ) {limit : Nat} {h : Handler} (s : σ)

theorem steps_succ {run : Execution σ} {s s' : σ} {h' : Handler}
    (hs : h.step? run s = some (s', h')) (n : Nat) :
    h.steps run (n + 1) s = h'.steps run n s' := by
  simp [steps, hs]

theorem steps_closed {reason : Closing} (hc : h.phase = .closed reason) (n : Nat) :
    h.steps run n s = (s, h) := by
  cases n with
  | zero => rfl
  | succ n => simp [steps, step?, hc]

/-- The first report that is due decides the phase after a read. -/
theorem Ready.read (hr : h.Ready limit) {result : Reader.Result} {rest : List Reader.Result}
    (hd : h.due limit = result :: rest) :
    ∃ r' arrivals, h.step? run s = some (s, ⟨{ h.connection with reader := r', arrivals },
        afterRead (some result)⟩) ∧ r'.Sound limit ∧ r'.due limit arrivals = rest := by
  rcases hr.reader.poll h.connection.arrivals with
    ⟨result', r', arrivals, hp, hsound, hmore⟩ | ⟨r', hp, hsound, hq, hmore⟩
  · have hcons := hmore []
    simp only [List.append_nil] at hcons
    rw [← due, hd, List.cons.injEq] at hcons
    obtain ⟨rfl, hrest⟩ := hcons
    refine ⟨r', arrivals, ?_, hsound, hrest.symm⟩
    simp [step?, hr.phase, Connection.pollFrame, hp]
  · exfalso
    have hnil := hmore []
    simp only [List.append_nil] at hnil
    rw [← due, hd] at hnil
    simp [Reader.due, hq.owed, Residue.emission] at hnil

/-- One command: it is read, executed and answered to the last byte of its reply. -/
theorem Ready.round (hr : h.Ready limit) {text : String} {rest : List Reader.Result}
    (hd : h.due limit = .ok (some text) :: rest) :
    ∃ h' : Handler, (∀ n, h.steps run (n + 3) s = h'.steps run n (run s ⟨text⟩).1) ∧
      h'.Ready limit ∧ h'.due limit = rest ∧ h'.connection.writer.sent =
        h.connection.writer.sent ++ Frame.encode (run s ⟨text⟩).2.render := by
  obtain ⟨r', arrivals, hread, hsound, hrest⟩ := hr.read run s hd
  obtain ⟨w', left, hwrite, hempty, hsent, hleft⟩ :=
    Writer.write_of_accepts hr.accepts hr.backlog (run s ⟨text⟩).2.render
  refine ⟨⟨⟨r', arrivals, w', left⟩, .reading⟩, ?_, ⟨rfl, hsound, hempty, hleft⟩, hrest, hsent⟩
  intro n
  have hexecute : step? run s ⟨{ h.connection with reader := r', arrivals }, .executing ⟨text⟩⟩ =
      some ((run s ⟨text⟩).1, ⟨{ h.connection with reader := r', arrivals },
        .replying (run s ⟨text⟩).2.render⟩) := rfl
  rw [steps_succ hread, afterRead, steps_succ hexecute, steps_succ]
  simp [step?, Connection.writeFrame, hwrite]

/-- Commands are answered one after another until something else than a command is read. -/
theorem Ready.converse (hr : h.Ready limit) {texts : List String} {result : Reader.Result}
    {rest : List Reader.Result} {reason : Closing}
    (hd : h.due limit = texts.map (.ok ∘ some) ++ result :: rest)
    (hclose : afterRead (some result) = .closed reason) {n : Nat} (hn : 3 * texts.length < n) :
    (h.steps run n s).2.connection.writer.sent =
        h.connection.writer.sent ++ replies (answers run s (texts.map Command.mk)).1 ∧
      (h.steps run n s).1 = (answers run s (texts.map Command.mk)).2 ∧
      (h.steps run n s).2.phase = .closed reason := by
  induction texts generalizing h s n with
  | nil =>
    obtain ⟨m, rfl⟩ := Nat.exists_eq_add_one_of_ne_zero (show n ≠ 0 by omega)
    obtain ⟨r', arrivals, hread, -, -⟩ := hr.read run s hd
    rw [hclose] at hread
    rw [steps_succ hread, steps_closed run s rfl]
    simp [answers, replies]
  | cons text texts ih =>
    rw [List.length_cons] at hn
    obtain ⟨m, rfl⟩ := Nat.exists_eq_add_of_le (show 3 ≤ n by omega)
    obtain ⟨h', hsteps, hready, hdue, hsent⟩ := hr.round run s hd
    have hm : 3 * texts.length < m := by omega
    obtain ⟨hsent', hstate, hphase⟩ := ih (run s ⟨text⟩).1 hready hdue hm
    rw [Nat.add_comm 3 m, hsteps]
    refine ⟨?_, hstate, hphase⟩
    rw [hsent', hsent]
    simp [answers, replies]

theorem due_ofArrivals (limit : Nat) (arrivals : List Arrival) (acceptances : List Acceptance) :
    (ofArrivals limit arrivals acceptances).due limit = Residue.emission limit {} arrivals := by
  have hq : (Reader.ofLimit limit).Quiet := ⟨rfl, rfl⟩
  simp only [due, ofArrivals, Reader.due, hq.owed, hq.residue]
  rfl

/-- A handler answers the frames that come before anything else is reported. -/
theorem answered_of_emission {arrivals : List Arrival} {acceptances : List Acceptance}
    (hacc : ∀ a ∈ acceptances, a.accepts = true) {bytes : Bytes} {result : Reader.Result}
    {rest : List Reader.Result} {reason : Closing}
    (he : Residue.emission limit {} arrivals =
      (Frame.pieces bytes).map Residue.frame ++ result :: rest)
    (hclose : afterRead (some result) = .closed reason)
    (hlen : bytes.length ≤ (arrivals.flatMap Arrival.bytes).length) :
    Answered run s bytes reason ((ofArrivals limit arrivals acceptances).settle run s) := by
  have hready : (ofArrivals limit arrivals acceptances).Ready limit :=
    ⟨rfl, Reader.sound_ofLimit limit, rfl, hacc⟩
  have hdue : (ofArrivals limit arrivals acceptances).due limit =
      ((Frame.pieces bytes).map Frame.textOf).map (.ok ∘ some) ++ result :: rest := by
    rw [due_ofArrivals, he, List.map_map]
    rfl
  have henough : 3 * ((Frame.pieces bytes).map Frame.textOf).length <
      (ofArrivals limit arrivals acceptances).enough := by
    have := Frame.length_pieces_le bytes
    simp only [List.length_map, enough, waiting, ofArrivals, Reader.ofLimit, List.length_nil]
    omega
  obtain ⟨hsent, hstate, hphase⟩ := hready.converse run s hdue hclose henough
  have hcommands : ((Frame.pieces bytes).map Frame.textOf).map Command.mk = commandsIn bytes := by
    simp [commandsIn]
  rw [hcommands] at hsent hstate
  exact ⟨hsent, hstate, hphase⟩

theorem flatMap_bytes_chunks (chunks : List Bytes) :
    (chunks.map Arrival.chunk).flatMap Arrival.bytes = chunks.flatten := by
  induction chunks with
  | nil => rfl
  | cons c cs ih =>
    rw [List.map_cons, List.flatMap_cons, ih, List.flatten_cons]
    rfl

variable {acceptances : List Acceptance} {chunks before : List Bytes} {c : Bytes}

/-- Where a chunk leaves too many bytes over, what comes after it is never looked at. -/
theorem answered_of_overflow (hacc : ∀ a ∈ acceptances, a.accepts = true)
    (hfit : ∀ j ≤ before.length, (Frame.tail (before.take j).flatten).length ≤ limit)
    (hover : limit < (Frame.tail (before.flatten ++ c)).length) (after : List Bytes) :
    Answered run s (before.flatten ++ c)
      (.read (.tooLarge ⟨(Frame.tail (before.flatten ++ c)).length, limit⟩))
      ((ofArrivals limit ((before ++ c :: after).map .chunk ++ [.ending]) acceptances).settle
        run s) := by
  have hfirst : Residue.emission limit {} (before.map .chunk ++
        (.chunk c :: (after.map .chunk ++ [.ending]))) =
      (Frame.pieces before.flatten).map Residue.frame ++
        Residue.emission limit ⟨Frame.tail before.flatten, false⟩
          (.chunk c :: (after.map .chunk ++ [.ending])) :=
    Residue.emission_chunks List.not_mem_nil (by simpa using hfit) _
  rw [Frame.tail_append] at hover
  have he : Residue.emission limit {} ((before ++ c :: after).map .chunk ++ [.ending]) =
      (Frame.pieces (before.flatten ++ c)).map Residue.frame ++
        .error (.tooLarge ⟨(Frame.tail (before.flatten ++ c)).length, limit⟩) ::
        .ok none :: (Residue.next limit ⟨Frame.tail before.flatten, false⟩ (.chunk c)).emission
          limit (after.map .chunk ++ [.ending]) := by
    rw [List.map_append, List.map_cons, List.append_assoc, List.cons_append, hfirst,
      Residue.emission, Frame.pieces_append, Frame.tail_append]
    simp [Residue.emit, Residue.framesOf, hover, Residue.refusal]
  refine answered_of_emission run s hacc he rfl ?_
  rw [List.flatMap_append, flatMap_bytes_chunks]
  simp

/-- Where no chunk leaves too many bytes over, all of them are looked at. -/
theorem answered_of_fit (hacc : ∀ a ∈ acceptances, a.accepts = true)
    (hfit : ∀ j ≤ chunks.length, (Frame.tail (chunks.take j).flatten).length ≤ limit) :
    Answered run s chunks.flatten .ended
      ((ofArrivals limit (chunks.map .chunk ++ [.ending]) acceptances).settle run s) := by
  have hlast : (Frame.tail chunks.flatten).length ≤ limit := by
    simpa using hfit chunks.length (Nat.le_refl _)
  have he : Residue.emission limit {} (chunks.map .chunk ++ [.ending]) =
      (Frame.pieces chunks.flatten).map Residue.frame ++ [.ok none] := by
    rw [Residue.emission_chunks List.not_mem_nil (by simpa using hfit), List.nil_append]
    simp [Residue.emission, Residue.emit, Nat.not_lt.mpr hlast]
  refine answered_of_emission run s hacc he rfl ?_
  rw [List.flatMap_append, flatMap_bytes_chunks]
  simp

/-- Bytes of which no run without a terminator is too long fit however they are cut. -/
theorem fit_of_runs
    (hruns : ∀ bytes, bytes <:+: chunks.flatten → Frame.terminator ∉ bytes → bytes.length ≤ limit)
    (j : Nat) : (Frame.tail (chunks.take j).flatten).length ≤ limit := by
  apply hruns _ _ (Frame.not_mem_split _).2
  have hprefix : (chunks.take j).flatten <+: chunks.flatten :=
    ⟨(chunks.drop j).flatten, by rw [← List.flatten_append, List.take_append_drop]⟩
  exact (Frame.tail_suffix _).isInfix.trans hprefix.isInfix

/-- What a handler sends over a store and what becomes of the store, for every way in which its
bytes are cut into chunks and its writes are accepted in parts. -/
theorem settle_ofArrivals (store : Store) (d : Disk) (limit : Nat) (chunks : List Bytes)
    (acceptances : List Acceptance) (hacc : ∀ a ∈ acceptances, a.accepts = true) :
    (∀ k < chunks.length,
      (∀ j ≤ k, (Frame.tail (chunks.take j).flatten).length ≤ limit) →
      limit < (Frame.tail (chunks.take (k + 1)).flatten).length →
      Answered store.execution d (chunks.take (k + 1)).flatten
        (.read (.tooLarge ⟨(Frame.tail (chunks.take (k + 1)).flatten).length, limit⟩))
        ((ofArrivals limit (chunks.map .chunk ++ [.ending]) acceptances).settle
          store.execution d)) ∧
    ((∀ j ≤ chunks.length, (Frame.tail (chunks.take j).flatten).length ≤ limit) →
      Answered store.execution d chunks.flatten .ended
        ((ofArrivals limit (chunks.map .chunk ++ [.ending]) acceptances).settle
          store.execution d)) ∧
    (∀ (chunks' : List Bytes) (acceptances' : List Acceptance),
      (∀ a ∈ acceptances', a.accepts = true) → chunks'.flatten = chunks.flatten →
      (∀ bytes, bytes <:+: chunks.flatten → Frame.terminator ∉ bytes → bytes.length ≤ limit) →
      let one := (ofArrivals limit (chunks.map .chunk ++ [.ending]) acceptances).settle
        store.execution d
      let other := (ofArrivals limit (chunks'.map .chunk ++ [.ending]) acceptances').settle
        store.execution d
      one.2.connection.writer.sent = other.2.connection.writer.sent ∧ one.1 = other.1) := by
  refine ⟨?_, answered_of_fit _ _ hacc, ?_⟩
  · intro k hk hfit hover
    have hchunks : chunks = chunks.take k ++ chunks[k] :: chunks.drop (k + 1) := by
      rw [← List.drop_eq_getElem_cons hk, List.take_append_drop]
    have htake : (chunks.take (k + 1)).flatten = (chunks.take k).flatten ++ chunks[k] := by
      rw [List.take_succ_eq_append_getElem hk, List.flatten_append]
      simp
    have hbefore : ∀ j ≤ (chunks.take k).length,
        (Frame.tail ((chunks.take k).take j).flatten).length ≤ limit := by
      intro j hj
      rw [List.length_take_of_le (Nat.le_of_lt hk)] at hj
      rw [List.take_take, Nat.min_eq_left hj]
      exact hfit j hj
    rw [htake] at hover ⊢
    have h := answered_of_overflow store.execution d hacc hbefore hover (chunks.drop (k + 1))
    rwa [← hchunks] at h
  · intro chunks' acceptances' hacc' hsame hruns
    have hone := answered_of_fit store.execution d hacc (fun j _ => fit_of_runs hruns j)
    rw [← hsame] at hruns
    have hother := answered_of_fit store.execution d hacc' (fun j _ => fit_of_runs hruns j)
    rw [hsame] at hother
    exact ⟨hone.sent.trans hother.sent.symm, hone.state.trans hother.state.symm⟩

/-- A blank command is answered although the bytes that follow it are too many. -/
theorem settle_ofArrivals_overflow :
    (∀ a ∈ [Acceptance.upTo 1, .pending, .upTo 4], a.accepts = true) ∧
      3 < (Frame.tail [32, 0, 65, 66, 67, 68]).length ∧
      ((ofArrivals 3 ([[32], [0, 65], [66, 67, 68], [0]].map .chunk ++ [.ending])
        [.upTo 1, .pending, .upTo 4]).settle (Store.execution ⟨"store.db", 5000⟩)
          {}).2.connection.writer.sent = Frame.encode "SUCCESS" := by
  refine ⟨by decide, by decide, ?_⟩
  have h := (settle_ofArrivals ⟨"store.db", 5000⟩ {} 3 [[32], [0, 65], [66, 67, 68], [0]]
    [.upTo 1, .pending, .upTo 4] (by decide)).1 2 (by decide) (by decide) (by decide)
  rw [h.sent]
  decide +kernel

end QueryServer.Handler
