import QueryServer.Proofs.Connection.Conservation
import QueryServer.Proofs.Connection.Emission
/-!
What a connection asks of its decoder and of its stream in the course of one read. Main statement:
whatever came before, the stream is read only where no frame is complete, and little waits in the
buffer then.
-/

namespace QueryServer
namespace Reader

/-- What a reader does, and what it is when it does it. -/
inductive Act where
  /-- It looks for a frame in its buffer, after which more may come. -/
  | decode (r : Reader)
  /-- It looks for a frame in its buffer, after which the stream has ended. -/
  | decodeEnd (r : Reader)
  /-- It reads the stream. -/
  | fetch (r : Reader)
  deriving DecidableEq, Repr

def Act.isFetch : Act → Bool
  | fetch _ => true
  | _ => false

/-- What a reader asks of its decoder when it settles. -/
def asks (r : Reader) : Option Act :=
  if r.errored then none
  else if r.readable then some (if r.ended then .decodeEnd r else .decode r)
  else none

/-- What one read of the stream brings. -/
def take (r : Reader) : Arrival → Option Result × Reader
  | .pending => (none, r)
  | .failure message => (some (.error (.stream message)), { r with errored := true })
  | .chunk bytes => (none, r.receive bytes)
  | .ending => if r.ended then (some (.ok none), r) else (none, r.atEnd)

/-- The course of one read: a reader settles, reads the stream if nothing is to be reported, and
begins again unless the stream brings a report. -/
inductive Course : Reader → List Arrival → List Act → Result × Reader × List Arrival → Prop where
  | settled {r r' : Reader} {result : Result} (arrivals : List Arrival)
      (settles : r.settle = (some result, r')) :
      Course r arrivals r.asks.toList (result, r', arrivals)
  | reported {r q r' : Reader} {result : Result} {arrivals : List Arrival}
      (settles : r.settle = (none, q))
      (takes : q.take (arrivals.headD .ending) = (some result, r')) :
      Course r arrivals (r.asks.toList ++ [.fetch q]) (result, r', arrivals.tail)
  | again {r q r' : Reader} {arrivals : List Arrival} {acts : List Act}
      {outcome : Result × Reader × List Arrival} (settles : r.settle = (none, q))
      (takes : q.take (arrivals.headD .ending) = (none, r'))
      (more : Course r' arrivals.tail acts outcome) :
      Course r arrivals (r.asks.toList ++ .fetch q :: acts) outcome

/-- Unless the reader is about to decode, its buffer holds no more bytes than the limit allows. -/
def Within (limit : Nat) (r : Reader) : Prop :=
  r.readable = false ∨ r.errored = true ∨ r.ended = true → r.buffer.length ≤ limit

variable {limit : Nat} {r q r' : Reader} {found : Option Result} {result : Result}
variable {arrivals : List Arrival} {acts : List Act} {outcome : Result × Reader × List Arrival}

theorem Settles.quiet (hs : r.Settles limit (none, q)) : q.Quiet := by
  cases hs with
  | waiting errored => exact ⟨errored, rfl⟩
  | idle quiet => exact quiet

theorem Sound.of_settle (h : r.Sound limit) (hs : r.settle = (found, r')) :
    r.Settles limit (found, r') :=
  hs ▸ h.settles

/-- At the end of the stream there is always something to report. -/
theorem Sound.settle_atEnd (h : q.atEnd.Sound limit) :
    ∃ result r', q.atEnd.settle = (some result, r') := by
  have hs := h.settles
  generalize q.atEnd.settle = out at hs ⊢
  cases hs with
  | waiting _ _ ended => cases ended
  | idle quiet => cases quiet.readable
  | _ => exact ⟨_, _, rfl⟩

theorem Settles.within (hs : r.Settles limit (found, r')) (h : r.Within limit)
    (hf : ∀ e, found ≠ some (.error (.tooLarge e))) : r'.Within limit := by
  cases hs with
  | recovered errored => exact fun _ => h (.inr (.inl errored))
  | refused => exact absurd rfl (hf _)
  | dropped => exact fun _ => Nat.zero_le _
  | found errored readable ended => simp [Within, errored, readable, ended]
  | waiting _ _ _ _ fits => exact fun _ => fits
  | idle => exact h

theorem take_of_ended (he : q.ended = true) : q.take .ending = (some (.ok none), q) := by
  simp [Reader.take, he]

theorem take_of_not_ended (he : q.ended = false) : q.take .ending = (none, q.atEnd) := by
  simp [Reader.take, he]

/-- A stream that brings its end and no report has not ended before. -/
theorem eq_atEnd_of_take (ht : q.take .ending = (none, r')) : r' = q.atEnd := by
  cases he : q.ended with
  | true => simp [take_of_ended he] at ht
  | false => simpa [take_of_not_ended he, eq_comm] using ht

theorem Sound.take (h : q.Sound limit) (hq : q.Quiet) (arrival : Arrival) :
    (q.take arrival).2.Sound limit := by
  cases arrival with
  | pending => exact h
  | failure message => exact (h.fail hq).1
  | chunk bytes => exact (h.receive hq bytes).1
  | ending =>
    cases he : q.ended with
    | true => rwa [take_of_ended he]
    | false =>
      rw [take_of_not_ended he]
      exact (h.atEnd hq he).1

theorem Within.take (h : q.Within limit) (hq : q.Quiet) (arrival : Arrival) :
    (q.take arrival).2.Within limit := by
  have hfits : q.buffer.length ≤ limit := h (.inl hq.readable)
  cases arrival with
  | pending => exact h
  | failure message => exact fun _ => hfits
  | chunk bytes => simp [Reader.take, Reader.receive, Within, hq.errored]
  | ending =>
    cases he : q.ended with
    | true => rwa [take_of_ended he]
    | false =>
      rw [take_of_not_ended he]
      exact fun _ => hfits

theorem read_of_settled (hs : r.settle = (some result, r')) (arrivals : List Arrival) :
    r.read arrivals = (result, r', arrivals) := by
  cases arrivals <;> simp [Reader.read, Reader.poll, hs]

theorem read_cons (hs : r.settle = (none, q)) (arrival : Arrival) (rest : List Arrival) :
    r.read (arrival :: rest) =
      match q.take arrival with
      | (some result, r') => (result, r', rest)
      | (none, r') => r'.read rest := by
  cases arrival with
  | ending =>
    cases he : q.ended with
    | true => simp [Reader.read, Reader.poll, hs, take_of_ended he, he]
    | false => simp [Reader.read, Reader.poll, hs, take_of_not_ended he, he]
  | pending => simp [Reader.read, Reader.poll, hs, Reader.take]
  | chunk bytes => simp [Reader.read, Reader.poll, hs, Reader.take]
  | failure message => simp [Reader.read, Reader.poll, hs, Reader.take]

/-- After all that is listed a read goes on as if the end of the stream were listed. -/
theorem read_nil (h : q.Sound limit) (hq : q.Quiet) (hs : r.settle = (none, q)) :
    r.read [] =
      match q.take .ending with
      | (some result, r') => (result, r', [])
      | (none, r') => r'.read [] := by
  cases he : q.ended with
  | true => simp [Reader.read, Reader.poll, hs, take_of_ended he, he]
  | false =>
    obtain ⟨result, r', hend⟩ := (h.atEnd hq he).1.settle_atEnd
    simp [Reader.read, Reader.poll, hs, take_of_not_ended he, he, hend]

/-- One turn of a read. -/
theorem read_eq (h : q.Sound limit) (hq : q.Quiet) (hs : r.settle = (none, q))
    (arrivals : List Arrival) :
    r.read arrivals =
      match q.take (arrivals.headD .ending) with
      | (some result, r') => (result, r', arrivals.tail)
      | (none, r') => r'.read arrivals.tail := by
  cases arrivals with
  | nil => exact read_nil h hq hs
  | cons arrival rest => exact read_cons hs arrival rest

/-- A reader that has read the stream is as sound as before. -/
theorem Sound.turn (h : r.Sound limit) (hs : r.settle = (none, q)) {arrival : Arrival}
    (ht : q.take arrival = (found, r')) : r'.Sound limit := by
  have hq := h.of_settle hs
  have hnext := (hq.sound h).take hq.quiet arrival
  rwa [ht] at hnext

theorem Course.outcome_eq (hc : Course r arrivals acts outcome) (h : r.Sound limit) :
    outcome = r.read arrivals := by
  induction hc with
  | settled arrivals settles => exact (read_of_settled settles arrivals).symm
  | reported settles takes =>
    have hq := h.of_settle settles
    rw [read_eq (hq.sound h) hq.quiet settles, takes]
  | again settles takes _ ih =>
    have hq := h.of_settle settles
    rw [read_eq (hq.sound h) hq.quiet settles, takes]
    exact ih (h.turn settles takes)

theorem Within.turn (hw : r.Within limit) (h : r.Sound limit) (hs : r.settle = (none, q))
    {arrival : Arrival} (ht : q.take arrival = (found, r')) : r'.Within limit := by
  have hq := h.of_settle hs
  have hnext := (hq.within hw (by simp)).take hq.quiet arrival
  rwa [ht] at hnext

/-- A read has a course if what is left of it after its first turn has one. -/
theorem Sound.course_of (h : r.Sound limit)
    (hmore : ∀ q r' : Reader, q.take (arrivals.headD .ending) = (none, r') → r'.Sound limit →
      ∃ acts, Course r' arrivals.tail acts (r'.read arrivals.tail)) :
    ∃ acts, Course r arrivals acts (r.read arrivals) := by
  rcases hs : r.settle with ⟨_ | result, q⟩
  · have hq := h.of_settle hs
    rw [read_eq (hq.sound h) hq.quiet hs]
    rcases ht : q.take (arrivals.headD .ending) with ⟨_ | result, r'⟩
    · obtain ⟨acts, hc⟩ := hmore q r' ht (h.turn hs ht)
      exact ⟨_, .again hs ht hc⟩
    · exact ⟨_, .reported hs ht⟩
  · rw [read_of_settled hs]
    exact ⟨_, .settled arrivals hs⟩

/-- Every read has its course: it returns. -/
theorem Sound.course (h : r.Sound limit) (arrivals : List Arrival) :
    ∃ acts, Course r arrivals acts (r.read arrivals) := by
  induction arrivals generalizing r with
  | nil =>
    refine h.course_of fun q r' ht hsound => ?_
    obtain rfl := eq_atEnd_of_take ht
    obtain ⟨result, r'', hend⟩ := hsound.settle_atEnd
    rw [List.tail_nil, read_of_settled hend]
    exact ⟨_, .settled [] hend⟩
  | cons arrival rest ih => exact h.course_of fun q r' _ hsound => ih hsound

/-- A decoder is asked by a reader that is readable and has no error to report. -/
theorem asks_eq_some {act : Act} (ha : r.asks = some act) :
    r.errored = false ∧ r.readable = true ∧
      act = if r.ended then .decodeEnd r else .decode r := by
  cases he : r.errored with
  | true => simp [asks, he] at ha
  | false =>
    cases hr : r.readable with
    | true =>
      have hact : (if r.ended then Act.decodeEnd r else Act.decode r) = act := by
        simpa [asks, he, hr] using ha
      exact ⟨rfl, rfl, hact.symm⟩
    | false => simp [asks, he, hr] at ha

theorem asks_eq_decode (ha : r.asks = some (.decode q)) :
    r = q ∧ q.errored = false ∧ q.readable = true ∧ q.ended = false := by
  obtain ⟨he, hr, hact⟩ := asks_eq_some ha
  cases hend : r.ended with
  | true => simp [hend] at hact
  | false =>
    obtain rfl : q = r := by simpa [hend] using hact
    exact ⟨rfl, he, hr, hend⟩

theorem asks_eq_decodeEnd (ha : r.asks = some (.decodeEnd q)) :
    r = q ∧ q.errored = false ∧ q.readable = true ∧ q.ended = true := by
  obtain ⟨he, hr, hact⟩ := asks_eq_some ha
  cases hend : r.ended with
  | true =>
    obtain rfl : q = r := by simpa [hend] using hact
    exact ⟨rfl, he, hr, hend⟩
  | false => simp [hend] at hact

theorem isFetch_of_asks {act : Act} (ha : r.asks = some act) : act.isFetch = false := by
  obtain ⟨-, -, rfl⟩ := asks_eq_some ha
  split <;> rfl

/-- The stream is read by sound readers that have nothing to report. -/
theorem Course.fetched (hc : Course r arrivals acts outcome) (h : r.Sound limit)
    (ha : .fetch q ∈ acts) :
    q.Sound limit ∧ q.Quiet ∧ (r.Within limit → q.Within limit) := by
  induction hc with
  | settled arrivals settles =>
    cases isFetch_of_asks (Option.mem_toList.mp ha)
  | reported settles takes =>
    have hq := h.of_settle settles
    rcases List.mem_append.mp ha with ha | ha
    · cases isFetch_of_asks (Option.mem_toList.mp ha)
    · cases List.mem_singleton.mp ha
      exact ⟨hq.sound h, hq.quiet, fun hw => hq.within hw (by simp)⟩
  | again settles takes more ih =>
    have hq := h.of_settle settles
    rcases List.mem_append.mp ha with ha | ha
    · cases isFetch_of_asks (Option.mem_toList.mp ha)
    rcases List.mem_cons.mp ha with ha | ha
    · cases ha
      exact ⟨hq.sound h, hq.quiet, fun hw => hq.within hw (by simp)⟩
    · obtain ⟨hsound, hquiet, hwithin⟩ := ih (h.turn settles takes) ha
      exact ⟨hsound, hquiet, fun hw => hwithin (hw.turn h settles takes)⟩

/-- A decoder is asked by sound readers. Its answer is the outcome of the read, or no answer yet. -/
theorem Course.asked (hc : Course r arrivals acts outcome) (h : r.Sound limit) {act : Act}
    (ha : act ∈ acts) (hact : act.isFetch = false) :
    ∃ q : Reader, q.asks = some act ∧ q.Sound limit ∧
      (q.settle.1 = none ∨
        q.settle = (some outcome.1, outcome.2.1) ∧ acts.getLast? = some act) := by
  induction hc with
  | settled arrivals settles =>
    have hasks := Option.mem_toList.mp ha
    exact ⟨_, hasks, h, .inr ⟨settles, by simp [hasks]⟩⟩
  | reported settles takes =>
    rcases List.mem_append.mp ha with ha | ha
    · exact ⟨_, Option.mem_toList.mp ha, h, .inl (by rw [settles])⟩
    · cases List.mem_singleton.mp ha
      cases hact
  | again settles takes more ih =>
    rcases List.mem_append.mp ha with ha | ha
    · exact ⟨_, Option.mem_toList.mp ha, h, .inl (by rw [settles])⟩
    rcases List.mem_cons.mp ha with rfl | ha
    · cases hact
    · obtain ⟨q₁, hasks, hsound, hanswer⟩ := ih (h.turn settles takes) ha
      refine ⟨q₁, hasks, hsound, hanswer.imp_right ?_⟩
      rintro ⟨hsettle, hlast⟩
      exact ⟨hsettle, by simp [List.getLast?_append, List.getLast?_cons, hlast]⟩

theorem Sound.settle_of_cut (h : r.Sound limit) {piece rest : Bytes} (he : r.errored = false)
    (hr : r.readable = true) (hend : r.ended = false)
    (hcut : Frame.cut? r.buffer = some (piece, rest)) :
    r.settle = (some (Residue.frame piece),
      { r with decoder := { r.decoder with scanned := 0 }, buffer := rest }) := by
  simp [Reader.settle, he, hr, hend, Frame.Decoder.decode_of_cut h.decoder hcut, Reader.after,
    Residue.frame]

theorem Sound.settle_of_end (h : r.Sound limit) (he : r.errored = false) (hr : r.readable = true)
    (hend : r.ended = true) (hnull : (r.decoder.decodeEnd r.buffer).1 = .ok none) :
    r.settle = (some (.ok none),
      { r with decoder := { r.decoder with scanned := 0 }, buffer := [], readable := false }) := by
  have hrest := r.decoder.decodeEnd_of_no_cut (h.drained (.inr (.inr hend)))
  rw [hrest] at hnull
  have hfits : ¬ r.decoder.limit < r.buffer.length := by
    intro hl
    simp [hl] at hnull
  simp [Reader.settle, he, hr, hend, hfits, Reader.after, hrest]

/-- A frame that the decoder is asked for and that is complete is the outcome of the read. -/
theorem Course.complete (hc : Course r arrivals acts outcome) (h : r.Sound limit)
    {piece rest : Bytes} (ha : .decode q ∈ acts) (hcut : Frame.cut? q.buffer = some (piece, rest)) :
    acts.getLast? = some (.decode q) ∧ outcome.1 = Residue.frame piece ∧
      outcome.2.1.buffer = rest := by
  obtain ⟨q₁, hasks, hsound, hanswer⟩ := hc.asked h ha rfl
  obtain ⟨rfl, he, hr, hend⟩ := asks_eq_decode hasks
  rw [hsound.settle_of_cut he hr hend hcut] at hanswer
  rcases hanswer with hnone | ⟨hsome, hlast⟩
  · cases hnone
  · simp only [Prod.mk.injEq, Option.some.injEq] at hsome
    exact ⟨hlast, hsome.1.symm, by rw [← hsome.2]⟩

theorem Course.undelimited (hc : Course r arrivals acts outcome) (h : r.Sound limit)
    (ha : .decodeEnd q ∈ acts) : Frame.terminator ∉ q.buffer := by
  obtain ⟨q₁, hasks, hsound, -⟩ := hc.asked h ha rfl
  obtain ⟨rfl, -, -, hend⟩ := asks_eq_decodeEnd hasks
  exact hsound.drained (.inr (.inr hend))

/-- Bytes that are dropped at the end of the stream leave nothing behind. -/
theorem Course.dropped (hc : Course r arrivals acts outcome) (h : r.Sound limit)
    (ha : .decodeEnd q ∈ acts) (hnull : (q.decoder.decodeEnd q.buffer).1 = .ok none) :
    outcome.1 = .ok none ∧ outcome.2.1.buffer = [] ∧ outcome.2.1.decoder.scanned = 0 := by
  obtain ⟨q₁, hasks, hsound, hanswer⟩ := hc.asked h ha rfl
  obtain ⟨rfl, he, hr, hend⟩ := asks_eq_decodeEnd hasks
  rw [hsound.settle_of_end he hr hend hnull] at hanswer
  rcases hanswer with hnone | ⟨hsome, -⟩
  · cases hnone
  · simp only [Prod.mk.injEq, Option.some.injEq] at hsome
    exact ⟨hsome.1.symm, by rw [← hsome.2], by rw [← hsome.2]⟩

theorem Course.of_settled (hc : Course r arrivals acts outcome)
    (hs : r.settle = (some result, r')) : acts = r.asks.toList := by
  cases hc with
  | settled => rfl
  | reported settles => simp [hs] at settles
  | again settles => simp [hs] at settles

/-- A frame that is complete from the start ends the read at once. -/
theorem Course.atOnce (hc : Course r arrivals acts outcome) (h : r.Sound limit)
    (hmem : Frame.terminator ∈ r.buffer) : acts = [.decode r] := by
  have hbusy := mt h.drained (not_not_intro hmem)
  simp only [not_or, Bool.not_eq_false, Bool.not_eq_true] at hbusy
  obtain ⟨hr, he, hend⟩ := hbusy
  cases hcut : Frame.cut? r.buffer with
  | none => exact absurd hmem (Frame.cut?_eq_none_iff.mp hcut)
  | some cut =>
    rw [hc.of_settled (h.settle_of_cut he hr hend hcut)]
    simp [asks, he, hr, hend]

theorem countP_asks (r : Reader) : r.asks.toList.countP Act.isFetch = 0 := by
  rw [List.countP_eq_zero]
  intro act ha
  simp [isFetch_of_asks (Option.mem_toList.mp ha)]

/-- Each read of the stream takes an entry of what is listed, and after the last one there is one
more at most. -/
theorem Course.countP_isFetch (hc : Course r arrivals acts outcome) (h : r.Sound limit) :
    outcome.2.2 = arrivals.drop (acts.countP Act.isFetch) ∧
      acts.countP Act.isFetch ≤ arrivals.length + 1 := by
  induction hc with
  | settled arrivals settles => simp [countP_asks]
  | reported settles takes => simp [countP_asks, Act.isFetch]
  | @again r q r' arrivals acts outcome settles takes more ih =>
    have hcount : (r.asks.toList ++ .fetch q :: acts).countP Act.isFetch =
        acts.countP Act.isFetch + 1 := by
      rw [List.countP_append, countP_asks, List.countP_cons_of_pos rfl, Nat.zero_add]
    have hsound := h.turn settles takes
    obtain ⟨hrest, hle⟩ := ih hsound
    rw [hcount]
    refine ⟨by rw [hrest, ← List.drop_one, List.drop_drop, Nat.add_comm], ?_⟩
    cases arrivals with
    | nil =>
      obtain rfl := eq_atEnd_of_take takes
      obtain ⟨result, r'', hend⟩ := hsound.settle_atEnd
      simp [more.of_settled hend, countP_asks]
    | cons arrival rest =>
      rw [List.tail_cons] at hle
      rw [List.length_cons]
      omega

/-- A read leaves few bytes behind unless it refuses too many. -/
theorem Course.within (hc : Course r arrivals acts outcome) (h : r.Sound limit)
    (hw : r.Within limit) (hf : ∀ e, outcome.1 ≠ .error (.tooLarge e)) :
    outcome.2.1.Within limit := by
  induction hc with
  | settled arrivals settles =>
    exact (h.of_settle settles).within hw fun e he => hf e (Option.some.inj he)
  | reported settles takes => exact hw.turn h settles takes
  | again settles takes _ ih => exact ih (h.turn settles takes) (hw.turn h settles takes) hf

end Reader

namespace Connection

/-- What the reads among calls report. -/
def reports : Connection → List Call → List Reader.Result
  | _, [] => []
  | c, .read :: calls => c.readFrame.1 :: reports (c.serve .read) calls
  | c, .write text :: calls => reports (c.serve (.write text)) calls

/-- What is true of a read that does `acts`, where earlier reads reported `before`. -/
structure Sparing (limit : Nat) (before : List Reader.Result) (c : Connection)
    (acts : List Reader.Act) : Prop where
  /-- The stream is read only where no frame is complete. -/
  drained : ∀ r, .fetch r ∈ acts → Frame.terminator ∉ r.buffer
  /-- Until too many bytes are refused, no more than the limit wait there. -/
  bounded : (∀ e, .error (.tooLarge e) ∉ before) →
    ∀ r, .fetch r ∈ acts → r.buffer.length ≤ limit
  /-- For a frame that is complete from the start the stream is not read. -/
  atOnce : Frame.terminator ∈ c.reader.buffer → acts = [.decode c.reader]
  /-- Wherever a frame is complete, it is what the read gives, and nothing is done after that. -/
  complete : ∀ r piece rest, .decode r ∈ acts → Frame.cut? r.buffer = some (piece, rest) →
    acts.getLast? = some (.decode r) ∧ c.readFrame.1 = .ok (some (Frame.textOf piece)) ∧
      c.readFrame.2.reader.buffer = rest
  /-- No frame is complete where the stream has ended. -/
  undelimited : ∀ r, .decodeEnd r ∈ acts → Frame.terminator ∉ r.buffer
  /-- Where nothing is made of the last bytes, they are gone, and so is what was known of them. -/
  dropped : ∀ r, .decodeEnd r ∈ acts → (r.decoder.decodeEnd r.buffer).1 = .ok none →
    c.readFrame.1 = .ok none ∧ c.readFrame.2.reader.buffer = [] ∧
      c.readFrame.2.reader.decoder.scanned = 0
  /-- Each read of the stream takes what is listed next, and at most one goes beyond it. -/
  fetched : c.readFrame.2.arrivals = c.arrivals.drop (acts.countP Reader.Act.isFetch) ∧
    acts.countP Reader.Act.isFetch ≤ c.arrivals.length + 1

variable {limit : Nat} {c : Connection}

theorem readFrame_eq (c : Connection) : c.readFrame = ((c.reader.read c.arrivals).1,
    { c with
      reader := (c.reader.read c.arrivals).2.1
      arrivals := (c.reader.read c.arrivals).2.2 }) :=
  rfl

theorem sound_after (h : c.reader.Sound limit) (calls : List Call) :
    (c.after calls).reader.Sound limit := by
  induction calls generalizing c with
  | nil => exact h
  | cons call calls ih =>
    refine ih (c := c.serve call) ?_
    cases call with
    | write text => exact h
    | read =>
      obtain ⟨result, r', rest, hread, hsound, -⟩ := h.read c.arrivals
      rw [serve, readFrame_eq, hread]
      exact hsound

theorem within_after (h : c.reader.Sound limit) (hw : c.reader.Within limit) {calls : List Call}
    (hclear : ∀ e, .error (.tooLarge e) ∉ c.reports calls) :
    (c.after calls).reader.Within limit := by
  induction calls generalizing c with
  | nil => exact hw
  | cons call calls ih =>
    have hserve := sound_after h [call]
    cases call with
    | write text => exact ih (c := c.serve (.write text)) hserve hw hclear
    | read =>
      simp only [reports, List.mem_cons, not_or] at hclear
      obtain ⟨acts, hc⟩ := h.course c.arrivals
      refine ih (c := c.serve .read) hserve ?_ fun e => (hclear e).2
      exact hc.within h hw fun e he => (hclear e).1 he.symm

/-- After any calls of a connection, whatever its stream does, one more read returns, and all that
it does on the way is sparing: it reads the stream only where no frame is complete, and few bytes
wait there as long as none were refused. -/
theorem reads_sparingly (limit : Nat) (arrivals : List Arrival) (acceptances : List Acceptance)
    (calls : List Call) :
    let start := fresh limit arrivals acceptances
    let c := start.after calls
    (∃ acts outcome, c.reader.Course c.arrivals acts outcome) ∧
      ∀ acts result reader rest, c.reader.Course c.arrivals acts (result, reader, rest) →
        c.readFrame = (result, { c with reader := reader, arrivals := rest }) ∧
          Sparing limit (start.reports calls) c acts := by
  intro start c
  have hfresh : start.reader.Sound limit := Reader.sound_ofLimit limit
  have h : c.reader.Sound limit := sound_after hfresh calls
  refine ⟨?_, ?_⟩
  · obtain ⟨acts, hc⟩ := h.course c.arrivals
    exact ⟨acts, _, hc⟩
  intro acts result reader rest hc
  have hread : c.readFrame = (result, { c with reader := reader, arrivals := rest }) := by
    rw [readFrame_eq, ← hc.outcome_eq h]
  refine ⟨hread, ?_⟩
  constructor
  case drained =>
    intro r hr
    obtain ⟨hsound, hquiet, -⟩ := hc.fetched h hr
    exact hsound.drained (.inl hquiet.readable)
  case bounded =>
    intro hclear r hr
    obtain ⟨-, hquiet, hwithin⟩ := hc.fetched h hr
    have hw : c.reader.Within limit :=
      within_after hfresh (fun _ => Nat.zero_le limit) hclear
    exact hwithin hw (.inl hquiet.readable)
  case atOnce => exact hc.atOnce h
  case complete =>
    intro r piece rest hr hcut
    rw [hread]
    exact hc.complete h hr hcut
  case undelimited => exact fun r hr => hc.undelimited h hr
  case dropped =>
    intro r hr hnull
    rw [hread]
    exact hc.dropped h hr hnull
  case fetched =>
    rw [hread]
    exact hc.countP_isFetch h

/-- After an error, the end that is reported for it and the frame that the error had cut in two, the
last byte of the stream is looked at twice and dropped. -/
theorem reads_sparingly_tail :
    let start := fresh 2 [.chunk [97], .failure "reset", .chunk [98, 0, 99], .ending] []
    let c := start.after [.read, .read, .read]
    let looking : Reader := { decoder := { limit := 2 }, buffer := [99], readable := true }
    let waiting : Reader := { decoder := { limit := 2, scanned := 1 }, buffer := [99] }
    c.reader.Course c.arrivals [.decode looking, .fetch waiting, .decodeEnd waiting.atEnd]
        (.ok none, { Reader.ofLimit 2 with ended := true }, []) ∧
      (∀ e, .error (.tooLarge e) ∉ start.reports [.read, .read, .read]) ∧
      Frame.terminator ∉ waiting.buffer ∧ waiting.buffer.length ≤ 2 ∧
      c.readFrame.1 = .ok none ∧ c.readFrame.2.reader.buffer = [] ∧ c.readFrame.2.arrivals = [] := by
  intro start c looking waiting
  have hreader : c.reader = looking := rfl
  have harrivals : c.arrivals = [.ending] := rfl
  have hc : c.reader.Course c.arrivals
      [.decode looking, .fetch waiting, .decodeEnd waiting.atEnd]
      (.ok none, { Reader.ofLimit 2 with ended := true }, []) := by
    rw [hreader, harrivals]
    exact .again rfl rfl (.settled [] rfl)
  have hreports : start.reports [.read, .read, .read] =
      [.error (.stream "reset"), .ok none, .ok (some "ab")] := rfl
  have hclear : ∀ e, .error (.tooLarge e) ∉ start.reports [.read, .read, .read] := by
    rw [hreports]
    simp
  obtain ⟨-, hall⟩ := reads_sparingly 2 [.chunk [97], .failure "reset", .chunk [98, 0, 99], .ending]
    [] [.read, .read, .read]
  obtain ⟨hread, hsparing⟩ := hall _ _ _ _ hc
  have hfetch : Reader.Act.fetch waiting ∈
      [.decode looking, .fetch waiting, .decodeEnd waiting.atEnd] := by simp
  have hfree := hsparing.drained waiting hfetch
  have hfits := hsparing.bounded hclear waiting hfetch
  refine ⟨hc, hclear, hfree, hfits, ?_⟩
  rw [hread]
  exact ⟨rfl, rfl, rfl⟩

end Connection
end QueryServer
