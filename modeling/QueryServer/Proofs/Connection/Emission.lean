import QueryServer.Connection
import QueryServer.Proofs.Frame.Resumption
/-!
What a connection reports, said without a decoder and without flags: from the bytes of an
unfinished frame and from whether the end of the stream was met after them. Main statement:
successive reads give the items of this emission one after another.
-/

namespace QueryServer

/-- The bytes of an unfinished frame, and whether the stream has ended since they came. -/
structure Residue where
  bytes : Bytes := []
  ended : Bool := false
  deriving DecidableEq, Repr

namespace Residue

/-- The report of a terminated piece. -/
def frame (piece : Bytes) : Reader.Result :=
  .ok (some (Frame.textOf piece))

/-- The reports of too many bytes without a terminator: an error is followed by an end. -/
def refusal (limit : Nat) (bytes : Bytes) : List Reader.Result :=
  [.error (.tooLarge ⟨bytes.length, limit⟩), .ok none]

/-- The reports of bytes that came in: their frames, and a refusal if too many are left over. -/
def framesOf (limit : Nat) (bytes : Bytes) : List Reader.Result :=
  (Frame.pieces bytes).map frame ++
    if limit < (Frame.tail bytes).length then refusal limit (Frame.tail bytes) else []

/-- What is reported when something arrives. -/
def emit (limit : Nat) (r : Residue) : Arrival → List Reader.Result
  | .pending => []
  | .chunk bytes => framesOf limit (r.bytes ++ bytes)
  | .failure message => [.error (.stream message), .ok none]
  | .ending =>
    if r.ended then [.ok none]
    else if limit < r.bytes.length then refusal limit r.bytes
    else [.ok none]

/-- What is left after something has arrived. Only bytes that fit are dropped at an end. -/
def next (limit : Nat) (r : Residue) : Arrival → Residue
  | .pending => r
  | .chunk bytes => ⟨Frame.tail (r.bytes ++ bytes), false⟩
  | .failure _ => r
  | .ending =>
    if r.ended then r
    else if limit < r.bytes.length then ⟨r.bytes, true⟩
    else ⟨[], true⟩

/-- All reports of arrivals in their order. -/
def emission (limit : Nat) : Residue → List Arrival → List Reader.Result
  | _, [] => []
  | r, a :: as => r.emit limit a ++ (r.next limit a).emission limit as

theorem framesOf_of_cut {bytes piece rest : Bytes} (limit : Nat)
    (h : Frame.cut? bytes = some (piece, rest)) :
    framesOf limit bytes = frame piece :: framesOf limit rest := by
  simp [framesOf, Frame.pieces_of_cut h, Frame.tail_of_cut h]

theorem framesOf_of_not_mem {bytes : Bytes} (limit : Nat) (h : Frame.terminator ∉ bytes) :
    framesOf limit bytes = if limit < bytes.length then refusal limit bytes else [] := by
  simp [framesOf, Frame.pieces_of_not_mem h, Frame.tail_of_not_mem h]

/-- Chunks that never leave too much over are reported like all their bytes at once. -/
theorem emission_chunks {limit : Nat} {chunks : List Bytes} {bytes : Bytes}
    (hfree : Frame.terminator ∉ bytes)
    (hfit : ∀ k ≤ chunks.length, (Frame.tail (bytes ++ (chunks.take k).flatten)).length ≤ limit)
    (more : List Arrival) :
    emission limit ⟨bytes, false⟩ (chunks.map .chunk ++ more) =
      (Frame.pieces (bytes ++ chunks.flatten)).map frame ++
        emission limit ⟨Frame.tail (bytes ++ chunks.flatten), false⟩ more := by
  induction chunks generalizing bytes with
  | nil => simp [Frame.pieces_of_not_mem hfree, Frame.tail_of_not_mem hfree]
  | cons c cs ih =>
    have hc : (Frame.tail (bytes ++ c)).length ≤ limit := by simpa using hfit 1 (by simp)
    have hframes : framesOf limit (bytes ++ c) = (Frame.pieces (bytes ++ c)).map frame := by
      simp [framesOf, Nat.not_lt.mpr hc]
    have hrest : ∀ k ≤ cs.length,
        (Frame.tail (Frame.tail (bytes ++ c) ++ (cs.take k).flatten)).length ≤ limit := by
      intro k hk
      have := hfit (k + 1) (by simpa using hk)
      rwa [List.take_succ_cons, List.flatten_cons, ← List.append_assoc, Frame.tail_append] at this
    rw [List.map_cons, List.cons_append, emission, emit, next, hframes,
      ih (Frame.not_mem_split (bytes ++ c)).2 hrest, List.flatten_cons,
      ← List.append_assoc bytes, Frame.pieces_append (bytes ++ c), Frame.tail_append (bytes ++ c),
      List.map_append, List.append_assoc]

/-- The end of the stream never passes in silence. -/
theorem emit_ending_ne_nil (limit : Nat) (r : Residue) : r.emit limit .ending ≠ [] := by
  simp only [emit]
  split
  · simp
  · split <;> simp [refusal]

end Residue

namespace Reader
open Residue (refusal framesOf)

/-- What is true of a reader between its calls: its decoder remembers the truth, and only a reader
that is about to decode may have a terminator in its buffer. -/
structure Sound (limit : Nat) (r : Reader) : Prop where
  limit_eq : r.decoder.limit = limit
  decoder : r.decoder.Sound r.buffer
  drained : r.readable = false ∨ r.errored = true ∨ r.ended = true → Frame.terminator ∉ r.buffer

/-- A reader that has nothing to report before it reads the stream. -/
structure Quiet (r : Reader) : Prop where
  errored : r.errored = false
  readable : r.readable = false

/-- What a reader reports before it reads the stream again. -/
def owed (r : Reader) : List Result :=
  if r.errored then [.ok none]
  else if r.readable then
    if r.ended then
      if r.decoder.limit < r.buffer.length then refusal r.decoder.limit r.buffer else [.ok none]
    else framesOf r.decoder.limit r.buffer
  else []

/-- What is left of the buffer after that. -/
def residue (r : Reader) : Residue :=
  if r.errored then ⟨r.buffer, r.ended⟩
  else if r.readable then
    if r.ended then if r.decoder.limit < r.buffer.length then ⟨r.buffer, true⟩ else ⟨[], true⟩
    else ⟨Frame.tail r.buffer, false⟩
  else ⟨r.buffer, r.ended⟩

/-- All reports of a reader and of what arrives. -/
def due (limit : Nat) (r : Reader) (arrivals : List Arrival) : List Result :=
  r.owed ++ r.residue.emission limit arrivals

variable {limit : Nat} {r : Reader}

theorem sound_ofLimit (limit : Nat) : (ofLimit limit).Sound limit :=
  ⟨rfl, Frame.Decoder.Sound.reset { limit } [], fun _ => List.not_mem_nil⟩

theorem Quiet.owed (h : r.Quiet) : r.owed = [] := by
  simp [Reader.owed, h.errored, h.readable]

theorem Quiet.residue (h : r.Quiet) : r.residue = ⟨r.buffer, r.ended⟩ := by
  simp [Reader.residue, h.errored, h.readable]

/-- All that settling can come to. -/
inductive Settles (limit : Nat) (r : Reader) : Option Result × Reader → Prop where
  /-- The end is reported after an error. -/
  | recovered (errored : r.errored = true) :
      Settles limit r (some (.ok none), { r with errored := false, readable := false })
  /-- Too many bytes wait for a terminator. They are left alone. -/
  | refused (errored : r.errored = false) (readable : r.readable = true)
      (free : Frame.terminator ∉ r.buffer) (large : limit < r.buffer.length) :
      Settles limit r
        (some (.error (.tooLarge ⟨r.buffer.length, limit⟩)), { r with errored := true })
  /-- At the end of the stream bytes that fit are dropped. -/
  | dropped (errored : r.errored = false) (readable : r.readable = true) (ended : r.ended = true)
      (free : Frame.terminator ∉ r.buffer) (fits : r.buffer.length ≤ limit) :
      Settles limit r (some (.ok none),
        { r with decoder := { r.decoder with scanned := 0 }, buffer := [], readable := false })
  /-- A frame is complete. -/
  | found (errored : r.errored = false) (readable : r.readable = true) (ended : r.ended = false)
      {piece rest : Bytes} (cut : Frame.cut? r.buffer = some (piece, rest)) :
      Settles limit r (some (Residue.frame piece),
        { r with decoder := { r.decoder with scanned := 0 }, buffer := rest })
  /-- No frame is complete, and what waits for its terminator fits. -/
  | waiting (errored : r.errored = false) (readable : r.readable = true) (ended : r.ended = false)
      (free : Frame.terminator ∉ r.buffer) (fits : r.buffer.length ≤ limit) :
      Settles limit r (none,
        { r with decoder := { r.decoder with scanned := r.buffer.length }, readable := false })
  | idle (quiet : r.Quiet) : Settles limit r (none, r)

theorem Sound.settles (h : r.Sound limit) : r.Settles limit r.settle := by
  obtain ⟨d, buffer, ended, readable, errored⟩ := r
  obtain ⟨rfl, hd, hdrained⟩ := h
  dsimp only at hd hdrained
  cases errored with
  | true => exact .recovered rfl
  | false =>
    cases readable with
    | false => exact .idle ⟨rfl, rfl⟩
    | true =>
      cases ended with
      | true =>
        have hfree := hdrained (by simp)
        have hend := Frame.Decoder.decodeEnd_of_no_cut d hfree
        by_cases hl : d.limit < buffer.length
        · have hs : Settles d.limit ⟨d, buffer, true, true, false⟩ _ :=
            .refused rfl rfl hfree hl
          simpa [Reader.settle, hend, hl, Reader.after] using hs
        · have hs : Settles d.limit ⟨d, buffer, true, true, false⟩ _ :=
            .dropped rfl rfl rfl hfree (Nat.le_of_not_lt hl)
          simpa [Reader.settle, hend, hl, Reader.after] using hs
      | false =>
        cases hc : Frame.cut? buffer with
        | some cut =>
          have hs : Settles d.limit ⟨d, buffer, false, true, false⟩ _ :=
            .found rfl rfl rfl hc
          simpa [Reader.settle, Frame.Decoder.decode_of_cut hd hc, Reader.after, Residue.frame]
            using hs
        | none =>
          have hfree := Frame.cut?_eq_none_iff.mp hc
          have hdecode := Frame.Decoder.decode_of_no_cut d hfree
          by_cases hl : d.limit < buffer.length
          · have hs : Settles d.limit ⟨d, buffer, false, true, false⟩ _ :=
              .refused rfl rfl hfree hl
            simpa [Reader.settle, hdecode, hl, Reader.after] using hs
          · have hs : Settles d.limit ⟨d, buffer, false, true, false⟩ _ :=
              .waiting rfl rfl rfl hfree (Nat.le_of_not_lt hl)
            simpa [Reader.settle, hdecode, hl, Reader.after] using hs

theorem Settles.sound {found : Option Result} {r' : Reader} (hs : r.Settles limit (found, r'))
    (h : r.Sound limit) : r'.Sound limit := by
  cases hs with
  | recovered errored => exact ⟨h.limit_eq, h.decoder, fun _ => h.drained (.inr (.inl errored))⟩
  | refused _ _ free => exact ⟨h.limit_eq, h.decoder, fun _ => free⟩
  | dropped => exact ⟨h.limit_eq, Frame.Decoder.Sound.reset _ _, by simp⟩
  | found errored readable ended =>
    exact ⟨h.limit_eq, Frame.Decoder.Sound.reset _ _, by simp [errored, readable, ended]⟩
  | waiting _ _ _ free => exact ⟨h.limit_eq, Frame.Decoder.Sound.whole _ free, fun _ => free⟩
  | idle => exact h

/-- Settling gives the first of the owed reports, or makes the reader quiet if there is none. -/
theorem Sound.settle (h : r.Sound limit) :
    (∃ result r', r.settle = (some result, r') ∧ r'.Sound limit ∧
      r.owed = result :: r'.owed ∧ r'.residue = r.residue) ∨
    (∃ r', r.settle = (none, r') ∧ r'.Sound limit ∧ r'.Quiet ∧
      r.owed = [] ∧ r'.residue = r.residue) := by
  obtain rfl := h.limit_eq
  have hs := h.settles
  rcases hout : r.settle with ⟨found, r'⟩
  rw [hout] at hs
  have hsound := hs.sound h
  unfold Reader.owed Reader.residue
  cases hs with
  | recovered errored =>
    exact .inl ⟨_, _, rfl, hsound, by simp [errored], by simp [errored]⟩
  | refused errored readable free large =>
    refine .inl ⟨_, _, rfl, hsound, ?_, ?_⟩
    · simp [errored, readable, large, Residue.framesOf_of_not_mem _ free, refusal]
    · cases r.ended <;> simp [errored, readable, large, Frame.tail_of_not_mem free]
  | dropped errored readable ended free fits =>
    refine .inl ⟨_, _, rfl, hsound, ?_, ?_⟩
    · simp [errored, readable, ended, Nat.not_lt.mpr fits]
    · simp [errored, readable, ended, Nat.not_lt.mpr fits]
  | found errored readable ended cut =>
    refine .inl ⟨_, _, rfl, hsound, ?_, ?_⟩
    · simp [errored, readable, ended, Residue.framesOf_of_cut _ cut]
    · simp [errored, readable, ended, Frame.tail_of_cut cut]
  | waiting errored readable ended free fits =>
    refine .inr ⟨_, rfl, hsound, ⟨errored, rfl⟩, ?_, ?_⟩
    · simp [errored, readable, ended, Residue.framesOf_of_not_mem _ free, Nat.not_lt.mpr fits]
    · simp [errored, readable, ended, Frame.tail_of_not_mem free]
  | idle quiet =>
    exact .inr ⟨_, rfl, hsound, quiet, by simp [quiet.errored, quiet.readable], rfl⟩

theorem Sound.receive (h : r.Sound limit) (hq : r.Quiet) (bytes : Bytes) :
    (r.receive bytes).Sound limit ∧
      (r.receive bytes).owed = r.residue.emit limit (.chunk bytes) ∧
      (r.receive bytes).residue = r.residue.next limit (.chunk bytes) := by
  refine ⟨⟨h.limit_eq, h.decoder.append bytes, ?_⟩, ?_, ?_⟩
  · simp [Reader.receive, hq.errored]
  · simp [Reader.owed, Reader.receive, hq.errored, hq.residue, Residue.emit, h.limit_eq]
  · simp [Reader.residue, Reader.receive, hq.errored, hq.readable, Residue.next]

theorem Sound.atEnd (h : r.Sound limit) (hq : r.Quiet) (he : r.ended = false) :
    r.atEnd.Sound limit ∧ r.atEnd.owed = r.residue.emit limit .ending ∧
      r.atEnd.residue = r.residue.next limit .ending := by
  have hfree := h.drained (.inl hq.readable)
  refine ⟨⟨h.limit_eq, h.decoder, fun _ => hfree⟩, ?_, ?_⟩
  · simp [Reader.owed, Reader.atEnd, hq.errored, hq.residue, Residue.emit, h.limit_eq, he]
  · rw [hq.residue]
    simp [Reader.residue, Reader.atEnd, hq.errored, Residue.next, h.limit_eq, he]

/-- An error of the stream leaves the buffer alone; the end is reported after it. -/
theorem Sound.fail (h : r.Sound limit) (hq : r.Quiet) :
    { r with errored := true }.Sound limit ∧ { r with errored := true }.owed = [.ok none] ∧
      { r with errored := true }.residue = r.residue := by
  have hfree := h.drained (.inl hq.readable)
  refine ⟨⟨h.limit_eq, h.decoder, fun _ => hfree⟩, by simp [Reader.owed], ?_⟩
  rw [hq.residue]
  simp [Reader.residue]

/-- A poll gives the first report that is due, or takes in all that arrives if nothing is. -/
theorem Sound.poll (h : r.Sound limit) (arrivals : List Arrival) :
    (∃ result r' rest, r.poll arrivals = (some result, r', rest) ∧ r'.Sound limit ∧
      ∀ more, r.due limit (arrivals ++ more) = result :: r'.due limit (rest ++ more)) ∨
    (∃ r', r.poll arrivals = (none, r', []) ∧ r'.Sound limit ∧ r'.Quiet ∧
      ∀ more, r.due limit (arrivals ++ more) = r'.due limit more) := by
  induction arrivals generalizing r with
  | nil =>
    rcases h.settle with ⟨result, r', hs, hsound, howed, hres⟩ | ⟨r', hs, hsound, hq, howed, hres⟩
    · exact .inl ⟨result, r', [], by simp [Reader.poll, hs], hsound,
        by simp [Reader.due, howed, hres]⟩
    · exact .inr ⟨r', by simp [Reader.poll, hs], hsound, hq,
        by simp [Reader.due, howed, hres, hq.owed]⟩
  | cons arrival rest ih =>
    rcases h.settle with ⟨result, r', hs, hsound, howed, hres⟩ | ⟨r', hs, hsound, hq, howed, hres⟩
    · exact .inl ⟨result, r', arrival :: rest, by simp [Reader.poll, hs], hsound,
        by simp [Reader.due, howed, hres]⟩
    · -- Nothing was owed, so the arrival decides what is reported next.
      have hdue : ∀ more, r.due limit (arrival :: rest ++ more) =
          r'.residue.emit limit arrival ++
            (r'.residue.next limit arrival).emission limit (rest ++ more) := by
        intro more
        simp [Reader.due, howed, ← hres, Residue.emission]
      simp only [hdue, Reader.poll, hs]
      cases arrival with
      | pending =>
        rcases ih hsound with ⟨result, r'', left, hp, hsound', hd⟩ | ⟨r'', hp, hsound', hq', hd⟩
        · exact .inl ⟨result, r'', left, hp, hsound',
            by simpa [Reader.due, hq.owed, Residue.emit, Residue.next] using hd⟩
        · exact .inr ⟨r'', hp, hsound', hq',
            by simpa [Reader.due, hq.owed, Residue.emit, Residue.next] using hd⟩
      | failure message =>
        obtain ⟨hsound', howed', hres'⟩ := hsound.fail hq
        refine .inl ⟨_, _, _, rfl, hsound', ?_⟩
        intro more
        simp [Reader.due, howed', hres', Residue.emit, Residue.next]
      | chunk bytes =>
        obtain ⟨hsound', howed', hres'⟩ := hsound.receive hq bytes
        have := ih hsound'
        simpa only [Reader.due, howed', hres'] using this
      | ending =>
        cases he : r'.ended with
        | true =>
          refine .inl ⟨.ok none, r', rest, by simp, hsound, ?_⟩
          intro more
          simp [Reader.due, hq.owed, hq.residue, Residue.emit, Residue.next, he]
        | false =>
          obtain ⟨hsound', howed', hres'⟩ := hsound.atEnd hq he
          have := ih hsound'
          simpa only [Reader.due, howed', hres', Bool.false_eq_true, if_false] using this

/-- The end of the stream always brings a report, so a read that has taken in everything gives the
first report of one more end. -/
theorem Sound.read (h : r.Sound limit) (arrivals : List Arrival) :
    ∃ result r' rest, r.read arrivals = (result, r', rest) ∧ r'.Sound limit ∧
      ∀ k, ∃ j, k ≤ j ∧ r.due limit (arrivals ++ List.replicate (k + 1) .ending) =
        result :: r'.due limit (rest ++ List.replicate j .ending) := by
  rcases h.poll arrivals with ⟨result, r', rest, hp, hsound, hd⟩ | ⟨r', hp, hsound, hq, hd⟩
  · exact ⟨result, r', rest, by simp [Reader.read, hp], hsound,
      fun k => ⟨k + 1, Nat.le_succ k, hd _⟩⟩
  · have hdue : ∀ k, r.due limit (arrivals ++ List.replicate (k + 1) .ending) =
        r'.residue.emit limit .ending ++
          (r'.residue.next limit .ending).emission limit (List.replicate k .ending) := by
      intro k
      rw [hd]
      simp [Reader.due, hq.owed, List.replicate_succ, Residue.emission]
    simp only [hdue]
    cases he : r'.ended with
    | true =>
      refine ⟨.ok none, r', [], by simp [Reader.read, hp, he], hsound, ?_⟩
      exact fun k => ⟨k, Nat.le_refl k,
        by simp [Reader.due, hq.owed, hq.residue, Residue.emit, Residue.next, he]⟩
    | false =>
      obtain ⟨hsound', howed, hres⟩ := hsound.atEnd hq he
      rcases hsound'.settle with
        ⟨result, r'', hs, hsound'', howed', hres'⟩ | ⟨_, _, _, _, howed', _⟩
      · refine ⟨result, r'', [], by simp [Reader.read, hp, he, hs], hsound'', ?_⟩
        intro k
        refine ⟨k, Nat.le_refl k, ?_⟩
        rw [← howed, ← hres, howed', ← hres']
        simp [Reader.due]
      · exact absurd (howed ▸ howed') (Residue.emit_ending_ne_nil limit _)

end Reader

namespace Connection

/-- The results of successive reads. -/
def readFrames : Nat → Connection → List Reader.Result
  | 0, _ => []
  | n + 1, c => c.readFrame.1 :: readFrames n c.readFrame.2

theorem readFrames_due {limit : Nat} {c : Connection} (h : c.reader.Sound limit) {n k : Nat}
    (hk : n ≤ k) :
    c.readFrames n = (c.reader.due limit (c.arrivals ++ List.replicate k .ending)).take n := by
  induction n generalizing c k with
  | zero => rfl
  | succ n ih =>
    obtain ⟨k, rfl⟩ := Nat.exists_eq_add_one_of_ne_zero (show k ≠ 0 by omega)
    obtain ⟨result, r', rest, hread, hsound, hdue⟩ := h.read c.arrivals
    obtain ⟨j, hj, hd⟩ := hdue k
    have hframe : c.readFrame = (result, { c with reader := r', arrivals := rest }) := by
      simp [readFrame, hread]
    rw [hd, List.take_succ_cons, readFrames, hframe]
    exact congrArg (result :: ·) (ih (c := { c with reader := r', arrivals := rest }) hsound
      (show n ≤ j by omega))

/-- Successive reads of a fresh connection, whatever its stream does before it ends for good, give
the items of the emission in their order. -/
theorem readFrames_eq_emission (limit n : Nat) (script : List Arrival) (writer : Writer)
    (acceptances : List Acceptance) :
    readFrames n ⟨.ofLimit limit, script, writer, acceptances⟩ =
      (Residue.emission limit {} (script ++ List.replicate n .ending)).take n := by
  have h := readFrames_due (c := ⟨.ofLimit limit, script, writer, acceptances⟩)
    (Reader.sound_ofLimit limit) (Nat.le_refl n)
  have hq : (Reader.ofLimit limit).Quiet := ⟨rfl, rfl⟩
  rw [h, Reader.due, hq.owed, hq.residue]
  rfl

end Connection
end QueryServer
