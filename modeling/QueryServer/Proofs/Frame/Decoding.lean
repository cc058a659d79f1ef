import QueryServer.Proofs.Frame.Segments
import QueryServer.Proofs.Text.Malformed
/-!
Bytes that may be no text, as frames. Main statement: to cut a stream at its terminators and then
read the pieces is to read the whole stream and then cut the text, however the stream comes in.
-/

namespace QueryServer.Frame

theorem segments_cut {cs : List Char} (h : '\x00' ∉ cs) (rest : List Char) :
    segments (String.ofList (cs ++ '\x00' :: rest)) =
      String.ofList cs :: segments (String.ofList rest) := by
  have hcs : ∀ c ∈ cs, (c == '\x00') = false := by
    intro c hc
    simpa using fun he : c = '\x00' => h (he ▸ hc)
  have hsplit : (cs ++ '\x00' :: rest).splitOn '\x00' = cs :: rest.splitOn '\x00' :=
    List.splitOnP_append_cons_of_forall_mem hcs '\x00' rfl rest
  simp [segments, hsplit]

/-- The text of terminated bytes is the text of the first piece, U+0000 and the text after it. -/
theorem segments_of_cut {bytes piece rest : Bytes} (h : cut? bytes = some (piece, rest)) :
    segments (textOf bytes) = textOf piece :: segments (textOf rest) := by
  obtain ⟨hfree, rfl⟩ := cut?_eq_some_iff.mp h
  unfold textOf
  rw [terminator, Text.Utf8.decode_cut]
  exact segments_cut (Text.Utf8.zero_not_mem_decode hfree) _

/-- Bytes without a terminator are read as one segment. -/
theorem segments_of_no_cut {bytes : Bytes} (h : terminator ∉ bytes) :
    segments (textOf bytes) = [textOf bytes] := by
  apply segments_of_not_mem
  simpa [textOf] using Text.Utf8.zero_not_mem_decode h

/-- Cutting commutes with reading. -/
theorem segments_textOf (bytes : Bytes) :
    segments (textOf bytes) = (pieces bytes).map textOf ++ [textOf (tail bytes)] := by
  induction hn : bytes.length using Nat.strongRecOn generalizing bytes with
  | ind n ih =>
    cases hc : cut? bytes with
    | none =>
      have hfree := cut?_eq_none_iff.mp hc
      simp [segments_of_no_cut hfree, pieces_of_not_mem hfree, tail_of_not_mem hfree]
    | some cut =>
      obtain ⟨piece, rest⟩ := cut
      have hlength : rest.length < n := by
        rw [← hn, (cut?_eq_some_iff.mp hc).2]
        simp
        omega
      rw [segments_of_cut hc, pieces_of_cut hc, tail_of_cut hc, ih _ hlength rest rfl]
      rfl

theorem Decoder.length_of_decode {d d' : Decoder} {buffer rest : Bytes} {frame : String}
    (h : d.decode buffer = (.ok (some frame), d', rest)) : rest.length < buffer.length := by
  unfold decode at h
  split at h
  · rename_i offset hfind
    have hoffset := (List.findIdx?_eq_some_iff_getElem.mp hfind).1
    simp only [Prod.mk.injEq] at h
    rw [← h.2.2, List.length_drop]
    rw [List.length_drop] at hoffset
    omega
  · split at h <;> simp at h

theorem Codec.length_of_decode {c c' : Codec} {frame : String}
    (h : c.serve .decode = (some (.ok (some frame)), c')) : c'.input.length < c.input.length := by
  simp only [serve, Prod.mk.injEq, Option.some.injEq] at h
  rw [← h.2]
  exact Decoder.length_of_decode (Prod.ext h.1 (Prod.ext rfl rfl))

/-- Decodes until no frame is found, and gives the frames found before. -/
def Codec.drain (c : Codec) : List String × Codec :=
  match h : c.serve .decode with
  | (some (.ok (some frame)), c') =>
    have := Codec.length_of_decode h
    let (frames, c'') := c'.drain
    (frame :: frames, c'')
  | (_, c') => ([], c')
termination_by c.input.length

/-- Takes the parts of a stream as they come in, and drains after each of them. -/
def Codec.receive (c : Codec) : List Bytes → List String × Codec
  | [] => ([], c)
  | chunk :: chunks =>
    let (frames, c') := (c.serve (.feed chunk)).2.drain
    let (more, c'') := c'.receive chunks
    (frames ++ more, c'')

theorem Codec.drain_of_frame {c c' : Codec} {frame : String}
    (h : c.serve .decode = (some (.ok (some frame)), c')) :
    c.drain = (frame :: c'.drain.1, c'.drain.2) := by
  rw [drain]
  split
  · rename_i frame' c'' h'
    rw [h] at h'
    simp only [Prod.mk.injEq, Option.some.injEq, Except.ok.injEq] at h'
    obtain ⟨rfl, rfl⟩ := h'
    rfl
  · rename_i hnone h'
    rw [h, Prod.mk.injEq] at h'
    exact absurd h'.1.symm (hnone frame)

theorem Codec.drain_of_no_frame {c c' : Codec} {found : Option Found}
    (h : c.serve .decode = (found, c')) (hfound : ∀ frame, found ≠ some (.ok (some frame))) :
    c.drain = ([], c') := by
  rw [drain]
  split
  · rename_i frame c'' h'
    rw [h, Prod.mk.injEq] at h'
    exact absurd h'.1 (hfound frame)
  · rename_i found' c'' hnone h'
    rw [h, Prod.mk.injEq] at h'
    rw [h'.2]

/-- Where no piece is complete nothing is taken, and only what is remembered can change. -/
theorem Codec.serve_of_no_cut (c : Codec) (h : terminator ∉ c.input) :
    ∃ found scanned, c.serve .decode =
        (some found, { c with decoder := { c.decoder with scanned := scanned } }) ∧
      ∀ frame, found ≠ .ok (some frame) := by
  rw [serve, Decoder.decode_of_no_cut _ h]
  by_cases hl : c.decoder.limit < c.input.length
  · exact ⟨.error ⟨c.input.length, c.decoder.limit⟩, c.decoder.scanned, by simp [hl], by simp⟩
  · exact ⟨.ok none, c.input.length, by simp [hl], by simp⟩

/-- What draining leaves: the frames of all pieces have been given, and the tail waits. -/
structure Codec.Drained (bytes : Bytes) (result : List String × Codec) : Prop where
  frames : result.1 = (pieces bytes).map textOf
  input : result.2.input = tail bytes
  sound : result.2.Sound

/-- A codec gives the frames of all pieces that it holds, also where it refuses the rest. -/
theorem Codec.Sound.drain {c : Codec} (h : c.Sound) : Codec.Drained c.input c.drain := by
  induction hn : c.input.length using Nat.strongRecOn generalizing c with
  | ind n ih =>
    have hserve := h.serve .decode
    have hsound := hserve.2
    cases hc : cut? c.input with
    | some cut =>
      obtain ⟨piece, rest⟩ := cut
      have hdecode : c.serve .decode = (some (.ok (some (textOf piece))),
          { c with decoder := { c.decoder with scanned := 0 }, input := rest }) := by
        rw [Codec.serve, Decoder.decode_of_cut h hc]
      rw [hdecode] at hsound
      have hrest := ih _ (hn ▸ Codec.length_of_decode hdecode) hsound rfl
      rw [Codec.drain_of_frame hdecode]
      refine ⟨?_, ?_, hrest.sound⟩
      · rw [hrest.frames, pieces_of_cut hc, List.map_cons]
      · rw [hrest.input, tail_of_cut hc]
    | none =>
      have hfree := cut?_eq_none_iff.mp hc
      obtain ⟨found, scanned, hdecode, hfound⟩ := c.serve_of_no_cut hfree
      rw [hdecode] at hsound
      rw [Codec.drain_of_no_frame hdecode (by simpa using hfound)]
      exact ⟨by simp [pieces_of_not_mem hfree], (tail_of_not_mem hfree).symm, hsound⟩

/-- Where the parts of a stream begin and end makes no difference. -/
theorem Codec.Sound.receive {c : Codec} (h : c.Sound) (htail : terminator ∉ c.input)
    (chunks : List Bytes) : Codec.Drained (c.input ++ chunks.flatten) (c.receive chunks) := by
  induction chunks generalizing c with
  | nil =>
    rw [List.flatten_nil, List.append_nil]
    exact ⟨by simp [Codec.receive, pieces_of_not_mem htail], (tail_of_not_mem htail).symm, h⟩
  | cons chunk chunks ih =>
    have hfirst := (h.serve (.feed chunk)).2.drain
    have hfree : terminator ∉ (c.serve (.feed chunk)).2.drain.2.input := by
      rw [hfirst.input]
      exact (not_mem_split _).2
    have hnext := ih hfirst.sound hfree
    have hbytes : c.input ++ (chunk :: chunks).flatten = (c.input ++ chunk) ++ chunks.flatten := by
      simp
    have hfed : (c.serve (.feed chunk)).2.input = c.input ++ chunk := rfl
    rw [hfed] at hfirst
    rw [hfirst.input] at hnext
    rw [hbytes]
    refine ⟨?_, ?_, hnext.sound⟩
    · rw [pieces_append, List.map_append, ← hfirst.frames, ← hnext.frames]
      rfl
    · rw [tail_append, ← hnext.input]
      rfl

theorem Codec.drain_encode {frame : String} (h : '\x00' ∉ frame.toList) (limit : Nat) :
    ((ofLimit limit).serve (.encode frame)).2.loopBack.drain = ([frame], ofLimit limit) := by
  have hframe : ((ofLimit limit).serve (.encode frame)).2.loopBack.serve .decode =
      (some (.ok (some frame)), ofLimit limit) := by
    have hdecode := Decoder.decode_encode h limit []
    rw [List.append_nil] at hdecode
    simp [serve, loopBack, ofLimit, hdecode]
  have hnone : (ofLimit limit).serve .decode = (some (.ok none), ofLimit limit) := by
    simp [serve, ofLimit, Decoder.decode]
  rw [drain_of_frame hframe, drain_of_no_frame hnone (by simp)]

/-- Whatever bytes come in and however they are cut on the way, the frames are the segments of the
text of the whole stream, except the last, which is the text of the bytes that still wait. So no
frame has U+0000 in it, and every frame is found again in its own bytes, alone and as it was. The
text of bytes has one replacement character for each maximal part that is no character. -/
theorem segments_of_receive (limit : Nat) (chunks : List Bytes) :
    segments (textOf chunks.flatten) = ((Codec.ofLimit limit).receive chunks).1 ++
        [textOf ((Codec.ofLimit limit).receive chunks).2.input] ∧
      (∀ frame ∈ ((Codec.ofLimit limit).receive chunks).1, '\x00' ∉ frame.toList ∧
        ∀ limit', ((Codec.ofLimit limit').serve (.encode frame)).2.loopBack.drain =
          ([frame], Codec.ofLimit limit')) ∧
      ∀ bytes text, textOf bytes = text ↔ Text.Utf8.Reads bytes text.toList := by
  have h := (Codec.sound_ofLimit limit).receive (by simp [Codec.ofLimit]) chunks
  have hsegments : segments (textOf chunks.flatten) =
      ((Codec.ofLimit limit).receive chunks).1 ++
        [textOf ((Codec.ofLimit limit).receive chunks).2.input] := by
    rw [h.frames, h.input]
    exact segments_textOf chunks.flatten
  refine ⟨hsegments, ?_, ?_⟩
  · intro frame hframe
    have hfree : '\x00' ∉ frame.toList := by
      apply free_segments (textOf chunks.flatten)
      rw [hsegments]
      exact List.mem_append_left _ hframe
    exact ⟨hfree, Codec.drain_encode hfree⟩
  · intro bytes text
    rw [Text.Utf8.reads_iff, textOf]
    constructor
    · rintro rfl
      simp
    · intro htext
      rw [htext, String.ofList_toList]

/-- The bytes E2 82 begin a character that a terminator breaks off. -/
example : (Codec.ofLimit 16).receive [[0xE2], [0x82, 0, 0x61]] =
    (["\uFFFD"], { decoder := { limit := 16, scanned := 1 }, input := [0x61] }) := by
  cbv

end QueryServer.Frame
