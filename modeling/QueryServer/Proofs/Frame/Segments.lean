import Mathlib.Data.List.Basic
import QueryServer.Proofs.Frame.Resumption
/-!
Texts as frames. A text with U+0000 in it is sent as the frames of the segments between, and texts
without it are found again in the bytes of their frames, one by one and as they were.
-/

namespace QueryServer.Frame

/-- The texts between the characters U+0000 of a text. -/
def segments (text : String) : List String :=
  (text.toList.splitOn '\x00').map String.ofList

/-- Nothing in these texts can be taken for the end of a frame. -/
def Free (frames : List String) : Prop :=
  ∀ frame ∈ frames, '\x00' ∉ frame.toList

/-- How many bytes a frame has before its terminator. -/
def size (frame : String) : Nat :=
  (Text.Utf8.encode frame.toList).length

theorem not_mem_splitOn (cs : List Char) : ∀ piece ∈ cs.splitOn '\x00', '\x00' ∉ piece := by
  induction cs with
  | nil => simp
  | cons c cs ih =>
    rw [List.splitOn_cons_eq_if_modifyHead]
    by_cases hc : c = '\x00'
    · simpa [hc] using ih
    · obtain ⟨piece, pieces, hsplit⟩ := List.exists_cons_of_ne_nil (List.splitOn_ne_nil '\x00' cs)
      rw [hsplit] at ih ⊢
      simpa [hc, Ne.symm hc] using ih

theorem free_segments (text : String) : Free (segments text) := by
  intro frame hframe
  obtain ⟨piece, hpiece, rfl⟩ := List.mem_map.mp hframe
  simpa using not_mem_splitOn text.toList piece hpiece

theorem free_flatMap_segments (texts : List String) : Free (texts.flatMap segments) := by
  intro frame hframe
  obtain ⟨text, -, hmem⟩ := List.mem_flatMap.mp hframe
  exact free_segments text frame hmem

theorem segments_of_not_mem {text : String} (h : '\x00' ∉ text.toList) : segments text = [text] := by
  have hone : text.toList.splitOn '\x00' = [text.toList] := by
    refine List.splitOnP_eq_singleton fun c hc => ?_
    simpa using fun he : c = '\x00' => h (he ▸ hc)
  simp [segments, hone]

theorem flatMap_segments_of_free {texts : List String} (h : Free texts) :
    texts.flatMap segments = texts := by
  rw [List.flatMap_congr fun text htext => segments_of_not_mem (h text htext)]
  simp

theorem flatMap_splitOn (cs : List Char) :
    (cs.splitOn '\x00').flatMap (fun piece => Text.Utf8.encode piece ++ [terminator]) =
      Text.Utf8.encode cs ++ [terminator] := by
  induction cs with
  | nil => simp
  | cons c cs ih =>
    rw [List.splitOn_cons_eq_if_modifyHead]
    by_cases hc : c = '\x00'
    · have hzero : String.utf8EncodeChar '\x00' = [terminator] := by decide
      have hencode : Text.Utf8.encode ('\x00' :: cs) = terminator :: Text.Utf8.encode cs := by
        rw [Text.Utf8.encode, List.flatMap_cons, hzero]
        rfl
      simp only [hc, beq_self_eq_true, if_true, List.flatMap_cons, ih, hencode]
      rfl
    · obtain ⟨piece, pieces, hsplit⟩ := List.exists_cons_of_ne_nil (List.splitOn_ne_nil '\x00' cs)
      rw [hsplit] at ih ⊢
      simpa [hc, Text.Utf8.encode] using ih

/-- The frame of a text is the frames of its segments. -/
theorem flatMap_encode_segments (text : String) : (segments text).flatMap encode = encode text := by
  simp only [segments, List.flatMap_map, encode, String.toList_ofList]
  exact flatMap_splitOn text.toList

theorem encode_flatMap_segments (texts : List String) :
    (texts.flatMap segments).flatMap encode = texts.flatMap encode := by
  rw [List.flatMap_assoc]
  exact List.flatMap_congr fun text _ => flatMap_encode_segments text

theorem Free.of_cons {frame : String} {frames : List String} (h : Free (frame :: frames)) :
    terminator ∉ Text.Utf8.encode frame.toList ∧ Free frames :=
  ⟨fun hm => h frame List.mem_cons_self (Text.Utf8.zero_mem_encode.mp hm),
    fun other hother => h other (List.mem_cons_of_mem frame hother)⟩

/-- The bytes of frames are cut at the end of each frame. -/
theorem cut?_of_free {frame : String} {frames : List String} (h : Free (frame :: frames)) :
    cut? ((frame :: frames).flatMap encode) =
      some (Text.Utf8.encode frame.toList, frames.flatMap encode) := by
  rw [List.flatMap_cons, encode, List.append_assoc]
  exact cut?_append h.of_cons.1

theorem pieces_of_free {frames : List String} (h : Free frames) :
    pieces (frames.flatMap encode) = frames.map fun frame => Text.Utf8.encode frame.toList := by
  induction frames with
  | nil => rfl
  | cons frame frames ih => rw [pieces_of_cut (cut?_of_free h), ih h.of_cons.2, List.map_cons]

theorem tail_of_free {frames : List String} (h : Free frames) :
    tail (frames.flatMap encode) = [] := by
  induction frames with
  | nil => rfl
  | cons frame frames ih => rw [tail_of_cut (cut?_of_free h), ih h.of_cons.2]

/-- However the bytes of frames that fit are broken off, no more than one frame waits. -/
theorem tail_prefix_le {frames : List String} (h : Free frames) {limit : Nat}
    (hfit : ∀ frame ∈ frames, size frame ≤ limit) {bytes : Bytes}
    (hp : bytes <+: frames.flatMap encode) : (tail bytes).length ≤ limit := by
  induction frames generalizing bytes with
  | nil =>
    rw [List.prefix_nil.mp hp]
    exact Nat.zero_le limit
  | cons frame frames ih =>
    obtain ⟨rest, hrest⟩ := hp
    have hsplit : bytes ++ rest =
        Text.Utf8.encode frame.toList ++ terminator :: frames.flatMap encode := by
      rw [hrest, List.flatMap_cons, encode, List.append_assoc]
      rfl
    rcases List.append_eq_append_iff.mp hsplit with ⟨more, hmore, -⟩ | ⟨more, rfl, hmore⟩
    · -- broken off inside the first frame
      have hfree : terminator ∉ bytes := by
        intro hm
        exact h.of_cons.1 (hmore ▸ List.mem_append_left more hm)
      rw [tail_of_not_mem hfree]
      calc bytes.length ≤ (bytes ++ more).length := by simp
        _ = size frame := by rw [← hmore, size]
        _ ≤ limit := hfit frame List.mem_cons_self
    · cases more with
      | nil =>
        rw [List.append_nil, tail_of_not_mem h.of_cons.1]
        exact hfit frame List.mem_cons_self
      | cons b more =>
        rw [List.cons_append, List.cons.injEq] at hmore
        obtain ⟨rfl, hmore⟩ := hmore
        rw [tail_of_cut (cut?_append h.of_cons.1)]
        exact ih h.of_cons.2 (fun other hother => hfit other (List.mem_cons_of_mem frame hother))
          ⟨rest, hmore.symm⟩

/-- Valid bytes that end with a terminator are the frames of some texts, and so are no bytes. -/
theorem exists_frames {text : String}
    (h : text = "" ∨ (Text.Utf8.encode text.toList).getLast? = some terminator) :
    ∃ frames, Free frames ∧ frames.flatMap encode = Text.Utf8.encode text.toList := by
  rcases List.eq_nil_or_concat text.toList with hnil | ⟨cs, c, hcs⟩
  · exact ⟨[], by simp [Free], by simp [hnil, Text.Utf8.encode]⟩
  · have hbytes : Text.Utf8.encode text.toList =
        Text.Utf8.encode cs ++ String.utf8EncodeChar c := by
      simp [hcs, Text.Utf8.encode]
    have hlast : (Text.Utf8.encode text.toList).getLast? = some terminator := by
      refine h.resolve_left fun he => ?_
      simp [he] at hcs
    have hc : c = '\x00' := by
      rw [hbytes, List.getLast?_append_of_ne_nil _ (String.utf8EncodeChar_ne_nil)] at hlast
      exact Text.Utf8.zero_mem_char.mp (List.mem_of_getLast? hlast)
    refine ⟨segments (String.ofList cs), free_segments _, ?_⟩
    have hzero : String.utf8EncodeChar '\x00' = [terminator] := by decide
    rw [flatMap_encode_segments, hbytes, hc, hzero, encode, String.toList_ofList]

/-- What so many calls report where these frames come, and nothing after them. -/
def reports {ε : Type} (frames : List String) (n : Nat) : List (Except ε (Option String)) :=
  (frames.map (Except.ok ∘ some) ++ List.replicate n (Except.ok none)).take n

theorem reports_nil {ε : Type} (n : Nat) :
    (reports [] n : List (Except ε (Option String))) = List.replicate n (.ok none) := by
  simp [reports]

theorem reports_cons {ε : Type} (frame : String) (frames : List String) (n : Nat) :
    (reports (frame :: frames) (n + 1) : List (Except ε (Option String))) =
      .ok (some frame) :: reports frames n := by
  simp [reports, List.replicate_succ', ← List.append_assoc, List.take_append]

/-- What decoding calls in a row find. -/
def Codec.decodings (c : Codec) (n : Nat) : List Found :=
  (c.transcript (List.replicate n .decode)).filterMap (·.1)

theorem Codec.decodings_succ {c c' : Codec} {found : Found}
    (h : c.serve .decode = (some found, c')) (n : Nat) :
    c.decodings (n + 1) = found :: c'.decodings n := by
  simp [decodings, List.replicate_succ, transcript, h]

/-- A codec that holds the bytes of frames gives them one by one, however small its limit is. -/
theorem Codec.Sound.decodings {c : Codec} (h : c.Sound) {frames : List String} (hfree : Free frames)
    (hinput : c.input = frames.flatMap encode) (n : Nat) : c.decodings n = reports frames n := by
  induction n generalizing c frames with
  | zero => rfl
  | succ n ih =>
    have hsound := (h.serve .decode).2
    cases frames with
    | nil =>
      have hserve : c.serve .decode = (some (.ok none),
          { c with decoder := { c.decoder with scanned := c.input.length } }) := by
        simp [Codec.serve, hinput, Decoder.decode_of_no_cut]
      rw [hserve] at hsound
      rw [Codec.decodings_succ hserve, ih hsound hfree hinput, reports_nil,
        reports_nil, List.replicate_succ]
    | cons frame frames =>
      have hserve : c.serve .decode = (some (.ok (some frame)),
          { c with decoder := { c.decoder with scanned := 0 }
                   input := frames.flatMap encode }) := by
        rw [Codec.serve, Decoder.decode_of_cut h (hinput ▸ cut?_of_free hfree),
          Decoder.textOf_utf8]
      rw [hserve] at hsound
      rw [Codec.decodings_succ hserve, ih hsound hfree.of_cons.2 rfl, reports_cons]

end QueryServer.Frame
