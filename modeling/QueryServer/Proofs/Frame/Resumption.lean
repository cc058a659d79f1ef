import QueryServer.Frame.Codec
import QueryServer.Proofs.Frame.Pieces
import QueryServer.Proofs.Text.Utf8
/-!
A decoder looks only at bytes that it has not seen before. Main statement: over any requests in any
order it gives the outcomes and keeps the bytes of a codec that looks at all of them every time.
-/

namespace QueryServer.Frame

/-- What a decoder remembers is true of its buffer: it has looked at no more bytes than there are,
and none of them is a terminator. -/
structure Decoder.Sound (d : Decoder) (buffer : Bytes) : Prop where
  scanned_le : d.scanned ≤ buffer.length
  unterminated : terminator ∉ buffer.take d.scanned

namespace Decoder

theorem Sound.reset (d : Decoder) (buffer : Bytes) : { d with scanned := 0 }.Sound buffer :=
  ⟨Nat.zero_le _, by simp⟩

theorem Sound.whole (d : Decoder) {buffer : Bytes} (h : terminator ∉ buffer) :
    { d with scanned := buffer.length }.Sound buffer :=
  ⟨Nat.le_refl _, by simpa using h⟩

theorem Sound.append {d : Decoder} {buffer : Bytes} (h : d.Sound buffer) (more : Bytes) :
    d.Sound (buffer ++ more) where
  scanned_le := by
    have := h.scanned_le
    simp only [List.length_append]
    omega
  unterminated := by
    rw [List.take_append_of_le_length h.scanned_le]
    exact h.unterminated

theorem findIdx?_terminated {piece : Bytes} (h : terminator ∉ piece) (rest : Bytes) :
    (piece ++ terminator :: rest).findIdx? (· == terminator) = some piece.length := by
  have hnone : piece.findIdx? (· == terminator) = none := by
    rw [List.findIdx?_eq_none_iff]
    intro b hb
    simpa using fun he : b = terminator => h (he ▸ hb)
  simp [List.findIdx?_append, hnone, List.findIdx?_cons]

/-- The looked-at part of a buffer ends before its first terminator. -/
theorem Sound.scanned_le_piece {d : Decoder} {piece rest : Bytes}
    (h : d.Sound (piece ++ terminator :: rest)) : d.scanned ≤ piece.length := by
  rcases Nat.lt_or_ge piece.length d.scanned with hlt | hge
  · exfalso
    apply h.unterminated
    obtain ⟨k, hk⟩ := Nat.exists_eq_add_of_lt hlt
    rw [hk, Nat.add_assoc, List.take_length_add_append]
    simp
  · exact hge

theorem decode_of_cut {d : Decoder} {buffer piece rest : Bytes} (h : d.Sound buffer)
    (hc : cut? buffer = some (piece, rest)) :
    d.decode buffer = (.ok (some (textOf piece)), { d with scanned := 0 }, rest) := by
  obtain ⟨hfree, rfl⟩ := cut?_eq_some_iff.mp hc
  have hle := h.scanned_le_piece
  have hdrop : (piece ++ terminator :: rest).drop d.scanned =
      piece.drop d.scanned ++ terminator :: rest :=
    List.drop_append_of_le_length hle
  have hfree' : terminator ∉ piece.drop d.scanned := fun hm => hfree (List.mem_of_mem_drop hm)
  have hfind := findIdx?_terminated hfree' rest
  have hindex : d.scanned + (piece.drop d.scanned).length = piece.length := by
    rw [List.length_drop]
    omega
  simp only [decode, hdrop, hfind, hindex, List.take_left']
  simp

theorem textOf_utf8 (text : String) : textOf (Text.Utf8.encode text.toList) = text := by
  rw [textOf, Text.Utf8.decode_encode, String.ofList_toList]

/-- The bytes of a text without U+0000 are one frame, and the frame holds that text. -/
theorem decode_encode {text : String} (h : '\x00' ∉ text.toList) (limit : Nat) (rest : Bytes) :
    Decoder.decode { limit } (encode text ++ rest) = (.ok (some text), { limit }, rest) := by
  have hfree : terminator ∉ Text.Utf8.encode text.toList := fun hm =>
    h (Text.Utf8.zero_mem_encode.mp hm)
  have hc : cut? (encode text ++ rest) = some (Text.Utf8.encode text.toList, rest) := by
    rw [encode, List.append_assoc]
    exact cut?_append hfree
  rw [decode_of_cut (Sound.reset { limit } _) hc, textOf_utf8]

theorem decode_of_no_cut (d : Decoder) {buffer : Bytes} (h : terminator ∉ buffer) :
    d.decode buffer =
      if d.limit < buffer.length then (.error ⟨buffer.length, d.limit⟩, d, buffer)
      else (.ok none, { d with scanned := buffer.length }, buffer) := by
  have hfind : (buffer.drop d.scanned).findIdx? (· == terminator) = none := by
    rw [List.findIdx?_eq_none_iff]
    intro b hb
    simpa using fun he : b = terminator => h (he ▸ List.mem_of_mem_drop hb)
  simp only [decode, hfind]

theorem decodeEnd_of_cut {d : Decoder} {buffer piece rest : Bytes} (h : d.Sound buffer)
    (hc : cut? buffer = some (piece, rest)) :
    d.decodeEnd buffer = (.ok (some (textOf piece)), { d with scanned := 0 }, rest) := by
  simp only [decodeEnd, decode_of_cut h hc]

/-- At the end of a stream a tail that fits is dropped, and what was remembered of it with it. -/
theorem decodeEnd_of_no_cut (d : Decoder) {buffer : Bytes} (h : terminator ∉ buffer) :
    d.decodeEnd buffer =
      if d.limit < buffer.length then (.error ⟨buffer.length, d.limit⟩, d, buffer)
      else (.ok none, { d with scanned := 0 }, []) := by
  unfold decodeEnd
  rw [decode_of_no_cut d h]
  by_cases hl : d.limit < buffer.length
  · simp only [hl, if_true]
  · cases buffer with
    | nil => simp
    | cons b bs => simp only [hl, if_false, List.isEmpty_cons, Bool.false_eq_true]

end Decoder

/-- The codec without what its decoder remembers. -/
def Codec.forget (c : Codec) : Rescan :=
  ⟨c.decoder.limit, c.input, c.output⟩

/-- What the decoder of a codec remembers is true of the bytes that wait. -/
def Codec.Sound (c : Codec) : Prop :=
  c.decoder.Sound c.input

/-- One request: the outcome does not depend on what is remembered, and what is remembered stays
true. -/
theorem Codec.Sound.serve {c : Codec} (h : c.Sound) (request : Request) :
    c.forget.serve request = ((c.serve request).1, (c.serve request).2.forget) ∧
      (c.serve request).2.Sound := by
  have hd : c.decoder.Sound c.input := h
  cases request with
  | feed bytes => exact ⟨rfl, hd.append bytes⟩
  | encode text => exact ⟨rfl, hd⟩
  | decode =>
    cases hc : cut? c.input with
    | some cut =>
      simp only [Codec.serve, Decoder.decode_of_cut hd hc]
      exact ⟨by simp [Rescan.serve, Rescan.decode, Codec.forget, hc], Decoder.Sound.reset _ _⟩
    | none =>
      have hfree := cut?_eq_none_iff.mp hc
      by_cases hl : c.decoder.limit < c.input.length
      · simp only [Codec.serve, Decoder.decode_of_no_cut _ hfree, hl, if_true]
        exact ⟨by simp [Rescan.serve, Rescan.decode, Codec.forget, hc, hl], hd⟩
      · simp only [Codec.serve, Decoder.decode_of_no_cut _ hfree, hl, if_false]
        exact ⟨by simp [Rescan.serve, Rescan.decode, Codec.forget, hc, hl],
          Decoder.Sound.whole _ hfree⟩
  | decodeEnd =>
    cases hc : cut? c.input with
    | some cut =>
      simp only [Codec.serve, Decoder.decodeEnd_of_cut hd hc]
      exact ⟨by simp [Rescan.serve, Rescan.decode, Codec.forget, hc], Decoder.Sound.reset _ _⟩
    | none =>
      have hfree := cut?_eq_none_iff.mp hc
      by_cases hl : c.decoder.limit < c.input.length
      · simp only [Codec.serve, Decoder.decodeEnd_of_no_cut _ hfree, hl, if_true]
        exact ⟨by simp [Rescan.serve, Rescan.decode, Codec.forget, hc, hl], hd⟩
      · simp only [Codec.serve, Decoder.decodeEnd_of_no_cut _ hfree, hl, if_false]
        exact ⟨by simp [Rescan.serve, Rescan.decode, Codec.forget, hc, hl],
          Decoder.Sound.reset _ _⟩

/-- A refused buffer is left alone, and so is what is remembered of it. -/
theorem Codec.Sound.serve_error {c : Codec} (h : c.Sound) {request : Request} {e : TooLarge}
    (he : (c.serve request).1 = some (.error e)) : (c.serve request).2 = c := by
  have hd : c.decoder.Sound c.input := h
  cases request with
  | feed bytes => simp [Codec.serve] at he
  | encode text => simp [Codec.serve] at he
  | decode =>
    cases hc : cut? c.input with
    | some cut => simp [Codec.serve, Decoder.decode_of_cut hd hc] at he
    | none =>
      simp only [Codec.serve, Decoder.decode_of_no_cut _ (cut?_eq_none_iff.mp hc)] at he ⊢
      split at he
      · rename_i hl
        simp only [hl, if_true]
      · simp at he
  | decodeEnd =>
    cases hc : cut? c.input with
    | some cut => simp [Codec.serve, Decoder.decodeEnd_of_cut hd hc] at he
    | none =>
      simp only [Codec.serve, Decoder.decodeEnd_of_no_cut _ (cut?_eq_none_iff.mp hc)] at he ⊢
      split at he
      · rename_i hl
        simp only [hl, if_true]
      · simp at he

/-- What a caller sees after each request: the outcome, the bytes that wait and those encoded. -/
def Codec.transcript (c : Codec) : List Request → List (Option Found × Bytes × Bytes)
  | [] => []
  | request :: requests =>
    let (found, c') := c.serve request
    (found, c'.input, c'.output) :: c'.transcript requests

/-- The same for a codec that remembers nothing. -/
def Rescan.transcript (c : Rescan) : List Request → List (Option Found × Bytes × Bytes)
  | [] => []
  | request :: requests =>
    let (found, c') := c.serve request
    (found, c'.input, c'.output) :: c'.transcript requests

/-- The codec after requests in their order. -/
def Codec.after (c : Codec) (requests : List Request) : Codec :=
  requests.foldl (fun c request => (c.serve request).2) c

theorem Codec.Sound.transcript {c : Codec} (h : c.Sound) (requests : List Request) :
    c.transcript requests = c.forget.transcript requests := by
  induction requests generalizing c with
  | nil => rfl
  | cons request requests ih =>
    obtain ⟨hserve, hsound⟩ := h.serve request
    simp only [Codec.transcript, Rescan.transcript, hserve]
    rw [ih hsound]
    rfl

theorem Codec.Sound.after {c : Codec} (h : c.Sound) (requests : List Request) :
    (c.after requests).Sound := by
  induction requests generalizing c with
  | nil => exact h
  | cons request requests ih => exact ih (h.serve request).2

/-- A codec that starts with nothing. -/
def Codec.ofLimit (limit : Nat) : Codec :=
  { decoder := { limit } }

theorem Codec.sound_ofLimit (limit : Nat) : (Codec.ofLimit limit).Sound :=
  Decoder.Sound.reset { limit } []

/-- Whatever a codec is asked to do, it answers like one that looks through all of its input every
time; it never looks beyond its input; and a refusal changes nothing. -/
theorem transcript_eq_rescan (limit : Nat) (requests : List Request) :
    (Codec.ofLimit limit).transcript requests = Rescan.transcript { limit } requests ∧
      ((Codec.ofLimit limit).after requests).decoder.scanned ≤
        ((Codec.ofLimit limit).after requests).input.length ∧
      ∀ request e, (((Codec.ofLimit limit).after requests).serve request).1 = some (.error e) →
        (((Codec.ofLimit limit).after requests).serve request).2 =
          (Codec.ofLimit limit).after requests := by
  have hfresh := Codec.sound_ofLimit limit
  refine ⟨hfresh.transcript requests, (hfresh.after requests).scanned_le, ?_⟩
  intro request e he
  exact (hfresh.after requests).serve_error he

theorem transcript_eq_rescan_refusal :
    (((Codec.ofLimit 2).after [.feed [7, 7, 7]]).serve .decode).1 = some (.error ⟨3, 2⟩) ∧
      (((Codec.ofLimit 2).after [.feed [7, 7, 7]]).serve .decode).2 =
        (Codec.ofLimit 2).after [.feed [7, 7, 7]] :=
  ⟨rfl, (transcript_eq_rescan 2 [.feed [7, 7, 7]]).2.2 .decode ⟨3, 2⟩ rfl⟩

end QueryServer.Frame
