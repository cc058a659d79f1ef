import QueryServer.Proofs.Connection.Conservation
import QueryServer.Proofs.Connection.Emission
import QueryServer.Proofs.Frame.Segments
/-!
From one connection to another. Main statement: what is written to the one is read from the other,
however the bytes go out and however they come in; and valid bytes that are read are written again.
-/

namespace QueryServer

/-- A read that brings bytes, or that is tried again. -/
def Arrival.flows : Arrival → Bool
  | chunk _ => true
  | pending => true
  | ending => false
  | failure _ => false

/-- These arrivals bring exactly these bytes, cut and delayed in some way. -/
structure Arrival.Carry (arrivals : List Arrival) (bytes : Bytes) : Prop where
  flows : ∀ a ∈ arrivals, a.flows = true
  bytes : arrivals.flatMap Arrival.bytes = bytes

theorem Arrival.Carry.of_cons {a : Arrival} {arrivals : List Arrival} {bytes : Bytes}
    (h : Carry (a :: arrivals) bytes) :
    ∃ rest, bytes = a.bytes ++ rest ∧ a.flows = true ∧ Carry arrivals rest :=
  ⟨arrivals.flatMap Arrival.bytes, by rw [← h.bytes, List.flatMap_cons],
    h.flows a List.mem_cons_self, fun b hb => h.flows b (List.mem_cons_of_mem a hb), rfl⟩

namespace Residue

/-- Where no more than the limit is ever left over, bytes are reported as if they came at once. -/
theorem emission_of_carry {limit : Nat} {arrivals : List Arrival} {left bytes : Bytes}
    (hc : Arrival.Carry arrivals bytes) (hfree : Frame.terminator ∉ left)
    (hfit : ∀ start, start <+: bytes → (Frame.tail (left ++ start)).length ≤ limit)
    (more : List Arrival) :
    emission limit ⟨left, false⟩ (arrivals ++ more) =
      (Frame.pieces (left ++ bytes)).map frame ++
        emission limit ⟨Frame.tail (left ++ bytes), false⟩ more := by
  induction arrivals generalizing left bytes with
  | nil =>
    obtain rfl : [] = bytes := hc.bytes
    simp [Frame.pieces_of_not_mem hfree, Frame.tail_of_not_mem hfree]
  | cons a arrivals ih =>
    obtain ⟨rest, rfl, hflows, hrest⟩ := hc.of_cons
    cases a with
    | ending => contradiction
    | failure message => contradiction
    | pending => exact ih hrest hfree hfit
    | chunk c =>
      have hleft : (Frame.tail (left ++ c)).length ≤ limit := hfit c (List.prefix_append c rest)
      have hframes : framesOf limit (left ++ c) = (Frame.pieces (left ++ c)).map frame := by
        simp [framesOf, Nat.not_lt.mpr hleft]
      have hfit' : ∀ start, start <+: rest →
          (Frame.tail (Frame.tail (left ++ c) ++ start)).length ≤ limit := by
        intro start hstart
        rw [← Frame.tail_append, List.append_assoc]
        exact hfit _ ((List.prefix_append_right_inj c).mpr hstart)
      rw [List.cons_append, emission, emit, next, hframes,
        ih hrest (Frame.not_mem_split _).2 hfit', Arrival.bytes, ← List.append_assoc left,
        Frame.pieces_append (left ++ c), Frame.tail_append (left ++ c), List.map_append,
        List.append_assoc]

theorem emission_endings (limit n : Nat) (ended : Bool) :
    emission limit ⟨[], ended⟩ (List.replicate n .ending) = List.replicate n (.ok none) := by
  induction n generalizing ended with
  | zero => rfl
  | succ n ih =>
    rw [List.replicate_succ, emission, List.replicate_succ]
    cases ended with
    | true => simpa [emit, next] using ih true
    | false => simpa [emit, next] using ih true

end Residue

namespace Connection

/-- What successive writes report. -/
def writeFrames : List String → Connection → List (Except WriteFault Unit)
  | [], _ => []
  | text :: texts, c => (c.writeFrame text).1 :: writeFrames texts (c.writeFrame text).2

/-- Reads give exactly these frames in their order, and nothing after them. -/
def Yields (c : Connection) (frames : List String) : Prop :=
  ∀ n, c.readFrames n = Frame.reports frames n

/-- Where the stream takes some bytes with every write or is tried again, texts are sent one after
another to their last bytes. -/
theorem writeFrames_of_accepts {c : Connection} (hb : c.writer.backlog = [])
    (hacc : ∀ a ∈ c.acceptances, a.accepts = true) (texts : List String) :
    c.writeFrames texts = List.replicate texts.length (.ok ()) ∧
      (c.after (texts.map .write)).writer.sent =
        c.writer.sent ++ texts.flatMap Frame.encode := by
  induction texts generalizing c with
  | nil => simp [writeFrames, after]
  | cons text texts ih =>
    obtain ⟨w', rest, hwrite, hempty, hsent, hrest⟩ := Writer.write_of_accepts hacc hb text
    have hframe : c.writeFrame text = (.ok (), { c with writer := w', acceptances := rest }) := by
      simp [writeFrame, hwrite]
    obtain ⟨hreports, hall⟩ := ih (c := { c with writer := w', acceptances := rest }) hempty hrest
    constructor
    · rw [writeFrames, hframe, hreports, List.length_cons, List.replicate_succ]
    · have hafter : c.after ((text :: texts).map .write) =
          { c with writer := w', acceptances := rest : Connection }.after (texts.map .write) := by
        simp [after, serve, hframe]
      rw [hafter, hall, hsent, List.flatMap_cons, List.append_assoc]

/-- The bytes of frames that fit are read as these frames, however they come in. -/
theorem yields_of_carry {frames : List String} (hfree : Frame.Free frames) {limit : Nat}
    (hfit : ∀ frame ∈ frames, Frame.size frame ≤ limit) {arrivals : List Arrival}
    (hc : Arrival.Carry arrivals (frames.flatMap Frame.encode)) (acceptances : List Acceptance) :
    (fresh limit arrivals acceptances).Yields frames := by
  intro n
  have hq : (Reader.ofLimit limit).Quiet := ⟨rfl, rfl⟩
  have hdue : (Reader.ofLimit limit).due limit (arrivals ++ List.replicate n .ending) =
      frames.map (Except.ok ∘ some) ++ List.replicate n (.ok none) := by
    have he := Residue.emission_of_carry hc List.not_mem_nil
      (fun start hs => Frame.tail_prefix_le hfree hfit hs) (List.replicate n .ending)
    rw [List.nil_append, Frame.pieces_of_free hfree, Frame.tail_of_free hfree,
      Residue.emission_endings, List.map_map] at he
    rw [Reader.due, hq.owed, hq.residue]
    refine he.trans (congrArg (· ++ _) (List.map_congr_left fun frame _ => ?_))
    simp [Residue.frame, Frame.Decoder.textOf_utf8]
  rw [readFrames_due (Reader.sound_ofLimit limit) (Nat.le_refl n), Frame.reports]
  exact congrArg (List.take n) hdue

/-- Texts that are written to one connection are read from another as their segments, whatever
partial writes there are and however the bytes are cut on their way; and valid bytes that end with
a terminator are, byte for byte, the frames that are decoded from them. -/
theorem yields_segments :
    (∀ (texts : List String) (sender : Connection), sender.writer = {} →
      (∀ a ∈ sender.acceptances, a.accepts = true) →
      sender.writeFrames texts = List.replicate texts.length (.ok ()) ∧
      (∀ (limit : Nat) (arrivals : List Arrival) (acceptances : List Acceptance),
        Arrival.Carry arrivals (sender.after (texts.map .write)).writer.sent →
        (∀ frame ∈ texts.flatMap Frame.segments, Frame.size frame ≤ limit) →
        (fresh limit arrivals acceptances).Yields (texts.flatMap Frame.segments)) ∧
      ((∀ text ∈ texts, '\x00' ∉ text.toList) → texts.flatMap Frame.segments = texts)) ∧
    (∀ text : String, text = "" ∨
        (Text.Utf8.encode text.toList).getLast? = some Frame.terminator →
      ∃ frames, frames.flatMap Frame.encode = Text.Utf8.encode text.toList ∧
        (∀ limit n, ((Frame.Codec.ofLimit limit).after
          [.feed (Text.Utf8.encode text.toList)]).decodings n = Frame.reports frames n) ∧
        (∀ (limit : Nat) (arrivals : List Arrival) (acceptances : List Acceptance),
          Arrival.Carry arrivals (Text.Utf8.encode text.toList) →
          (∀ frame ∈ frames, Frame.size frame ≤ limit) →
          (fresh limit arrivals acceptances).Yields frames)) := by
  constructor
  · intro texts sender hwriter hacc
    obtain ⟨hreports, hsent⟩ := writeFrames_of_accepts (by rw [hwriter]) hacc texts
    refine ⟨hreports, ?_, fun hfree => Frame.flatMap_segments_of_free hfree⟩
    intro limit arrivals acceptances hcarry hfit
    rw [hsent, hwriter, List.nil_append, ← Frame.encode_flatMap_segments] at hcarry
    exact yields_of_carry (Frame.free_flatMap_segments texts) hfit hcarry acceptances
  · intro text hend
    obtain ⟨frames, hfree, hbytes⟩ := Frame.exists_frames hend
    refine ⟨frames, hbytes, fun limit n => ?_, fun limit arrivals acceptances hcarry hfit => ?_⟩
    · have hsound := (Frame.Codec.sound_ofLimit limit).after [.feed (Text.Utf8.encode text.toList)]
      exact hsound.decodings hfree hbytes.symm n
    · exact yields_of_carry hfree hfit (hbytes ▸ hcarry) acceptances

/-- A frame of exactly the limit, with a character that is cut in the middle. -/
theorem yields_segments_cut :
    let sender := fresh 9 [] [.upTo 2, .pending, .upTo 1]
    let arrivals := [Arrival.chunk [97, 0, 0xC3], .pending, .chunk [0xA9], .chunk [0, 0]]
    (∀ a ∈ sender.acceptances, a.accepts = true) ∧
      Arrival.Carry arrivals (sender.after (["a\x00é", ""].map .write)).writer.sent ∧
      (∀ frame ∈ ["a\x00é", ""].flatMap Frame.segments, Frame.size frame ≤ 2) ∧
      (fresh 2 arrivals []).Yields (["a\x00é", ""].flatMap Frame.segments) ∧
      (Text.Utf8.encode "é\x00\x00".toList).getLast? = some Frame.terminator ∧
      ∃ frames : List String,
        frames.flatMap Frame.encode = Text.Utf8.encode "é\x00\x00".toList := by
  intro sender arrivals
  have hacc : ∀ a ∈ sender.acceptances, a.accepts = true := by decide
  have hcarry : Arrival.Carry arrivals (sender.after (["a\x00é", ""].map .write)).writer.sent :=
    ⟨by decide, by decide⟩
  have hfit : ∀ frame ∈ ["a\x00é", ""].flatMap Frame.segments, Frame.size frame ≤ 2 := by
    decide
  have hlast : (Text.Utf8.encode "é\x00\x00".toList).getLast? = some Frame.terminator := by
    decide
  obtain ⟨frames, hframes, -⟩ := yields_segments.2 "é\x00\x00" (.inr hlast)
  exact ⟨hacc, hcarry, hfit,
    (yields_segments.1 _ sender rfl hacc).2.1 2 arrivals [] hcarry hfit, hlast, frames, hframes⟩

end Connection
end QueryServer
