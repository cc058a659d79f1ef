import Mathlib.Data.List.Basic
import QueryServer.Response
import QueryServer.Proofs.Frame.Resumption
import QueryServer.Proofs.Value
/-!
Responses on the wire. The text of a response holds all of it, and its bytes are one frame.
-/

namespace QueryServer.Response

/-- No rows are like no answer, and all that are not numbers are one. -/
def normal : Response → Response
  | success => success
  | rows rs => if rs = [] then success else rows (rs.map Row.normal)
  | failure message => failure message

/-- Rows with a bar before each. -/
def readRows? (cs : List Char) : Option (List Row) :=
  match cs with
  | [] => some []
  | '|' :: cs =>
    match _h : Row.read? cs with
    | some (r, rest) => (readRows? rest).map (r :: ·)
    | none => none
  | _ => none
termination_by cs.length
decreasing_by
  have := Row.length_read? _h
  simp only [List.length_cons]
  omega

/-- The response that a text was written for. -/
def read? (s : String) : Option Response :=
  match "ERROR: ".toList.isPrefixOf? s.toList, "SUCCESS".toList.isPrefixOf? s.toList with
  | some message, _ => some (failure (String.ofList message))
  | none, some cs => (readRows? cs).map fun rs => if rs = [] then success else rows rs
  | none, none => none

theorem readRows?_bar {r : Row} {cs rest : List Char} (h : Row.read? cs = some (r, rest)) :
    readRows? ('|' :: cs) = (readRows? rest).map (r :: ·) := by
  rw [readRows?]
  split <;> simp_all

theorem readRows?_written (rs : List Row) :
    readRows? (rs.flatMap fun r => '|' :: r.written) = some (rs.map Row.normal) := by
  induction rs with
  | nil => simp [readRows?]
  | cons r rs ih =>
    rw [List.flatMap_cons, List.cons_append, readRows?_bar (Row.read?_written r _), ih]
    rfl

theorem written_success : success.written = "SUCCESS".toList :=
  rfl

theorem written_rows (rs : List Row) :
    (rows rs).written = "SUCCESS".toList ++ rs.flatMap fun r => '|' :: r.written :=
  rfl

theorem written_failure (message : String) :
    (failure message).written = "ERROR: ".toList ++ message.toList :=
  rfl

theorem toList_render (r : Response) : r.render.toList = r.written := by
  rw [render, String.toList_ofList]

/-- A response is read back from its text. -/
theorem read?_render (r : Response) : read? r.render = some r.normal := by
  have hrest : ∀ status rest : List Char, status.isPrefixOf? (status ++ rest) = some rest :=
    fun _ _ => List.isPrefixOf?_eq_some_iff_append_eq.mpr rfl
  have hstatus : ∀ rest, "ERROR: ".toList.isPrefixOf? ("SUCCESS".toList ++ rest) = none :=
    fun _ => rfl
  have hempty : success.written = (rows []).written := (List.append_nil _).symm
  unfold read?
  rw [toList_render]
  cases r with
  | success =>
    simp only [hempty, written_rows, hstatus, hrest, readRows?_written, Option.map_some]
    rfl
  | rows rs =>
    simp only [written_rows, hstatus, hrest, readRows?_written, Option.map_some, normal,
      List.map_eq_nil_iff]
  | failure message => simp only [written_failure, hrest, String.ofList_toList, normal]

theorem success_prefix_iff (r : Response) :
    "SUCCESS".toList <+: r.written ↔ r.isSuccess = true := by
  cases r with
  | success => simp [written_success, isSuccess]
  | rows rs => simp [written_rows, isSuccess]
  | failure message => simp [written_failure, isSuccess, List.cons_prefix_cons]

theorem error_prefix_iff (r : Response) :
    "ERROR: ".toList <+: r.written ↔ r.isSuccess = false := by
  cases r with
  | success => simp [written_success, isSuccess]
  | rows rs => simp [written_rows, isSuccess, List.cons_prefix_cons]
  | failure message => simp [written_failure, isSuccess]

theorem written_normal (r : Response) : r.normal.written = r.written := by
  have hvalue : ∀ v : Value, v.normal.written = v.written := by
    intro v
    cases v with
    | real x =>
      simp only [Value.normal, Value.written, Binary64.normal]
      split
      · rename_i hx
        simp only [Binary64.write, hx, if_true]
        rfl
      · rfl
    | _ => rfl
  have hrow : ∀ r : Row, r.normal.written = r.written := by
    intro r
    simp [Row.written, Function.comp_def, hvalue]
  cases r with
  | rows rs =>
    by_cases hrs : rs = []
    · simp [normal, written_success, written_rows, hrs]
    · simp [normal, written_rows, hrs, List.flatMap_map, hrow]
  | _ => rfl

/-- Only the message of a failure can bring U+0000 into a response. -/
theorem zero_not_mem_written {r : Response}
    (h : ∀ message, r = failure message → '\x00' ∉ message.toList) : '\x00' ∉ r.written := by
  cases r with
  | success => decide
  | rows rs =>
    have hrows : '\x00' ∉ rs.flatMap fun r => '|' :: r.written := by
      simp [Row.zero_not_mem_written]
    simp [written_rows, hrows]
  | failure message => simp [written_failure, h message rfl]

/-- Two responses have the same bytes only if they are the same up to what `normal` leaves out. -/
theorem encode_render_inj {r r' : Response} :
    Frame.encode r'.render = Frame.encode r.render ↔ r'.normal = r.normal := by
  constructor
  · intro h
    have hchars : r'.written = r.written := by
      have hbytes := List.append_cancel_right h
      rw [toList_render, toList_render] at hbytes
      rw [← Text.Utf8.decode_encode r'.written, hbytes, Text.Utf8.decode_encode]
    have hread := read?_render r'
    rw [render, hchars, ← render, read?_render] at hread
    exact (Option.some.inj hread).symm
  · intro h
    rw [render, ← written_normal, h, written_normal, ← render]

/-- A response without U+0000 in its message is exactly one frame, the frame shows whether it
succeeded, and its rows, their values, or its message are read back from the text of the frame. -/
theorem frame_determines (r : Response)
    (h : ∀ message, r = failure message → '\x00' ∉ message.toList) :
    (∃ bytes, Frame.terminator ∉ bytes ∧ Frame.encode r.render = bytes ++ [Frame.terminator]) ∧
      (∀ limit rest, Frame.Decoder.decode { limit } (Frame.encode r.render ++ rest) =
        (.ok (some r.render), { limit }, rest)) ∧
      ("SUCCESS".toList <+: r.render.toList ↔ r.isSuccess = true) ∧
      ("ERROR: ".toList <+: r.render.toList ↔ r.isSuccess = false) ∧
      read? r.render = some r.normal ∧
      ∀ r' : Response, Frame.encode r'.render = Frame.encode r.render ↔ r'.normal = r.normal := by
  have hzero : '\x00' ∉ r.render.toList := by
    rw [toList_render]
    exact zero_not_mem_written h
  have hfree : Frame.terminator ∉ Text.Utf8.encode r.render.toList := fun hm =>
    hzero (Text.Utf8.zero_mem_encode.mp hm)
  refine ⟨⟨_, hfree, rfl⟩, Frame.Decoder.decode_encode hzero, ?_, ?_, read?_render r,
    fun _ => encode_render_inj⟩
  · rw [toList_render]
    exact success_prefix_iff r
  · rw [toList_render]
    exact error_prefix_iff r

theorem frame_determines_refusal :
    '\x00' ∉ "near \"'|\": syntax error".toList ∧
      read? (failure "near \"'|\": syntax error").render =
        some (failure "near \"'|\": syntax error") ∧
      ∀ r : Response,
        Frame.encode r.render = Frame.encode (failure "near \"'|\": syntax error").render ↔
          r.normal = failure "near \"'|\": syntax error" := by
  have hmessage : '\x00' ∉ "near \"'|\": syntax error".toList := by decide
  obtain ⟨-, -, -, -, hread, hsame⟩ := frame_determines (failure "near \"'|\": syntax error") (by
    rintro _ ⟨⟩
    exact hmessage)
  exact ⟨hmessage, hread, hsame⟩

end QueryServer.Response
