import QueryServer.Value
import QueryServer.Proofs.Number.Reading
import QueryServer.Proofs.Text.Literal
/-!
Reading values and rows. Numbers and words are tokens, and only texts and bytes have quotes, so a
value at the front shows its kind and where it ends; what stands between quotes does not matter.
-/

namespace QueryServer

/-- All that are not numbers are one. -/
def Value.normal : Value → Value
  | real x => real x.normal
  | v => v

abbrev Row.normal (r : Row) : Row :=
  r.map Value.normal

/-- What a token stands for. -/
def Value.ofToken? (cs : List Char) : Option Value :=
  match Binary64.read? cs, readInt? cs with
  | some x, _ => some (.real x)
  | none, some n => some (.integer (Int64.ofInt n))
  | none, none => if cs = "None".toList then some .null else none

/-- A value at the front and what follows it. -/
def Value.read? (cs : List Char) : Option (Value × List Char) :=
  match Value.ofToken? (cs.takeWhile isTokenChar) with
  | some v => some (v, cs.dropWhile isTokenChar)
  | none =>
    match Text.Literal.read cs with
    | some (s, rest) => some (.text (String.ofList s), rest)
    | none => (Text.Literal.readBytes cs).map fun (bs, rest) => (.blob bs, rest)

namespace Value

variable {v : Value} {c : Char} {cs rest : List Char}

theorem ofToken?_nil : ofToken? [] = none := by
  decide

theorem length_read? (h : read? cs = some (v, rest)) : rest.length < cs.length := by
  have hsplit := congrArg List.length (List.takeWhile_append_dropWhile (p := isTokenChar) (l := cs))
  rw [List.length_append] at hsplit
  unfold read? at h
  split at h
  · rename_i w hw
    obtain ⟨-, rfl⟩ := Prod.mk.inj (Option.some.inj h)
    have hne : cs.takeWhile isTokenChar ≠ [] := by
      intro he
      rw [he, ofToken?_nil] at hw
      cases hw
    have := List.length_pos_iff.mpr hne
    omega
  split at h
  · rename_i hread
    obtain ⟨-, rfl⟩ := Prod.mk.inj (Option.some.inj h)
    exact Text.Literal.length_read hread
  · obtain ⟨⟨bs, rest'⟩, hread, he⟩ := Option.map_eq_some_iff.mp h
    obtain ⟨-, rfl⟩ := Prod.mk.inj he
    exact Text.Literal.length_readBytes hread

/-- A token ends at the first character that cannot belong to it. -/
theorem read?_token {token : List Char} (htoken : ∀ d ∈ token, isTokenChar d)
    (hv : ofToken? token = some v) (hc : isTokenChar c = false) (rest : List Char) :
    read? (token ++ c :: rest) = some (v, c :: rest) := by
  have hc' : ¬ isTokenChar c = true := by simp [hc]
  simp [read?, List.takeWhile_append_of_pos htoken, List.dropWhile_append_of_pos htoken, hc', hv]

theorem ofToken?_writeInt (n : Int64) : ofToken? (writeInt n.toInt) = some (.integer n) := by
  rw [ofToken?, Binary64.read?_writeInt, readInt?_writeInt]
  exact congrArg (some <| integer ·) (Int64.ofInt_toInt n)

theorem ofToken?_write (x : Binary64) : ofToken? (x.write .wire) = some (.real x.normal) := by
  rw [ofToken?, Binary64.read?_write]

/-- A value is read back from its text, whatever follows its end. -/
theorem read?_written (v : Value) (hc : isTokenChar c = false) (rest : List Char) :
    read? (v.written ++ c :: rest) = some (v.normal, c :: rest) := by
  cases v with
  | null => exact read?_token (List.all_eq_true.mp rfl) rfl hc rest
  | integer n =>
    exact read?_token (fun _ => isTokenChar_of_mem_writeInt) (ofToken?_writeInt n) hc rest
  | real x =>
    exact read?_token (fun _ => isTokenChar_of_mem_write) (ofToken?_write x) hc rest
  | text s =>
    have htoken : (Text.Literal.text s.toList ++ c :: rest).takeWhile isTokenChar = [] := by
      rw [Text.Literal.text, Text.Literal.textQuote]
      rcases Text.Literal.isQuote_quoteFor (s.toList.contains '\'') (s.toList.contains '"') with
        h | h <;> rw [h] <;> rfl
    simp [read?, written, normal, htoken, ofToken?_nil, Text.Literal.read_text]
  | blob bs =>
    have htoken : (Text.Literal.bytes bs ++ c :: rest).takeWhile isTokenChar = ['b'] := by
      rw [Text.Literal.bytes, Text.Literal.bytesQuote]
      rcases Text.Literal.isQuote_quoteFor (bs.contains 0x27) (bs.contains 0x22) with h | h <;>
        rw [h] <;> rfl
    have hread : Text.Literal.read (Text.Literal.bytes bs ++ c :: rest) = none := rfl
    have hword : ofToken? ['b'] = none := by decide
    simp [read?, written, normal, htoken, hword, hread, Text.Literal.readBytes_bytes]

theorem zero_not_mem_written (v : Value) : '\x00' ∉ v.written := by
  cases v with
  | null => decide
  | integer n => exact fun h => absurd (isTokenChar_of_mem_writeInt h) (by decide)
  | real x => exact fun h => absurd (isTokenChar_of_mem_write h) (by decide)
  | text s => exact Text.Literal.zero_not_mem_text s.toList
  | blob bs => exact Text.Literal.zero_not_mem_bytes bs

end Value

namespace Row

/-- The values after an opening bracket or a comma, up to the closing bracket. -/
def readValues? (cs : List Char) : Option (Row × List Char) :=
  match _h : Value.read? cs with
  | some (v, ',' :: ' ' :: rest) => (readValues? rest).map fun (r, rest) => (v :: r, rest)
  | some (v, ',' :: ')' :: rest) => some ([v], rest)
  | some (v, ')' :: rest) => some ([v], rest)
  | _ => none
termination_by cs.length
decreasing_by
  have := Value.length_read? _h
  simp only [List.length_cons] at this
  omega

/-- A row at the front and what follows it. -/
def read? : List Char → Option (Row × List Char)
  | '(' :: cs =>
    match readValues? cs, cs with
    | some found, _ => some found
    | none, ')' :: rest => some ([], rest)
    | none, _ => none
  | _ => none

variable {r : Row} {cs rest : List Char}

theorem readValues?_more {v : Value} (h : Value.read? cs = some (v, ',' :: ' ' :: rest)) :
    readValues? cs = (readValues? rest).map fun (r, rest) => (v :: r, rest) := by
  rw [readValues?]
  split <;> simp_all

theorem readValues?_lone {v : Value} (h : Value.read? cs = some (v, ',' :: ')' :: rest)) :
    readValues? cs = some ([v], rest) := by
  rw [readValues?]
  split <;> simp_all

theorem readValues?_last {v : Value} (h : Value.read? cs = some (v, ')' :: rest)) :
    readValues? cs = some ([v], rest) := by
  rw [readValues?]
  split <;> simp_all

theorem readValues?_none (h : Value.read? cs = none) : readValues? cs = none := by
  rw [readValues?]
  split <;> simp_all

theorem length_readValues? (h : readValues? cs = some (r, rest)) : rest.length < cs.length := by
  fun_induction readValues? cs generalizing r with
  | case1 cs v rest' hv ih =>
    obtain ⟨⟨r', rest''⟩, hr, he⟩ := Option.map_eq_some_iff.mp h
    obtain ⟨-, rfl⟩ := Prod.mk.inj he
    have := Value.length_read? hv
    have := ih hr
    simp only [List.length_cons] at *
    omega
  | case2 cs v rest' hv =>
    obtain ⟨-, rfl⟩ := Prod.mk.inj (Option.some.inj h)
    have := Value.length_read? hv
    simp only [List.length_cons] at this
    omega
  | case3 cs v rest' hv =>
    obtain ⟨-, rfl⟩ := Prod.mk.inj (Option.some.inj h)
    have := Value.length_read? hv
    simp only [List.length_cons] at this
    omega
  | case4 => cases h

theorem length_read? (h : read? cs = some (r, rest)) : rest.length < cs.length := by
  unfold read? at h
  split at h
  · rename_i cs
    split at h
    · rename_i found hfound
      exact Nat.lt_succ_of_lt (length_readValues? (hfound.trans h))
    · obtain ⟨-, rfl⟩ := Prod.mk.inj (Option.some.inj h)
      simp only [List.length_cons]
      omega
    · cases h
  · cases h

/-- Values between commas are read back in their order, up to the closing bracket. -/
theorem readValues?_written (v : Value) (r : Row) (rest : List Char) :
    readValues? (List.intercalate [',', ' '] ((v :: r).map Value.written) ++ ')' :: rest) =
      some (normal (v :: r), rest) := by
  induction r generalizing v with
  | nil =>
    rw [List.map_singleton, List.intercalate_singleton]
    exact readValues?_last (Value.read?_written v (c := ')') rfl rest)
  | cons w r ih =>
    have hread := Value.read?_written v (c := ',') rfl
      (' ' :: (List.intercalate [',', ' '] ((w :: r).map Value.written) ++ ')' :: rest))
    have htext : List.intercalate [',', ' '] ((v :: w :: r).map Value.written) ++ ')' :: rest =
        v.written ++ ',' :: ' ' ::
          (List.intercalate [',', ' '] ((w :: r).map Value.written) ++ ')' :: rest) := by
      simp [List.intercalate_cons_cons]
    rw [htext, readValues?_more hread, ih]
    rfl

/-- A row is read back from its text, whatever follows it. -/
theorem read?_written (r : Row) (rest : List Char) :
    read? (r.written ++ rest) = some (r.normal, rest) := by
  match r with
  | [] =>
    have hnone : readValues? (')' :: rest) = none := readValues?_none rfl
    simp [written, read?, hnone]
  | [v] =>
    have hlone := readValues?_lone (Value.read?_written v (c := ',') rfl (')' :: rest))
    simp [written, read?, hlone]
  | v :: w :: r =>
    have hvalues := readValues?_written v (w :: r) rest
    have htext : written (v :: w :: r) ++ rest =
        '(' :: (List.intercalate [',', ' '] ((v :: w :: r).map Value.written) ++ ')' :: rest) := by
      simp [written]
    rw [htext]
    simp only [read?, hvalues]

example : written [.text "a', '|", .blob [0x27, 0], .integer (-1)] =
    "(\"a', '|\", b\"'\\x00\", -1)".toList := by
  decide

theorem zero_not_mem_values (r : Row) :
    '\x00' ∉ List.intercalate [',', ' '] (r.map Value.written) := by
  induction r with
  | nil => simp
  | cons v r ih =>
    cases r with
    | nil => simpa using v.zero_not_mem_written
    | cons w r => simpa [List.intercalate_cons_cons, v.zero_not_mem_written] using ih

theorem zero_not_mem_written (r : Row) : '\x00' ∉ r.written := by
  have hvalues := zero_not_mem_values r
  unfold written
  split <;> simp [hvalues]

end Row
end QueryServer
