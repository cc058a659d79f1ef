import QueryServer.Frame
/-!
Bytes as terminated pieces and an open tail. The pieces and the tail are free of terminators, they
put the bytes together again, and nothing else does.
-/

namespace QueryServer.Frame

theorem cut?_eq_none_iff {bytes : Bytes} : cut? bytes = none ↔ terminator ∉ bytes := by
  induction bytes with
  | nil => simp [cut?]
  | cons b bs ih =>
    by_cases hb : b = terminator
    · simp [cut?, hb]
    · simp [cut?, hb, ih, Ne.symm hb]

theorem cut?_append {piece rest : Bytes} (h : terminator ∉ piece) :
    cut? (piece ++ terminator :: rest) = some (piece, rest) := by
  induction piece with
  | nil => simp [cut?]
  | cons b bs ih =>
    simp only [List.mem_cons, not_or] at h
    simp [cut?, Ne.symm h.1, ih h.2]

/-- A cut takes a piece without terminators off the front, and the terminator after it. -/
theorem cut?_eq_some_iff {bytes piece rest : Bytes} :
    cut? bytes = some (piece, rest) ↔ terminator ∉ piece ∧ bytes = piece ++ terminator :: rest := by
  constructor
  · intro h
    induction bytes generalizing piece with
    | nil => simp [cut?] at h
    | cons b bs ih =>
      by_cases hb : b = terminator
      · simp only [cut?, hb, if_true, Option.some.injEq, Prod.mk.injEq] at h
        obtain ⟨rfl, rfl⟩ := h
        exact ⟨by simp, by simp [hb]⟩
      · simp only [cut?, hb, if_false, Option.map_eq_some_iff] at h
        obtain ⟨⟨tail, rest'⟩, hcut, he⟩ := h
        simp only [Prod.mk.injEq] at he
        obtain ⟨rfl, rfl⟩ := he
        obtain ⟨hfree, rfl⟩ := ih hcut
        exact ⟨by simp [hfree, Ne.symm hb], rfl⟩
  · rintro ⟨hfree, rfl⟩
    exact cut?_append hfree

/-- All terminated pieces of bytes in their order, and the bytes after the last terminator. -/
def split : Bytes → List Bytes × Bytes
  | [] => ([], [])
  | b :: bs =>
    if b = terminator then ([] :: (split bs).1, (split bs).2)
    else
      match split bs with
      | ([], tail) => ([], b :: tail)
      | (piece :: pieces, tail) => ((b :: piece) :: pieces, tail)

/-- The bytes of pieces with their terminators. -/
def join (pieces : List Bytes) : Bytes :=
  pieces.flatMap (· ++ [terminator])

/-- The terminated pieces of bytes. -/
def pieces (bytes : Bytes) : List Bytes :=
  (split bytes).1

/-- The bytes that wait for their terminator. -/
def tail (bytes : Bytes) : Bytes :=
  (split bytes).2

theorem split_of_not_mem {bytes : Bytes} (h : terminator ∉ bytes) : split bytes = ([], bytes) := by
  induction bytes with
  | nil => rfl
  | cons b bs ih =>
    simp only [List.mem_cons, not_or] at h
    simp [split, Ne.symm h.1, ih h.2]

theorem split_append {piece rest : Bytes} (h : terminator ∉ piece) :
    split (piece ++ terminator :: rest) = (piece :: (split rest).1, (split rest).2) := by
  induction piece with
  | nil => simp [split]
  | cons b bs ih =>
    simp only [List.mem_cons, not_or] at h
    simp [split, Ne.symm h.1, ih h.2]

theorem pieces_of_not_mem {bytes : Bytes} (h : terminator ∉ bytes) : pieces bytes = [] := by
  rw [pieces, split_of_not_mem h]

theorem tail_of_not_mem {bytes : Bytes} (h : terminator ∉ bytes) : tail bytes = bytes := by
  rw [tail, split_of_not_mem h]

/-- Cutting takes the first piece. -/
theorem pieces_of_cut {bytes piece rest : Bytes} (h : cut? bytes = some (piece, rest)) :
    pieces bytes = piece :: pieces rest := by
  obtain ⟨hfree, rfl⟩ := cut?_eq_some_iff.mp h
  rw [pieces, split_append hfree, pieces]

theorem tail_of_cut {bytes piece rest : Bytes} (h : cut? bytes = some (piece, rest)) :
    tail bytes = tail rest := by
  obtain ⟨hfree, rfl⟩ := cut?_eq_some_iff.mp h
  rw [tail, split_append hfree, tail]

/-- Bytes that begin with terminated pieces begin with the same pieces when they are split. -/
theorem split_join {ps : List Bytes} (h : ∀ p ∈ ps, terminator ∉ p) (rest : Bytes) :
    split (join ps ++ rest) = (ps ++ (split rest).1, (split rest).2) := by
  induction ps with
  | nil => simp [join]
  | cons p ps ih =>
    have hjoin : join (p :: ps) ++ rest = p ++ terminator :: (join ps ++ rest) := by
      simp [join]
    rw [hjoin, split_append (h p List.mem_cons_self),
      ih fun q hq => h q (List.mem_cons_of_mem p hq)]
    rfl

/-- The pieces and the tail put the bytes together again. -/
theorem join_split (bytes : Bytes) : join (pieces bytes) ++ tail bytes = bytes := by
  unfold pieces tail
  induction bytes with
  | nil => rfl
  | cons b bs ih =>
    by_cases hb : b = terminator
    · simpa [split, hb, join] using ih
    · cases hs : split bs with
      | mk ps t =>
        rw [hs] at ih
        cases ps <;> simpa [split, hb, hs, join] using ih

theorem not_mem_split (bytes : Bytes) :
    (∀ p ∈ pieces bytes, terminator ∉ p) ∧ terminator ∉ tail bytes := by
  unfold pieces tail
  induction bytes with
  | nil => simp [split]
  | cons b bs ih =>
    by_cases hb : b = terminator
    · simpa [split, hb] using ih
    · cases hs : split bs with
      | mk ps t =>
        rw [hs] at ih
        cases ps <;> simpa [split, hb, hs, Ne.symm hb] using ih

theorem split_append_right (bytes more : Bytes) :
    split (bytes ++ more) =
      (pieces bytes ++ pieces (tail bytes ++ more), tail (tail bytes ++ more)) := by
  have h := split_join (not_mem_split bytes).1 (tail bytes ++ more)
  rwa [← List.append_assoc, join_split] at h

/-- More bytes leave the pieces in place and go on from the tail. -/
theorem pieces_append (bytes more : Bytes) :
    pieces (bytes ++ more) = pieces bytes ++ pieces (tail bytes ++ more) := by
  rw [pieces, split_append_right]

theorem tail_append (bytes more : Bytes) : tail (bytes ++ more) = tail (tail bytes ++ more) := by
  rw [tail, split_append_right]

theorem tail_suffix (bytes : Bytes) : tail bytes <:+ bytes :=
  ⟨join (pieces bytes), join_split bytes⟩

theorem length_pieces_le (bytes : Bytes) : (pieces bytes).length ≤ bytes.length := by
  have hjoin : ∀ ps : List Bytes, ps.length ≤ (join ps).length := by
    intro ps
    induction ps with
    | nil => simp
    | cons p ps ih =>
      simp only [join, List.flatMap_cons, List.length_append, List.length_cons] at ih ⊢
      omega
  calc (pieces bytes).length ≤ (join (pieces bytes)).length := hjoin _
    _ ≤ (join (pieces bytes) ++ tail bytes).length := by simp
    _ = bytes.length := by rw [join_split]

end QueryServer.Frame
