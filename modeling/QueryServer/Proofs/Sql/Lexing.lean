import QueryServer.Command
import QueryServer.Proofs.Text.Trim
import QueryServer.Sql.Lexer
/-!
Where keywords come from: the characters of a keyword are its spelling, and the first token of a
source begins with its first character that is no blank, unless that begins a comment.
-/

namespace QueryServer
namespace Sql
namespace Lexeme

/-- Tokens that are neither words nor ends of statements. -/
def isOther : Token → Bool
  | .keyword _ => false
  | .symbol .semicolon => false
  | _ => true

theorem isOther_numberToken (text : List Char) (isDecimal followed : Bool) :
    isOther (numberToken text isDecimal followed) := by
  unfold numberToken
  split
  · rfl
  · split <;> rfl

theorem isOther_number (cs : List Char) : isOther (number cs).1 := by
  unfold number
  extract_lets hex n junk digits whole hasPoint point exponent n' junk'
  split
  · split <;> rfl
  · exact isOther_numberToken _ _ _

/-- What can begin with a character. -/
inductive Measured (c : Char) (cs : List Char) : Option Token × Nat → Prop where
  | space (h : isSpace c) : Measured c cs (none, 0)
  | comment (n : Nat) (h : c = '-' ∨ c = '/') : Measured c cs (none, n)
  | semicolon (h : c = ';') : Measured c cs (some (.symbol .semicolon), 0)
  | word (n : Nat) : Measured c cs (some (word (c :: cs.take n)), n)
  | other (t : Token) (n : Nat) (h : isOther t) : Measured c cs (some t, n)

namespace Measured

variable {c : Char} {cs : List Char}

theorem ite {p : Prop} [Decidable p] {a b : Option Token × Nat} (ha : p → Measured c cs a)
    (hb : ¬p → Measured c cs b) : Measured c cs (if p then a else b) := by
  split
  · exact ha ‹_›
  · exact hb ‹_›

end Measured

theorem measured (c : Char) (cs : List Char) : Measured c cs (measure c cs) := by
  unfold measure
  dsimp only
  refine .ite .space fun _ => ?_
  refine .ite (fun h => .ite (fun _ => .comment _ (.inl h)) fun _ => .other _ _ rfl) fun _ => ?_
  refine .ite (fun h => .ite (fun _ => .comment _ (.inr h)) fun _ => .other _ _ rfl) fun _ => ?_
  -- parentheses, the end of a statement, and signs of one character
  iterate 2 refine .ite (fun _ => .other _ _ rfl) fun _ => ?_
  refine .ite .semicolon fun _ => ?_
  iterate 7 refine .ite (fun _ => .other _ _ rfl) fun _ => ?_
  -- comparisons
  refine .ite (fun _ => by split <;> exact .other _ _ rfl) fun _ => ?_
  refine .ite (fun _ => by split <;> exact .other _ _ rfl) fun _ => ?_
  iterate 2 refine .ite (fun _ => .ite (fun _ => .other _ _ rfl) fun _ => .other _ _ rfl) fun _ => ?_
  -- quoted names and texts, names in brackets, and blobs
  refine .ite (fun _ => ?quotes) fun _ => ?_
  case quotes =>
    split
    · refine .other _ _ ?_
      unfold quotedToken
      split <;> rfl
    · exact .other _ _ rfl
  iterate 2 refine .ite (fun _ => .ite (fun _ => .other _ _ rfl) fun _ => .other _ _ rfl) fun _ => ?_
  refine .ite (fun _ => .word _) fun _ => ?_
  refine .ite (fun _ => .other _ _ (isOther_number _)) fun _ => ?_
  iterate 2 refine .ite (fun _ => .other _ _ rfl) fun _ => ?_
  refine .ite (fun _ => .other _ _ ?parameter) fun _ => .other _ _ rfl
  case parameter => split <;> rfl

/-- What the characters of a lexeme tell about its token. -/
structure Spelled (l : Lexeme) : Prop where
  semicolon : l.token = .symbol .semicolon → l.text.head? = some ';'
  keyword : ∀ k, l.token = .keyword k → Keyword.ofWord? (String.ofList l.text) = some k

theorem spelled_of_measure {c : Char} {cs rest : List Char} {token : Token} {n : Nat}
    (hm : measure c cs = (some token, n)) : Spelled ⟨token, c :: cs.take n, rest⟩ := by
  have h := measured c cs
  rw [hm] at h
  cases h with
  | semicolon hc => exact ⟨fun _ => by simp [hc], nofun⟩
  | word =>
    unfold word
    split
    · rename_i k hk
      exact ⟨nofun, fun k' h => by cases h; exact hk⟩
    · exact ⟨nofun, nofun⟩
  | other _ _ ho =>
    refine ⟨fun h => ?_, fun k h => ?_⟩
    all_goals
      obtain rfl : token = _ := h
      cases ho

/-- A text stands after the blanks of a source, or a comment begins there, or a byte order mark is
there. -/
def Leads (text cs : List Char) : Prop :=
  ∃ first rest, Text.trimStart cs = first :: rest ∧
    (text <+: first :: rest ∨ first = '-' ∨ first = '/' ∨ first = '\uFEFF')

theorem trimStart_of_not_blank {c : Char} (h : Text.isBlank c = false) (cs : List Char) :
    Text.trimStart (c :: cs) = c :: cs := by
  simp [Text.trimStart, h]

theorem mark_of_isSpace {c : Char} (hs : isSpace c) (hb : Text.isBlank c = false) :
    c = '\uFEFF' := by
  simp only [isSpace, Bool.or_eq_true, beq_iff_eq] at hs
  rcases hs with ((((rfl | rfl) | rfl) | rfl) | rfl) | rfl
  · cases hb
  · cases hb
  · cases hb
  · cases hb
  · cases hb
  · rfl

theorem Leads.skip {c : Char} {text cs : List Char} {n : Nat} (hm : measure c cs = (none, n))
    (h : Leads text (cs.drop n)) : Leads text (c :: cs) := by
  cases hb : Text.isBlank c with
  | false =>
    refine ⟨c, cs, trimStart_of_not_blank hb cs, ?_⟩
    have hmeasured := measured c cs
    rw [hm] at hmeasured
    cases hmeasured with
    | space hs => exact .inr (.inr (.inr (mark_of_isSpace hs hb)))
    | comment _ hc => exact hc.elim (fun h => .inr (.inl h)) fun h => .inr (.inr (.inl h))
  | true =>
    have hmeasured := measured c cs
    rw [hm] at hmeasured
    cases hmeasured with
    | space hs =>
      obtain ⟨first, rest, htrim, hfirst⟩ := h
      exact ⟨first, rest, by simpa [Text.trimStart, hb] using htrim, hfirst⟩
    | comment _ hc => rcases hc with rfl | rfl <;> cases hb

theorem Leads.first {c : Char} (hb : Text.isBlank c = false) (cs : List Char) (n : Nat) :
    Leads (c :: cs.take n) (c :: cs) :=
  ⟨c, cs, trimStart_of_not_blank hb cs,
    .inl ((List.prefix_cons_inj c).mpr (List.take_prefix n cs))⟩

theorem first_of_scanAll {cs : List Char} {l : Lexeme} {ls : List Lexeme}
    (h : scanAll cs = l :: ls) :
    l.Spelled ∧ ∀ c, l.text.head? = some c → Text.isBlank c = false → Leads l.text cs := by
  induction cs using scanAll.induct with
  | case1 =>
    rw [scanAll] at h
    cases h
  | case2 c cs n hm ih =>
    rw [scanAll, hm] at h
    obtain ⟨hspelled, hleads⟩ := ih h
    exact ⟨hspelled, fun d hd hb => (hleads d hd hb).skip hm⟩
  | case3 c cs n hm =>
    rw [scanAll, hm] at h
    cases h
    refine ⟨spelled_of_measure hm, fun d hd hb => ?_⟩
    cases hd
    exact .first hb cs _
  | case4 c cs token n htoken hm ih =>
    have hcons : l = ⟨token, c :: cs.take n, cs.drop n⟩ := by
      rw [scanAll, hm] at h
      cases token <;> simp_all
    subst hcons
    refine ⟨spelled_of_measure hm, fun d hd hb => ?_⟩
    cases hd
    exact .first hb cs _

/-- Where a source is longer than what is read of it, the rest stands behind. -/
theorem Leads.append {text cs : List Char} (h : Leads text cs) (more : List Char) :
    Leads text (cs ++ more) := by
  obtain ⟨first, rest, htrim, hfirst⟩ := h
  refine ⟨first, rest ++ more, ?_, hfirst.imp_left fun hp => ?_⟩
  · unfold Text.trimStart at htrim ⊢
    rw [List.dropWhile_append, htrim]
    rfl
  · exact hp.trans (List.prefix_append (first :: rest) more)

theorem first_of_scan {cs : List Char} {l : Lexeme} {ls : List Lexeme} (h : scan cs = l :: ls) :
    l.Spelled ∧ ∀ c, l.text.head? = some c → Text.isBlank c = false → Leads l.text cs := by
  obtain ⟨hspelled, hleads⟩ := first_of_scanAll h
  refine ⟨hspelled, fun c hc hb => ?_⟩
  have happend := (hleads c hc hb).append (cs.dropWhile (· != '\x00'))
  rwa [List.takeWhile_append_dropWhile] at happend

/-- The words that begin and end transactions. -/
def isTransactional : Token → Bool
  | .keyword k => [.BEGIN, .COMMIT, .END, .ROLLBACK].contains k
  | _ => false

theorem table_transactional :
    Keyword.table.filter (fun entry => isTransactional (.keyword entry.2)) =
      [("BEGIN", .BEGIN), ("COMMIT", .COMMIT), ("END", .END), ("ROLLBACK", .ROLLBACK)] := by
  decide +kernel

/-- No such word begins with a blank, with a comment, or like a read. -/
theorem initial_of_transactional {entry : String × Keyword} (he : entry ∈ Keyword.table)
    (ht : isTransactional (.keyword entry.2)) :
    ∃ c ∈ ['B', 'C', 'E', 'R'], entry.1.toList.head? = some c := by
  have hmem : entry ∈ Keyword.table.filter fun entry => isTransactional (.keyword entry.2) :=
    List.mem_filter.mpr ⟨he, ht⟩
  rw [table_transactional] at hmem
  simp only [List.mem_cons, List.not_mem_nil, or_false] at hmem
  rcases hmem with rfl | rfl | rfl | rfl
  · exact ⟨'B', by decide, rfl⟩
  · exact ⟨'C', by decide, rfl⟩
  · exact ⟨'E', by decide, rfl⟩
  · exact ⟨'R', by decide, rfl⟩

theorem Spelled.entry {l : Lexeme} (hl : l.Spelled) {k : Keyword} (hk : l.token = .keyword k) :
    (String.ofList (l.text.map Char.toUpper), k) ∈ Keyword.table := by
  obtain ⟨before, after, htable, -⟩ := List.lookup_eq_some_iff.mp (hl.keyword k hk)
  rw [String.toList_ofList] at htable
  rw [htable]
  simp

theorem Spelled.initial {l : Lexeme} (hl : l.Spelled)
    (ht : l.token = .symbol .semicolon ∨ isTransactional l.token) :
    ∃ c, l.text.head? = some c ∧ c.toUpper ∈ [';', 'B', 'C', 'E', 'R'] := by
  rcases ht with ht | ht
  · exact ⟨';', hl.semicolon ht, by decide⟩
  · cases hk : l.token with
    | keyword k =>
      obtain ⟨c, hc, hfirst⟩ := initial_of_transactional (hl.entry hk) (hk ▸ ht)
      rw [String.toList_ofList, List.head?_map] at hfirst
      obtain ⟨d, hd, rfl⟩ := Option.map_eq_some_iff.mp hfirst
      exact ⟨d, hd, List.mem_cons_of_mem _ hc⟩
    | _ => simp [hk, isTransactional] at ht

end Lexeme
end Sql

namespace Command
open Sql

theorem start_of_front? {n : Nat} {c : Char} {cs start : List Char}
    (h : Text.Utf8.front? (n + 1) (c :: cs) = some start) : start.head? = some c := by
  unfold Text.Utf8.front? at h
  split at h
  · cases hrest : Text.Utf8.front? (n + 1 - c.utf8Size) cs with
    | none => simp [hrest] at h
    | some tail =>
      rw [hrest] at h
      cases h
      rfl
  · cases h

theorem toUpper_of_blank {c : Char} (h : Text.isBlank c) : c.toUpper = c := by
  unfold Char.toUpper
  split
  · rename_i hletter
    have hlow : 97 ≤ c.toNat := UInt32.le_iff_toNat_le.mp hletter.1
    have hhigh : c.toNat ≤ 122 := UInt32.le_iff_toNat_le.mp hletter.2
    rw [Text.not_blank_of_visible (by omega) (by omega)] at h
    cases h
  · rfl

theorem not_blank_of_trimStart {c : Command} {first : Char} {rest : List Char}
    (h : Text.trimStart c.text.toList = first :: rest) : c.isBlank = false := by
  cases hblank : c.isBlank with
  | false => rfl
  | true =>
    rw [isBlank, List.all_eq_true] at hblank
    rw [Text.trimStart, List.dropWhile_eq_nil_iff.mpr hblank] at h
    cases h

/-- A command that begins with a word for transactions, or with the end of a statement, is no
read. -/
theorem write_of_first {c : Command} {l : Lexeme} {ls : List Lexeme}
    (h : Lexeme.scan c.text.toList = l :: ls)
    (ht : l.token = .symbol .semicolon ∨ Lexeme.isTransactional l.token) :
    c.isBlank = false ∧ c.kind = .write := by
  obtain ⟨hspelled, hleads⟩ := Lexeme.first_of_scan h
  obtain ⟨initial, hinitial, hletter⟩ := hspelled.initial ht
  have hb : Text.isBlank initial = false := by
    cases hb : Text.isBlank initial with
    | false => rfl
    | true =>
      rw [toUpper_of_blank hb] at hletter
      simp only [List.mem_cons, List.not_mem_nil, or_false] at hletter
      rcases hletter with rfl | rfl | rfl | rfl | rfl <;> cases hb
  obtain ⟨first, rest, htext, hfirst⟩ := hleads initial hinitial hb
  have hfirst' : first.toUpper ≠ 'S' := by
    rcases hfirst with hstarts | rfl | rfl | rfl
    · obtain ⟨tail, htail⟩ := List.head?_eq_some_iff.mp hinitial
      rw [htail, List.cons_prefix_cons] at hstarts
      intro hs
      simp [hstarts.1, hs] at hletter
    · decide
    · decide
    · decide
  refine ⟨not_blank_of_trimStart htext, ?_⟩
  unfold kind
  rw [htext]
  cases hstart : Text.Utf8.front? 6 (first :: rest) with
  | none => rfl
  | some start =>
    have hhead := start_of_front? hstart
    dsimp only
    rw [if_neg]
    intro hselect
    have hs := congrArg List.head? hselect
    rw [List.head?_map, hhead] at hs
    exact hfirst' (Option.some.inj hs)

end Command
end QueryServer
