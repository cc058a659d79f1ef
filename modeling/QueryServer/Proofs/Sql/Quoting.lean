import Mathlib.Data.List.TakeWhile
import QueryServer.Sql.Lexer
/-!
Texts in commands. A text between quotes, with every quote in it doubled, is read as one token that
has the text as it was, whatever its characters.
-/

namespace QueryServer.Sql

/-- A text with every quote doubled. -/
def doubled (cs : List Char) : List Char :=
  cs.flatMap fun c => if c = '\'' then ['\'', '\''] else [c]

/-- A text as it is written in a command. -/
@[irreducible] def literal (text : String) : String :=
  String.ofList ('\'' :: doubled text.toList ++ ['\''])

namespace Lexeme

theorem mem_doubled {c : Char} {cs : List Char} : c ∈ doubled cs ↔ c ∈ cs := by
  rw [doubled, List.mem_flatMap]
  constructor
  · rintro ⟨d, hd, hc⟩
    split at hc
    · simp_all
    · simp_all
  · intro hc
    refine ⟨c, hc, ?_⟩
    split <;> simp_all

theorem free_literal {text : String} (h : '\x00' ∉ text.toList) :
    '\x00' ∉ (literal text).toList := by
  unfold literal
  simp [mem_doubled, h]

theorem free_append {a b : String} :
    '\x00' ∉ (a ++ b).toList ↔ '\x00' ∉ a.toList ∧ '\x00' ∉ b.toList := by
  rw [String.toList_append, List.mem_append, not_or]

theorem quoted_cons {c : Char} (hc : c ≠ '\'') (cs : List Char) :
    quoted '\'' (c :: cs) = (quoted '\'' cs).map fun (s, n) => (c :: s, n + 1) := by
  cases cs with
  | nil => simp [quoted, hc]
  | cons d cs => rw [quoted, if_neg hc]

/-- Up to the closing quote, a doubled quote is one that belongs to the text. -/
theorem quoted_doubled (cs : List Char) {rest : List Char} (hrest : rest.head? ≠ some '\'') :
    quoted '\'' (doubled cs ++ '\'' :: rest) = some (cs, (doubled cs).length + 1) := by
  induction cs with
  | nil =>
    cases rest with
    | nil => rfl
    | cons d rest =>
      have hd : d ≠ '\'' := by simpa using hrest
      simp [doubled, quoted, hd]
  | cons c cs ih =>
    rw [doubled, List.flatMap_cons, ← doubled]
    by_cases hc : c = '\''
    · subst hc
      simp [quoted, ih]
    · rw [if_neg hc, List.singleton_append, List.cons_append, quoted_cons hc, ih]
      simp

/-- The tokens of a source without U+0000. -/
def tokens (source : List Char) : List Token :=
  (scanAll source).map (·.token)

variable {c : Char} {cs rest : List Char} {t : Token}

theorem tokens_of_measure (hm : measure c (cs ++ rest) = (some t, cs.length)) (ht : t ≠ .illegal) :
    tokens (c :: (cs ++ rest)) = t :: tokens rest := by
  rw [tokens, scanAll, hm]
  cases t <;> first | contradiction | simp [tokens]

theorem tokens_nil : tokens [] = [] := by
  rw [tokens, scanAll, List.map_nil]

theorem tokens_space (hc : isSpace c) (rest : List Char) : tokens (c :: rest) = tokens rest := by
  rw [tokens, scanAll, measure, if_pos hc]
  rfl

/-- A letter, and characters that a name goes on with. -/
def isWord : List Char → Bool
  | c :: cs => c.isAlpha && cs.all isNameChar
  | [] => false

theorem measure_word {c : Char} {cs : List Char} (h : isWord (c :: cs)) (rest : List Char) :
    measure c (cs ++ ' ' :: rest) = (some (word (c :: cs)), cs.length) := by
  obtain ⟨hc, hcs⟩ := Bool.and_eq_true_iff.mp h
  have hother : ∀ d : Char, d.isAlpha = false → c ≠ d := by
    rintro d hd rfl
    rw [hd] at hc
    cases hc
  have hspace : isSpace c = false := by
    simp [isSpace, hother ' ' rfl, hother '\t' rfl, hother '\n' rfl, hother '\x0c' rfl,
      hother '\r' rfl, hother '\uFEFF' rfl]
  have htick : c.toNat ≠ 0x60 := by
    intro hn
    exact hother '\x60' rfl (Char.toNat_inj.mp hn)
  have hblob : cs.head?.getD ' ' ≠ '\'' := by
    cases cs with
    | nil => decide
    | cons d cs =>
      rintro rfl
      cases hcs
  have hname : startsName c := by simp [startsName, hc]
  have hlength : runLength isNameChar (cs ++ ' ' :: rest) = cs.length := by
    rw [runLength, List.takeWhile_append_of_pos (List.all_eq_true.mp hcs)]
    simp [isNameChar]
  simp [measure, hspace, htick, hblob, hname, hlength, hother '-' rfl, hother '/' rfl,
    hother '(' rfl, hother ')' rfl, hother ';' rfl, hother ',' rfl, hother '+' rfl,
    hother '*' rfl, hother '%' rfl, hother '&' rfl, hother '~' rfl, hother '=' rfl,
    hother '<' rfl, hother '>' rfl, hother '!' rfl, hother '|' rfl, hother '\'' rfl,
    hother '"' rfl, hother '[' rfl]

/-- A word ends where a blank follows it. -/
theorem tokens_word (text : String) (h : isWord text.toList) (ht : word text.toList = t)
    (hlegal : t ≠ .illegal) (rest : List Char) :
    tokens (text.toList ++ ' ' :: rest) = t :: tokens rest := by
  subst ht
  cases hcs : text.toList with
  | nil =>
    rw [hcs] at h
    cases h
  | cons c cs =>
    rw [hcs] at h hlegal
    exact (tokens_of_measure (measure_word h rest) hlegal).trans
      (congrArg _ (tokens_space rfl rest))

theorem tokens_literal (text : String) (hrest : rest.head? ≠ some '\'') :
    tokens ((literal text).toList ++ rest) = .string text :: tokens rest := by
  have hm : measure '\'' (doubled text.toList ++ ['\''] ++ rest) =
      (some (.string text), (doubled text.toList ++ ['\'']).length) := by
    have hquoted := quoted_doubled text.toList hrest
    simp [measure, isSpace, hquoted, quotedToken]
  rw [literal, String.toList_ofList, List.cons_append, List.cons_append]
  exact tokens_of_measure hm nofun

theorem scan_of_free {source : List Char} (h : '\x00' ∉ source) : scan source = scanAll source := by
  rw [scan, List.takeWhile_eq_self_iff.mpr]
  exact fun c hc => by simpa using ne_of_mem_of_not_mem hc h

end Lexeme
end QueryServer.Sql
