import Mathlib.Data.List.Forall2
import QueryServer.Proofs.Executor.Session
import QueryServer.Proofs.Text.Trim
import QueryServer.Proofs.Text.Utf8
/-!
The kind of a command. It is read off the characters that follow the blanks, although it is found
by cutting the text at a byte; blanks before the text do not count, and nothing after the word
makes a difference.
-/

namespace QueryServer
namespace Command

/-- The letters of the word with which a read begins, in both cases. -/
def selectLetters : List (Char × Char) :=
  [('S', 's'), ('E', 'e'), ('L', 'l'), ('E', 'e'), ('C', 'c'), ('T', 't')]

/-- Each character is a letter of a word in one of its cases. -/
def Spells (word : List (Char × Char)) (letters : List Char) : Prop :=
  List.Forall₂ (fun letter c => c = letter.1 ∨ c = letter.2) word letters

instance (word : List (Char × Char)) (letters : List Char) : Decidable (Spells word letters) :=
  inferInstanceAs (Decidable (List.Forall₂ _ word letters))

/-- A text that begins, after blanks, with the word of a read. -/
def Selects (cs : List Char) : Prop :=
  ∃ before letters rest, cs = before ++ letters ++ rest ∧ Text.Blanks before ∧
    Spells selectLetters letters

theorem toNat_toUpper (c : Char) :
    c.toUpper.toNat = if 97 ≤ c.toNat ∧ c.toNat ≤ 122 then c.toNat - 32 else c.toNat := by
  have hlow : 'a'.val ≤ c.val ↔ 97 ≤ c.toNat := UInt32.le_iff_toNat_le
  have hhigh : c.val ≤ 'z'.val ↔ c.toNat ≤ 122 := UInt32.le_iff_toNat_le
  have hsize : c.toNat < 4294967296 := c.val.toNat_lt
  unfold Char.toUpper
  by_cases h : 'a'.val ≤ c.val ∧ c.val ≤ 'z'.val
  · rw [dif_pos h, if_pos (by rwa [← hlow, ← hhigh])]
    rw [hlow, hhigh] at h
    show (c.val + 4294967264).toNat = c.toNat - 32
    rw [UInt32.toNat_add]
    show (c.toNat + 4294967264) % 4294967296 = c.toNat - 32
    omega
  · rw [dif_neg h, if_neg (by rwa [← hlow, ← hhigh])]

/-- Two letters that differ in their case only. -/
def IsLetter (letter : Char × Char) : Prop :=
  65 ≤ letter.1.toNat ∧ letter.1.toNat ≤ 90 ∧ letter.2.toNat = letter.1.toNat + 32

theorem isLetter_of_select : ∀ letter ∈ selectLetters, IsLetter letter := by
  unfold IsLetter
  decide

variable {letter : Char × Char} {word : List (Char × Char)} {letters cs : List Char} {c : Char}

/-- Only the two cases of a letter have the same upper case; no other character is changed. -/
theorem toUpper_eq_iff (h : IsLetter letter) :
    c.toUpper = letter.1 ↔ c = letter.1 ∨ c = letter.2 := by
  obtain ⟨hlow, hhigh, hlower⟩ := h
  rw [← Char.toNat_inj, ← Char.toNat_inj, ← Char.toNat_inj, toNat_toUpper, hlower]
  split <;> omega

theorem map_toUpper_eq_iff (h : ∀ letter ∈ word, IsLetter letter) :
    letters.map Char.toUpper = word.map Prod.fst ↔ Spells word letters := by
  induction word generalizing letters with
  | nil => simp [Spells]
  | cons letter word ih =>
    obtain ⟨hletter, hword⟩ := List.forall_mem_cons.mp h
    cases letters with
    | nil => simp [Spells]
    | cons c letters =>
      rw [List.map_cons, List.map_cons, List.cons.injEq, toUpper_eq_iff hletter, ih hword, Spells,
        Spells, List.forall₂_cons]

theorem Spells.ascii (h : ∀ letter ∈ word, IsLetter letter) (hs : Spells word letters) :
    ∀ c ∈ letters, 65 ≤ c.toNat ∧ c.toNat < 128 := by
  induction hs with
  | nil => exact nofun
  | cons hc hrest ih =>
    obtain ⟨⟨hlow, hhigh, hlower⟩, hword⟩ := List.forall_mem_cons.mp h
    intro d hd
    rcases List.mem_cons.mp hd with rfl | hd
    · rcases hc with rfl | rfl <;> omega
    · exact ih hword d hd

theorem Spells.front (h : Spells selectLetters letters) (rest : List Char) :
    Text.Utf8.front? 6 (letters ++ rest) = some letters := by
  have hascii := h.ascii isLetter_of_select
  have hlength : (Text.Utf8.encode letters).length = letters.length :=
    Text.Utf8.length_encode_of_ascii fun c hc => (hascii c hc).2
  rw [Text.Utf8.front?_eq_some_iff, hlength, ← List.Forall₂.length_eq h]
  exact ⟨List.prefix_append letters rest, rfl⟩

theorem Spells.trimStart (h : Spells selectLetters letters) (rest : List Char) :
    Text.trimStart (letters ++ rest) = letters ++ rest := by
  have hascii := h.ascii isLetter_of_select
  apply Text.trimStart_of_head
  intro c hc
  obtain ⟨first, others, rfl⟩ : ∃ first others, letters = first :: others := by
    cases h with
    | cons hc hrest => exact ⟨_, _, rfl⟩
  obtain rfl := Option.some.inj hc
  obtain ⟨hlow, hhigh⟩ := hascii first List.mem_cons_self
  exact Text.not_blank_of_visible (by omega) hhigh

theorem kind_eq_read_iff {c : Command} : c.kind = .read ↔ Selects c.text.toList := by
  constructor
  · intro h
    unfold kind at h
    split at h
    · rename_i letters hfront
      split at h
      · rename_i hletters
        obtain ⟨before, hbefore, htext⟩ := Text.exists_trimStart c.text.toList
        obtain ⟨⟨rest, hrest⟩, -⟩ := Text.Utf8.front?_eq_some_iff.mp hfront
        refine ⟨before, letters, rest, ?_, hbefore, ?_⟩
        · rw [List.append_assoc, hrest, ← htext]
        · exact (map_toUpper_eq_iff isLetter_of_select).mp hletters
      · cases h
    · cases h
  · rintro ⟨before, letters, rest, htext, hbefore, hletters⟩
    have hupper : letters.map Char.toUpper = "SELECT".toList :=
      (map_toUpper_eq_iff isLetter_of_select).mpr hletters
    unfold kind
    rw [htext, List.append_assoc, Text.trimStart_append hbefore, hletters.trimStart,
      hletters.front]
    exact if_pos hupper

/-- Cutting inside a character gives no word, so the command is a write. -/
theorem kind_of_inside {c : Command} {before rest : List Char} {ch : Char}
    (htext : Text.trimStart c.text.toList = before ++ ch :: rest)
    (hbefore : (Text.Utf8.encode before).length < 6)
    (hinside : 6 < (Text.Utf8.encode (before ++ [ch])).length) : c.kind = .write := by
  unfold kind
  rw [htext, Text.Utf8.front?_of_inside hbefore hinside]

theorem isBlank_iff {c : Command} : c.isBlank ↔ Text.Blanks c.text.toList :=
  List.all_eq_true

theorem kind_of_blank {c : Command} (h : c.isBlank) : c.kind = .write := by
  unfold kind
  rw [Text.trimStart_eq_nil_iff.mpr (isBlank_iff.mp h)]
  rfl

theorem kind_append_blanks {blanks : String} (h : Text.Blanks blanks.toList) (text : String) :
    (Command.mk (blanks ++ text)).kind = (Command.mk text).kind := by
  unfold kind
  rw [String.toList_append, Text.trimStart_append h]

theorem isBlank_append_blanks {blanks : String} (h : Text.Blanks blanks.toList) (text : String) :
    (Command.mk (blanks ++ text)).isBlank = (Command.mk text).isBlank := by
  rw [Bool.eq_iff_iff, isBlank_iff, isBlank_iff, String.toList_append]
  constructor
  · intro hall c hc
    exact hall c (List.mem_append_right _ hc)
  · intro htext
    exact h.append htext

theorem kind_append {c : Command} (h : c.kind = .read) (more : String) :
    (Command.mk (c.text ++ more)).kind = .read := by
  obtain ⟨before, letters, rest, htext, hbefore, hletters⟩ := kind_eq_read_iff.mp h
  refine kind_eq_read_iff.mpr ⟨before, letters, rest ++ more.toList, ?_, hbefore, hletters⟩
  rw [String.toList_append, htext, List.append_assoc]

/-- A command is a read exactly if the letters of SELECT follow its blanks, whatever the bytes of
its other characters; one of blanks only is a write and does nothing at all. Blanks before a text
do not count, and no text after it turns a read into a write. -/
theorem kind_of_characters (c : Command) :
    (c.kind = .read ↔ Selects c.text.toList) ∧
    (∀ front, Text.Utf8.front? 6 (Text.trimStart c.text.toList) = some front ↔
      front <+: Text.trimStart c.text.toList ∧ (Text.Utf8.encode front).length = 6) ∧
    (∀ before ch rest, Text.trimStart c.text.toList = before ++ ch :: rest →
      (Text.Utf8.encode before).length < 6 → 6 < (Text.Utf8.encode (before ++ [ch])).length →
      c.kind = .write) ∧
    (c.isBlank ↔ Text.Blanks c.text.toList) ∧ (Text.trim c.text.toList = [] ↔ c.isBlank) ∧
    (c.isBlank → c.kind = .write ∧ ∀ s d, Executor.execute s d c = (d, .ok .success) ∧
      ∀ t, Executor.executeUnder t s d c = (d, .ok .success)) ∧
    (∀ blanks : String, Text.Blanks blanks.toList →
      (Command.mk (blanks ++ c.text)).kind = c.kind ∧
        (Command.mk (blanks ++ c.text)).isBlank = c.isBlank) ∧
    ∀ more, c.kind = .read → (Command.mk (c.text ++ more)).kind = .read := by
  refine ⟨kind_eq_read_iff, fun front => Text.Utf8.front?_eq_some_iff, ?_, isBlank_iff, ?_, ?_,
    ?_, ?_⟩
  · intro before ch rest htext hbefore hinside
    exact kind_of_inside htext hbefore hinside
  · rw [Text.trim_eq_nil_iff, isBlank_iff]
  · intro hblank
    refine ⟨kind_of_blank hblank, fun s d => ⟨Executor.execute_of_blank hblank s d, ?_⟩⟩
    intro t
    rw [Executor.executeUnder, if_pos hblank]
  · intro blanks hblanks
    exact ⟨kind_append_blanks hblanks c.text, isBlank_append_blanks hblanks c.text⟩
  · intro more hread
    exact kind_append hread more

/-- A line separator before the word, a long s in it, a character across the sixth byte, and
blanks alone. -/
theorem kind_of_characters_lookalikes :
    (Command.mk "\u2028sElEcTor").kind = .read ∧ (Command.mk "\u017FELECT 1").kind = .write ∧
      (Command.mk "SELEC\u00E9").kind = .write ∧
      (Command.mk "\u3000\t").kind = .write ∧
      Executor.execute ⟨"missing.db", 0⟩ {} ⟨"\u3000\t"⟩ = ({}, .ok .success) ∧
      (Command.mk "\u2028sElEcTor 1").kind = .read := by
  obtain ⟨hselects, -, -, -, -, -, -, happend⟩ := kind_of_characters ⟨"\u2028sElEcTor"⟩
  obtain ⟨-, -, hinside, -⟩ := kind_of_characters ⟨"SELEC\u00E9"⟩
  obtain ⟨-, -, -, -, -, hblank, -⟩ := kind_of_characters ⟨"\u3000\t"⟩
  have hread : (Command.mk "\u2028sElEcTor").kind = .read := by
    exact hselects.mpr ⟨['\u2028'], "sElEcT".toList, "or".toList, rfl, by decide, by decide⟩
  refine ⟨hread, ?_, hinside "SELEC".toList '\u00E9' [] rfl (by decide) (by decide), ?_, ?_, ?_⟩
  · decide
  · exact (hblank (by decide)).1
  · exact ((hblank (by decide)).2 _ _).1
  · exact happend " 1" hread

end Command
end QueryServer
