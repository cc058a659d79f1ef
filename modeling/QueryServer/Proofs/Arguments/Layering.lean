import Mathlib.Data.List.Basic
import Mathlib.Logic.Function.Basic
import QueryServer.Proofs.Arguments
/-!
Command lines that are made of options and positional arguments. Where the options stand among the
positional arguments, and whether their values are joined to them, makes no difference; a value on
the command line hides the one of the environment, and that one hides the default.
-/

namespace QueryServer

/-- The texts that are values of a setting. -/
def Setting.Accepts : Setting → String → Prop
  | host, _ => True
  | database, value => value ≠ ""
  | busyTimeout, value | frameLimit, value =>
    ∃ n < UInt64.size, Numeral.Denotes value.toList n

/-- A number is there where a text is, and it is what the text denotes. -/
def Numeral.Reads : Option String → Option Nat → Prop
  | none, n => n = none
  | some text, n => ∃ m, n = some m ∧ Numeral.Denotes text.toList m

namespace Given

/-- What is given for a setting, as a text. -/
def Has (g : Given) : Setting → Option String → Prop
  | .host, text => g.host = text
  | .database, text => g.database = text
  | .busyTimeout, text => Numeral.Reads text g.busyTimeout
  | .frameLimit, text => Numeral.Reads text g.frameLimit

/-- What is given for all settings, as texts. -/
def Holds (g : Given) (text : Setting → Option String) : Prop :=
  ∀ s, g.Has s (text s)

variable {g g' : Given} {text : Setting → Option String} {s : Setting} {value : String}

theorem isSome_of_reads {text : Option String} {n : Option Nat} (h : Numeral.Reads text n) :
    n.isSome = text.isSome := by
  cases text with
  | none => rw [show n = none from h]; rfl
  | some text =>
    obtain ⟨m, rfl, -⟩ := h
    rfl

theorem has_of_has {text : Option String} (h : g.Has s text) : g.has s = text.isSome := by
  cases s with
  | host => exact congrArg Option.isSome h
  | database => exact congrArg Option.isSome h
  | busyTimeout => exact isSome_of_reads h
  | frameLimit => exact isSome_of_reads h

theorem holds_empty : Holds {} fun _ => none := by
  intro s
  cases s <;> rfl

/-- An acceptable text is stored as the value of its setting, and the other settings are kept. -/
theorem put_of_accepts (g : Given) (ha : s.Accepts value) :
    ∃ g', g.put s value = .ok g' ∧ g'.Has s (some value) ∧
      ∀ other ≠ s, ∀ text, g.Has other text → g'.Has other text := by
  cases s with
  | host =>
    refine ⟨_, rfl, rfl, ?_⟩
    intro other hother text htext
    cases other <;> first | contradiction | exact htext
  | database =>
    have hne : value.isEmpty = false := by simpa [Setting.Accepts] using ha
    refine ⟨{ g with database := some value }, by simp [Given.put, hne], rfl, ?_⟩
    intro other hother text htext
    cases other <;> first | contradiction | exact htext
  | busyTimeout =>
    obtain ⟨n, hn, hdenotes⟩ := ha
    refine ⟨{ g with busyTimeout := some n }, ?_, ⟨n, rfl, hdenotes⟩, ?_⟩
    · rw [Given.put, number_of_denotes hn hdenotes]
      rfl
    · intro other hother text htext
      cases other <;> first | contradiction | exact htext
  | frameLimit =>
    obtain ⟨n, hn, hdenotes⟩ := ha
    refine ⟨{ g with frameLimit := some n }, ?_, ⟨n, rfl, hdenotes⟩, ?_⟩
    · rw [Given.put, number_of_denotes hn hdenotes]
      rfl
    · intro other hother text htext
      cases other <;> first | contradiction | exact htext

theorem Holds.put (h : g.Holds text) (ha : s.Accepts value) :
    ∃ g', g.put s value = .ok g' ∧ g'.Holds (Function.update text s (some value)) := by
  obtain ⟨g', hput, hvalue, hothers⟩ := put_of_accepts g ha
  refine ⟨g', hput, ?_⟩
  intro other
  by_cases hother : other = s
  · subst hother
    rw [Function.update_self]
    exact hvalue
  · rw [Function.update_of_ne hother]
    exact hothers other hother _ (h other)

theorem Holds.putOnce (h : g.Holds text) (hs : text s = none) (ha : s.Accepts value) :
    ∃ g', g.putOnce s value = .ok g' ∧ g'.Holds (Function.update text s (some value)) := by
  obtain ⟨g', hput, hholds⟩ := h.put ha
  have hnew : g.has s = false := by
    rw [has_of_has (h s), hs]
    rfl
  refine ⟨g', ?_, hholds⟩
  rw [Given.putOnce, hnew]
  exact hput

end Given

namespace Arguments

/-- What stands on a command line: an option with its value, either joined to it or in an argument
of its own, or a positional argument. -/
inductive Word where
  | joined (s : Setting) (value : String)
  | apart (s : Setting) (value : String)
  | positional (argument : String)

namespace Word

def arguments : Word → List String
  | joined s value => ["--" ++ s.name ++ "=" ++ value]
  | apart s value => ["--" ++ s.name, value]
  | positional argument => [argument]

def option? : Word → Option (Setting × String)
  | joined s value | apart s value => some (s, value)
  | positional _ => none

def positional? : Word → Option String
  | positional argument => some argument
  | _ => none

theorem positional_or_option (word : Word) :
    (∃ argument, word = .positional argument) ∨ ∃ s value, word.option? = some (s, value) := by
  cases word with
  | joined s value => exact .inr ⟨s, value, rfl⟩
  | apart s value => exact .inr ⟨s, value, rfl⟩
  | positional argument => exact .inl ⟨argument, rfl⟩

/-- A value in an argument of its own does not begin with a hyphen. -/
def IsClear : Word → Prop
  | apart _ value => value.toList.head? ≠ some '-'
  | _ => True

end Word

/-- The options that are known by a name. -/
def optionNames : List String :=
  "help" :: Setting.all.map Setting.name

/-- What the first positional argument may be. It may begin with a hyphen. -/
structure MayBePort (argument : String) : Prop where
  not_escape : argument ≠ "--"
  not_help : ¬ ['-', 'h'] <+: argument.toList
  not_option : ∀ name ∈ optionNames,
    argument ≠ "--" ++ name ∧ ¬ ("--" ++ name ++ "=").toList <+: argument.toList

/-- What a later positional argument may be. -/
def MayBeExtra (argument : String) : Prop :=
  argument = "-" ∨ argument.toList.head? ≠ some '-'

/-- Positional arguments that may stand among options. -/
structure MayBePositional (positionals : List String) : Prop where
  port : ∀ argument, positionals.head? = some argument → MayBePort argument
  extra : ∀ argument ∈ positionals.tail, MayBeExtra argument

section Shape

variable {argument : String} {cs name : List Char} {value : Option (List Char)}

theorem eq_of_splitValue (h : splitValue cs = (name, value)) :
    cs = name ++ (value.elim [] ('=' :: ·)) := by
  have hsplit := List.takeWhile_append_dropWhile (p := (· != '=')) (l := cs)
  unfold splitValue at h
  split at h
  · cases h
    simp
  · rename_i c rest hrest
    cases h
    have hc : c = '=' := by
      have hhead := List.head?_dropWhile_not (· != '=') cs
      simpa [hrest] using hhead
    rw [hrest, hc] at hsplit
    exact hsplit.symm

theorem splitValue_name (s : Setting) (value : List Char) :
    splitValue (s.name.toList ++ '=' :: value) = (s.name.toList, some value) := by
  have hname : ∀ c ∈ s.name.toList, (c != '=') = true := by
    cases s <;> exact List.all_eq_true.mp rfl
  rw [splitValue, List.dropWhile_append_of_pos hname, List.takeWhile_append_of_pos hname]
  simp

theorem shape_long (h : argument.toList = '-' :: '-' :: cs) (hcs : cs ≠ []) :
    shape argument = .long (splitValue cs).1 (splitValue cs).2 := by
  obtain ⟨c, rest, rfl⟩ := List.exists_cons_of_ne_nil hcs
  rw [shape, h]
  rfl

/-- What the shape of an argument says about its text. -/
theorem toList_of_shape (argument : String) :
    match shape argument with
    | .escape => argument = "--"
    | .long name value => argument.toList = '-' :: '-' :: (name ++ value.elim [] ('=' :: ·))
    | .cluster letters => argument.toList = '-' :: letters
    | .plain => True := by
  generalize hshape : shape argument = seen
  unfold shape at hshape
  split at hshape
  · rename_i htext
    subst hshape
    exact String.toList_inj.mp htext
  · rename_i cs _ htext
    subst hshape
    exact htext.trans (congrArg ('-' :: '-' :: ·) (eq_of_splitValue rfl))
  · rename_i htext
    subst hshape
    exact htext
  · subst hshape
    exact trivial

theorem name_ne_help (s : Setting) : s.name.toList ≠ "help".toList := by
  cases s <;> decide

theorem find?_name (s : Setting) :
    Setting.all.find? (·.name.toList = s.name.toList) = some s := by
  cases s <;> decide

theorem shape_plain (h : MayBeExtra argument) : shape argument = .plain := by
  rcases h with rfl | h
  · rfl
  · rw [shape]
    split <;> first | rfl | (rename_i he; rw [he] at h; exact absurd rfl h)

theorem shape_joined (s : Setting) (value : String) :
    shape ("--" ++ s.name ++ "=" ++ value) = .long s.name.toList (some value.toList) := by
  have htext : ("--" ++ s.name ++ "=" ++ value).toList =
      '-' :: '-' :: (s.name.toList ++ '=' :: value.toList) := by
    simp [String.toList_append]
  rw [shape_long htext (by simp), splitValue_name]

theorem shape_apart (s : Setting) : shape ("--" ++ s.name) = .long s.name.toList none := by
  cases s <;> decide

end Shape

namespace Progress

/-- What is known when these positional arguments and these values have been given. -/
def of (positionals : List String) (g : Given) : Progress where
  port := positionals.head?
  extra := positionals.tail
  given := g

/-- What is known when the last option is not stored yet. -/
def ofPending (positionals : List String) (g : Given) (s : Setting) (value : Option String) :
    Progress where
  port := positionals.head?
  extra := positionals.tail
  given := g
  pending := some (s, value)

/-- These positional arguments and values have been taken, the value of the last option too if it
is still to be stored. -/
structure Knows (p : Progress) (positionals : List String) (g : Given) : Prop where
  settled : p.settle = .ok (.of positionals g)
  not_trailing : p.trailing = false

variable {p : Progress} {positionals : List String} {g g' : Given} {s : Setting}
  {argument value : String}

theorem knows_of (positionals : List String) (g : Given) : (of positionals g).Knows positionals g :=
  ⟨rfl, rfl⟩

/-- Settling changes neither the port nor the place of what follows. -/
theorem Knows.port (h : p.Knows positionals g) : p.port = positionals.head? := by
  have hsettled := h.settled
  unfold settle at hsettled
  split at hsettled
  · cases hsettled
    rfl
  · cases hsettled
  · obtain ⟨g', -, hof⟩ := (except_map_eq_ok _ _ _).mp hsettled
    exact congrArg Progress.port hof

/-- No option lacks its value, so a word is positional. -/
theorem Knows.word (h : p.Knows positionals g) (argument : String) :
    p.word argument = .ok (.of (positionals ++ [argument]) g) := by
  have hword : p.word argument = p.positional argument := by
    unfold Progress.word
    split
    · rename_i s hpending
      have hsettled := h.settled
      rw [settle, hpending] at hsettled
      cases hsettled
    · rfl
  rw [hword, positional, h.settled]
  cases positionals <;> rfl

theorem find?_of_unknown {name : List Char} (h : ∀ s : Setting, s.name.toList ≠ name) :
    Setting.all.find? (·.name.toList = name) = none := by
  rw [List.find?_eq_none]
  intro s _ hs
  exact h s (of_decide_eq_true hs)

theorem unknown_of_mayBePort {name : List Char} {value : Option (List Char)}
    (hm : MayBePort argument) (hshape : shape argument = .long name value) :
    ∀ known ∈ optionNames, known.toList ≠ name := by
  have htext := toList_of_shape argument
  rw [hshape] at htext
  rintro known hknown rfl
  obtain ⟨hwhole, hstart⟩ := hm.not_option known hknown
  cases value with
  | none =>
    apply hwhole
    apply String.toList_inj.mp
    rw [htext, String.toList_append]
    simp
  | some value =>
    apply hstart
    rw [htext, String.toList_append, String.toList_append]
    exact ⟨value, by simp⟩

theorem step_of_plain (hp : p.trailing = false) (h : shape argument = .plain) :
    p.step argument = p.word argument := by
  rw [step, hp, if_neg Bool.false_ne_true, h]

theorem step_of_long {name : List Char} {value : Option (List Char)} (hp : p.trailing = false)
    (h : shape argument = .long name value) : p.step argument = p.long argument name value := by
  rw [step, hp, if_neg Bool.false_ne_true, h]

theorem step_of_cluster {letters : List Char} (hp : p.trailing = false)
    (h : shape argument = .cluster letters) : p.step argument = p.cluster argument letters := by
  rw [step, hp, if_neg Bool.false_ne_true, h]

theorem long_of_unknown {name : List Char} {value : Option (List Char)}
    (h : ∀ known ∈ optionNames, known.toList ≠ name) :
    p.long argument name value = p.hyphenated argument (String.ofList ('-' :: '-' :: name)) := by
  have hhelp : name ≠ "help".toList := fun he => h "help" List.mem_cons_self he.symm
  have hfind := find?_of_unknown fun s : Setting =>
    h s.name (List.mem_cons_of_mem _ (List.mem_map_of_mem (by cases s <;> decide)))
  unfold long
  rw [if_neg hhelp, hfind]

theorem Knows.long_of_name (h : p.Knows positionals g) (value : Option (List Char)) :
    p.long argument s.name.toList value =
      match value with
      | some v => (g.putOnce s (String.ofList v)).map (of positionals)
      | none => .ok (ofPending positionals g s none) := by
  unfold long
  rw [if_neg (name_ne_help s), find?_name, h.settled]
  cases value with
  | some v =>
    cases hput : g.putOnce s (String.ofList v) <;>
      simp only [of, hput, bind, Except.bind, Except.map, pure, Except.pure]
  | none => rfl

/-- While the port is missing, what is no option is the port. -/
theorem Knows.step_port (h : p.Knows [] g) (hm : MayBePort argument) :
    p.step argument = .ok (.of [argument] g) := by
  have hword := h.word argument
  have hhyphenated : ∀ shown, p.hyphenated argument shown = p.word argument := by
    intro shown
    rw [hyphenated, h.port]
    rfl
  have htext := toList_of_shape argument
  cases hshape : shape argument with
  | escape =>
    rw [hshape] at htext
    exact absurd htext hm.not_escape
  | long name value =>
    rw [step_of_long h.not_trailing hshape, long_of_unknown (unknown_of_mayBePort hm hshape),
      hhyphenated]
    exact hword
  | cluster letters =>
    rw [hshape] at htext
    have hletter : letters.head? ≠ some 'h' := by
      intro hhead
      obtain ⟨rest, rfl⟩ := List.head?_eq_some_iff.mp hhead
      exact hm.not_help ⟨rest, htext.symm⟩
    rw [step_of_cluster h.not_trailing hshape, cluster, if_neg (by simp [hletter]), hhyphenated]
    exact hword
  | plain =>
    rw [step_of_plain h.not_trailing hshape]
    exact hword

/-- Later positional arguments do not begin with a hyphen. -/
theorem Knows.step_extra (h : p.Knows positionals g) (hm : MayBeExtra argument) :
    p.step argument = .ok (.of (positionals ++ [argument]) g) := by
  rw [step_of_plain h.not_trailing (shape_plain hm)]
  exact h.word argument

theorem Knows.step_joined (h : p.Knows positionals g) (hput : g.putOnce s value = .ok g') :
    p.step ("--" ++ s.name ++ "=" ++ value) = .ok (.of positionals g') := by
  rw [step_of_long h.not_trailing (shape_joined s value), h.long_of_name]
  dsimp only
  rw [String.ofList_toList, hput]
  rfl

/-- The value that follows its option is stored with the next argument. -/
theorem Knows.step_apart (h : p.Knows positionals g) (hput : g.putOnce s value = .ok g')
    (hclear : value.toList.head? ≠ some '-') :
    ∃ p', ["--" ++ s.name, value].foldlM step p = .ok p' ∧ p'.Knows positionals g' := by
  have hname : p.step ("--" ++ s.name) = .ok (ofPending positionals g s none) := by
    rw [step_of_long h.not_trailing (shape_apart s), h.long_of_name]
  have hvalue : (ofPending positionals g s none).step value =
      .ok (ofPending positionals g s (some value)) := by
    rw [step_of_plain rfl (shape_plain (.inr hclear))]
    rfl
  refine ⟨ofPending positionals g s (some value), ?_, ?_, rfl⟩
  · simp only [List.foldlM_cons, List.foldlM_nil, hname, hvalue, bind, Except.bind, pure,
      Except.pure]
  · have hmap : (g.putOnce s value).map (of positionals) = .ok (of positionals g') := by
      rw [hput]
      rfl
    exact hmap

end Progress

/-- The options of a command line with their values. -/
def options (words : List Word) : List (Setting × String) :=
  words.filterMap Word.option?

/-- The positional arguments of a command line. -/
def positionals (words : List Word) : List String :=
  words.filterMap Word.positional?

/-- The words give every setting the value that it is given, in one place, and these positional
arguments in their order. -/
structure Arranges (words : List Word) (given : Setting → Option String)
    (ordered : List String) : Prop where
  distinct : ((options words).map Prod.fst).Nodup
  values : ∀ s value, (s, value) ∈ options words ↔ given s = some value
  order : positionals words = ordered
  clear : ∀ word ∈ words, word.IsClear

/-- Arguments that say what is given for each setting, and the default where nothing is. -/
structure Layered (ordered : List String) (text : Setting → Option String) (a : Arguments) :
    Prop where
  port : a.port = ordered.head?
  extra : a.extra = ordered.tail
  host : a.host = (text .host).getD "127.0.0.1"
  database : a.database = (text .database).getD "stomp_server.db"
  busyTimeout : (text .busyTimeout).elim (a.busyTimeout = 5000)
    (Numeral.Denotes ·.toList a.busyTimeout)
  frameLimit : (text .frameLimit).elim (a.frameLimit = Frame.defaultLimit)
    (Numeral.Denotes ·.toList a.frameLimit)

section Run

variable {p : Progress} {ordered rest : List String} {g : Given}
  {given text : Setting → Option String} {argument value : String} {s : Setting}

theorem Progress.Knows.step_positional (h : p.Knows ordered g)
    (hm : MayBePositional (ordered ++ argument :: rest)) :
    p.step argument = .ok (.of (ordered ++ [argument]) g) := by
  cases ordered with
  | nil => exact h.step_port (hm.port argument rfl)
  | cons port extra => exact h.step_extra (hm.extra argument (by simp))

theorem Progress.Knows.step_option {word : Word} (h : p.Knows ordered g)
    (hword : word.option? = some (s, value)) (hclear : word.IsClear) {g' : Given}
    (hput : g.putOnce s value = .ok g') :
    ∃ p', word.arguments.foldlM Progress.step p = .ok p' ∧ p'.Knows ordered g' := by
  cases word with
  | joined =>
    cases hword
    refine ⟨.of ordered g', ?_, Progress.knows_of ordered g'⟩
    rw [Word.arguments, List.foldlM_cons, h.step_joined hput]
    rfl
  | apart =>
    cases hword
    exact h.step_apart hput hclear
  | positional => cases hword

/-- By induction on the words: what is known always agrees with the words that were taken. An
option that comes later has no value yet, since no option comes twice. -/
theorem Progress.Knows.run {words : List Word} (h : p.Knows ordered g) (hg : g.Holds text)
    (hm : MayBePositional (ordered ++ positionals words))
    (hvalues : ∀ s value, (s, value) ∈ options words →
      given s = some value ∧ s.Accepts value ∧ text s = none)
    (hdistinct : ((options words).map Prod.fst).Nodup) (hclear : ∀ word ∈ words, word.IsClear) :
    ∃ p' g', (words.flatMap Word.arguments).foldlM Progress.step p = .ok p' ∧
      p'.Knows (ordered ++ positionals words) g' ∧
      g'.Holds fun s => if s ∈ (options words).map Prod.fst then given s else text s := by
  induction words generalizing p ordered g text with
  | nil => exact ⟨p, g, rfl, by simpa [positionals] using h, by simpa [options] using hg⟩
  | cons word words ih =>
    have hrest : ∀ word ∈ words, word.IsClear := fun w hw => hclear w (List.mem_cons_of_mem _ hw)
    rcases word.positional_or_option with ⟨argument, rfl⟩ | ⟨s, value, hword⟩
    · have hstep := h.step_positional hm
      have hm' : MayBePositional ((ordered ++ [argument]) ++ positionals words) := by
        rw [List.append_assoc]
        exact hm
      obtain ⟨p', g', hrun, hknows, hholds⟩ :=
        ih (Progress.knows_of _ g) hg hm' hvalues hdistinct hrest
      refine ⟨p', g', ?_, ?_, hholds⟩
      · rw [List.flatMap_cons, Word.arguments, List.singleton_append, List.foldlM_cons, hstep]
        exact hrun
      · rw [List.append_assoc] at hknows
        exact hknows
    · have hoptions : options (word :: words) = (s, value) :: options words :=
        List.filterMap_cons_some hword
      have hpositionals : positionals (word :: words) = positionals words := by
        cases word <;> first | rfl | cases hword
      rw [hoptions] at hvalues hdistinct
      rw [hpositionals] at hm
      obtain ⟨hgiven, haccepts, hnone⟩ := hvalues s value List.mem_cons_self
      obtain ⟨hnotin, hnodup⟩ := List.nodup_cons.mp hdistinct
      obtain ⟨g₁, hput, hg₁⟩ := hg.putOnce hnone haccepts
      obtain ⟨p₁, hp₁, hknows₁⟩ := h.step_option hword (hclear word List.mem_cons_self) hput
      have hvalues' : ∀ t v, (t, v) ∈ options words →
          given t = some v ∧ t.Accepts v ∧ Function.update text s (some value) t = none := by
        intro t v ht
        obtain ⟨hgiven, haccepts, hnone⟩ := hvalues t v (List.mem_cons_of_mem _ ht)
        have hne : t ≠ s := by
          rintro rfl
          exact hnotin (List.mem_map.mpr ⟨_, ht, rfl⟩)
        exact ⟨hgiven, haccepts, by rw [Function.update_of_ne hne, hnone]⟩
      obtain ⟨p', g', hrun, hknows, hholds⟩ := ih hknows₁ hg₁ hm hvalues' hnodup hrest
      refine ⟨p', g', ?_, hpositionals ▸ hknows, ?_⟩
      · rw [List.flatMap_cons, List.foldlM_append, hp₁]
        exact hrun
      · rw [hoptions, List.map_cons]
        intro t
        have ht := hholds t
        dsimp only at ht ⊢
        by_cases hts : t = s
        · subst hts
          simpa [hgiven] using ht
        · rw [Function.update_of_ne hts] at ht
          rw [if_congr (List.mem_cons.trans (or_iff_right hts)) rfl rfl]
          exact ht

theorem Progress.Knows.run_arranges {words : List Word} (h : Arranges words given ordered)
    (hm : MayBePositional ordered) (hvalues : ∀ s value, given s = some value → s.Accepts value) :
    ∃ p g, (words.flatMap Word.arguments).foldlM Progress.step {} = .ok p ∧ p.Knows ordered g ∧
      g.Holds given := by
  have hoptions : ∀ s value, (s, value) ∈ options words →
      given s = some value ∧ s.Accepts value ∧ (none : Option String) = none := by
    intro s value hoption
    have hgiven := (h.values s value).mp hoption
    exact ⟨hgiven, hvalues s value hgiven, rfl⟩
  have hordered : MayBePositional ([] ++ positionals words) := by
    rw [List.nil_append, h.order]
    exact hm
  obtain ⟨p, g, hrun, hknows, hholds⟩ :=
    (Progress.knows_of [] {}).run Given.holds_empty hordered hoptions h.distinct h.clear
  refine ⟨p, g, hrun, h.order ▸ hknows, ?_⟩
  intro s
  have hs := hholds s
  dsimp only at hs
  by_cases hmem : s ∈ (options words).map Prod.fst
  · rwa [if_pos hmem] at hs
  · rw [if_neg hmem] at hs
    have hnone : given s = none := by
      rw [Option.eq_none_iff_forall_ne_some]
      intro value hvalue
      exact hmem (List.mem_map.mpr ⟨_, (h.values s value).mpr hvalue, rfl⟩)
    rw [hnone]
    exact hs

end Run

section Layers

variable {env : Environment} {g : Given} {text : Setting → Option String} {a b : Arguments}
  {ordered : List String}

/-- A setting that is not given takes the value of the environment. -/
theorem fromEnvironment_holds (h : g.Holds text) (s : Setting)
    (ha : ∀ value, text s = none → env.lookup s.environmentName = some value → s.Accepts value) :
    ∃ g', fromEnvironment env g s = .ok g' ∧
      g'.Holds (Function.update text s ((text s).or (env.lookup s.environmentName))) := by
  have hsame : g.Holds (Function.update text s (text s)) := by
    rwa [Function.update_eq_self]
  have hhas := Given.has_of_has (h s)
  unfold fromEnvironment
  cases hs : text s with
  | some value =>
    rw [hs] at hhas hsame
    exact ⟨g, by rw [hhas]; rfl, hsame⟩
  | none =>
    rw [hs] at hhas hsame
    cases hvalue : env.lookup s.environmentName with
    | none => exact ⟨g, by rw [hhas]; rfl, hsame⟩
    | some value =>
      obtain ⟨g', hput, hholds⟩ := h.put (ha value hs hvalue)
      exact ⟨g', by rw [hhas]; exact hput, hholds⟩

theorem foldlM_fromEnvironment (settings : List Setting) (h : g.Holds text)
    (ha : ∀ s value, text s = none → env.lookup s.environmentName = some value →
      s.Accepts value) :
    ∃ g', settings.foldlM (fromEnvironment env) g = .ok g' ∧
      g'.Holds fun s =>
        if s ∈ settings then (text s).or (env.lookup s.environmentName) else text s := by
  induction settings generalizing g text with
  | nil => exact ⟨g, rfl, by simpa using h⟩
  | cons s settings ih =>
    obtain ⟨g₁, hfilled, hg₁⟩ := fromEnvironment_holds h s (ha s)
    have ha' : ∀ t value,
        Function.update text s ((text s).or (env.lookup s.environmentName)) t = none →
          env.lookup t.environmentName = some value → t.Accepts value := by
      intro t value ht
      by_cases hts : t = s
      · subst hts
        rw [Function.update_self, Option.or_eq_none_iff] at ht
        exact ha t value ht.1
      · rw [Function.update_of_ne hts] at ht
        exact ha t value ht
    obtain ⟨g', hrun, hholds⟩ := ih hg₁ ha'
    refine ⟨g', ?_, ?_⟩
    · rw [List.foldlM_cons, hfilled]
      exact hrun
    · intro t
      have ht := hholds t
      by_cases hts : t = s
      · subst hts
        simpa [Option.or_assoc] using ht
      · simpa [hts] using ht

theorem exists_number (text : Option String) (default : Nat)
    (h : ∀ value, text = some value → ∃ n < UInt64.size, Numeral.Denotes value.toList n) :
    ∃ n, text.elim (n = default) (Numeral.Denotes ·.toList n) := by
  cases text with
  | none => exact ⟨default, rfl⟩
  | some value =>
    obtain ⟨n, -, hn⟩ := h value rfl
    exact ⟨n, hn⟩

theorem exists_layered (ordered : List String)
    (h : ∀ s value, text s = some value → s.Accepts value) : ∃ a, Layered ordered text a := by
  obtain ⟨timeout, htimeout⟩ := exists_number (text .busyTimeout) 5000 (h .busyTimeout)
  obtain ⟨limit, hlimit⟩ := exists_number (text .frameLimit) Frame.defaultLimit (h .frameLimit)
  exact ⟨⟨_, _, _, _, timeout, limit⟩, rfl, rfl, rfl, rfl, htimeout, hlimit⟩

theorem number_unique {text : Option String} {default m n : Nat}
    (hm : text.elim (m = default) (Numeral.Denotes ·.toList m))
    (hn : text.elim (n = default) (Numeral.Denotes ·.toList n)) : m = n := by
  cases text with
  | none => exact hm.trans hn.symm
  | some value => exact Numeral.Denotes.unique hm hn

theorem Layered.unique (ha : Layered ordered text a) (hb : Layered ordered text b) : a = b := by
  have htimeout := number_unique ha.busyTimeout hb.busyTimeout
  have hlimit := number_unique ha.frameLimit hb.frameLimit
  cases a
  cases b
  rw [mk.injEq]
  exact ⟨ha.port.trans hb.port.symm, ha.extra.trans hb.extra.symm, ha.host.trans hb.host.symm,
    ha.database.trans hb.database.symm, htimeout, hlimit⟩

/-- A number that was read is what its text denotes, and without a text it is the default. -/
theorem elim_getD {text : Option String} {n : Option Nat} (default : Nat)
    (h : Numeral.Reads text n) :
    text.elim (n.getD default = default) (Numeral.Denotes ·.toList (n.getD default)) := by
  cases text with
  | none =>
    cases h
    rfl
  | some text =>
    obtain ⟨m, rfl, hm⟩ := h
    exact hm

/-- What is given, with the defaults for the rest. -/
def ofGiven (ordered : List String) (g : Given) : Arguments where
  port := ordered.head?
  extra := ordered.tail
  host := g.host.getD "127.0.0.1"
  database := g.database.getD "stomp_server.db"
  busyTimeout := g.busyTimeout.getD 5000
  frameLimit := g.frameLimit.getD Frame.defaultLimit

theorem layered_of_holds (ordered : List String) (h : g.Holds text) :
    Layered ordered text (ofGiven ordered g) where
  port := rfl
  extra := rfl
  host := congrArg (Option.getD · "127.0.0.1") (h .host)
  database := congrArg (Option.getD · "stomp_server.db") (h .database)
  busyTimeout := elim_getD 5000 (h .busyTimeout)
  frameLimit := elim_getD Frame.defaultLimit (h .frameLimit)

/-- Every command line that gives these values and these positional arguments is understood, and
all of them alike. -/
theorem parse_of_every_arrangement (given : Setting → Option String) (env : Environment)
    (ordered : List String) (hm : MayBePositional ordered)
    (hgiven : ∀ s value, given s = some value → s.Accepts value)
    (henv : ∀ s value, given s = none → env.lookup s.environmentName = some value →
      s.Accepts value) :
    ∃ a, Layered ordered (fun s => (given s).or (env.lookup s.environmentName)) a ∧
      ∀ words, Arranges words given ordered → parse (words.flatMap Word.arguments) env = .ok a := by
  have haccepts : ∀ s value, (given s).or (env.lookup s.environmentName) = some value →
      s.Accepts value := by
    intro s value hvalue
    rcases Option.or_eq_some_iff.mp hvalue with hcommand | ⟨hnone, henvironment⟩
    · exact hgiven s value hcommand
    · exact henv s value hnone henvironment
  obtain ⟨a, ha⟩ := exists_layered ordered haccepts
  refine ⟨a, ha, ?_⟩
  intro words hwords
  obtain ⟨p, g, hrun, hknows, hholds⟩ := Progress.Knows.run_arranges hwords hm hgiven
  obtain ⟨g', hfilled, hholds'⟩ := foldlM_fromEnvironment Setting.all hholds henv
  have hall : g'.Holds fun s => (given s).or (env.lookup s.environmentName) := by
    intro s
    have hs := hholds' s
    dsimp only at hs
    rwa [if_pos (by cases s <;> decide)] at hs
  have hparse : parse (words.flatMap Word.arguments) env = .ok (ofGiven ordered g') := by
    simp only [parse, hrun, hknows.settled, bind, Except.bind]
    rw [show (Progress.of ordered g).given = g from rfl, hfilled]
    rfl
  rw [hparse, (layered_of_holds ordered hall).unique ha]

/-- A port and a host that look like options, a value in an argument of its own, and an environment
whose values for what is given are no values at all. -/
theorem parse_of_every_arrangement_hyphens :
    let env := [("SQLPROXY_HOST", "ignored"), ("SQLPROXY_BUSY_TIMEOUT_MS", "soon"),
      ("SQLPROXY_DATABASE", "e.db")]
    let a : Arguments :=
      { port := some "-5", extra := ["-", "more"], host := "-h=1", database := "e.db",
        busyTimeout := 7 }
    MayBePositional ["-5", "-", "more"] ∧ Setting.busyTimeout.Accepts "+007" ∧
      parse ["--busy-timeout-ms", "+007", "-5", "--host=-h=1", "-", "more"] env = .ok a ∧
      parse ["-5", "-", "--host=-h=1", "more", "--busy-timeout-ms=+007"] env = .ok a := by
  intro env a
  have hm : MayBePositional ["-5", "-", "more"] := by
    constructor
    · intro argument hport
      cases hport
      exact ⟨by decide, by decide, by decide⟩
    · simp [MayBeExtra]
  have hseven : Numeral.Denotes "+007".toList 7 :=
    ⟨['+'], "007".toList, rfl, .inr rfl, by decide, List.all_eq_true.mp rfl, by decide⟩
  obtain ⟨b, hb, hparse⟩ := parse_of_every_arrangement
    (fun | .host => some "-h=1" | .busyTimeout => some "+007" | _ => none) env _ hm
    (by rintro (_ | _ | _ | _) value hvalue <;> cases hvalue
        · trivial
        · exact ⟨7, by decide, hseven⟩)
    (by rintro (_ | _ | _ | _) value hnone hvalue <;> cases hnone <;> cases hvalue
        exact show "e.db" ≠ "" by decide)
  have hba : b = a := hb.unique ⟨rfl, rfl, rfl, rfl, hseven, rfl⟩
  subst hba
  refine ⟨hm, ⟨7, by decide, hseven⟩, ?_, ?_⟩
  · refine hparse [.apart .busyTimeout "+007", .positional "-5", .joined .host "-h=1",
      .positional "-", .positional "more"] ⟨by decide, ?_, rfl, ?_⟩
    · rintro (_ | _ | _ | _) value <;> simp [options, Word.option?, eq_comm]
    · simp [Word.IsClear]
  · refine hparse [.positional "-5", .positional "-", .joined .host "-h=1", .positional "more",
      .joined .busyTimeout "+007"] ⟨by decide, ?_, rfl, ?_⟩
    · rintro (_ | _ | _ | _) value <;> simp [options, Word.option?, eq_comm]
    · simp [Word.IsClear]

end Layers
end Arguments
end QueryServer
