import QueryServer.Proofs.Sql.Effect
import QueryServer.Proofs.Sql.Lexing
/-!
Statements about transactions as they are written. Every form of BEGIN is one statement that opens
a transaction; a text that begins with COMMIT, END or ROLLBACK holds nothing that can be run where
none is open.
-/

namespace QueryServer.Sql

/-- The words between BEGIN and the word for a transaction. -/
inductive ModeWords : List Lexeme → TransactionMode → Prop where
  | missing : ModeWords [] .deferred
  | deferred (l : Lexeme) (h : l.token = .keyword .DEFERRED) : ModeWords [l] .deferred
  | immediate (l : Lexeme) (h : l.token = .keyword .IMMEDIATE) : ModeWords [l] .immediate
  | exclusive (l : Lexeme) (h : l.token = .keyword .EXCLUSIVE) : ModeWords [l] .exclusive

/-- The word for a transaction and its name, which may both be missing. -/
inductive Label : List Lexeme → Prop where
  | missing : Label []
  | word (l : Lexeme) (h : l.token = .keyword .TRANSACTION) : Label [l]
  | named (l n : Lexeme) (h : l.token = .keyword .TRANSACTION) (hn : (Grammar.nameOf? n).isSome) :
      Label [l, n]

def Semicolons (ls : List Lexeme) : Prop :=
  ∀ l ∈ ls, l.token = .symbol .semicolon

/-- BEGIN in one of its forms, and semicolons around it. -/
inductive Begins : List Lexeme → TransactionMode → Prop where
  | intro (before words label after : List Lexeme) (l : Lexeme) (mode : TransactionMode)
      (hbefore : Semicolons before) (hl : l.token = .keyword .BEGIN)
      (hwords : ModeWords words mode) (hlabel : Label label) (hafter : Semicolons after) :
      Begins (before ++ l :: (words ++ (label ++ after))) mode

namespace Grammar

variable {α β : Type} {g : Grammar α} {f : α → Grammar β} {a : α} {b : β} {l : Lexeme}
  {ls rest : List Lexeme} {t : Token} {k : Keyword}

theorem bind_of_ok (h : g ls = .ok (a, rest)) : (g >>= f) ls = f a rest := by
  change Except.bind (g ls) _ = _
  rw [h]
  rfl

theorem ok_of_bind (h : (g >>= f) ls = .ok (b, rest)) :
    ∃ a ls', g ls = .ok (a, ls') ∧ f a ls' = .ok (b, rest) := by
  obtain ⟨⟨a, ls'⟩, hg, hf⟩ := (except_bind_eq_ok (g ls) _ _).mp h
  exact ⟨a, ls', hg, hf⟩

theorem keyword?_of_eq (h : l.token = .keyword k) (ls : List Lexeme) :
    keyword? k (l :: ls) = .ok (true, ls) := by
  simp [keyword?, token?, h]

theorem keyword?_of_ne (h : ∀ l ∈ ls.head?, l.token ≠ .keyword k) :
    keyword? k ls = .ok (false, ls) := by
  cases ls with
  | nil => rfl
  | cons l ls => simp [keyword?, token?, h l rfl]

theorem head_keyword {k' : Keyword} (h : l.token = .keyword k) (hk : k ≠ k') (ls : List Lexeme) :
    ∀ x ∈ (l :: ls).head?, x.token ≠ .keyword k' := by
  intro x hx
  cases hx
  simp [h, hk]

theorem statement_of_transactional (hl : l.token = .keyword k)
    (hk : Lexeme.isTransactional l.token) (ls : List Lexeme) :
    statement (l :: ls) = statementAfter k ls := by
  have hplain : plainStatement (l :: ls) = statementAfter k ls := by
    have hpeek : peek (l :: ls) = .ok (some (.keyword k), l :: ls) := by simp [peek, hl]
    rw [hl, Lexeme.isTransactional, List.contains_iff_mem] at hk
    simp only [List.mem_cons, List.not_mem_nil, or_false] at hk
    unfold plainStatement
    rw [bind_of_ok hpeek]
    rcases hk with rfl | rfl | rfl | rfl <;> rfl
  have hexplain : k ≠ .EXPLAIN := by
    rintro rfl
    rw [hl] at hk
    cases hk
  unfold statement
  rw [bind_of_ok (keyword?_of_ne (head_keyword hl hexplain ls))]
  exact hplain

theorem head_semicolons (hs : Semicolons ls) : ∀ l ∈ ls.head?, l.token ≠ .keyword k := by
  intro l hl
  rw [hs l (List.mem_of_head? hl)]
  simp

theorem head_label {label : List Lexeme} (hlabel : Label label) (hs : Semicolons ls)
    (hk : k ≠ .TRANSACTION) : ∀ l ∈ (label ++ ls).head?, l.token ≠ .keyword k := by
  cases hlabel with
  | missing => exact head_semicolons hs
  | word l h | named l n h => exact head_keyword h (Ne.symm hk) _

theorem name?_of_semicolons (hs : Semicolons ls) : name? ls = .ok (none, ls) := by
  cases ls with
  | nil => rfl
  | cons l ls => simp [name?, named?, nameOf?, bareNameOf?, hs l (by simp)]

theorem transaction_of_label {label : List Lexeme} (hlabel : Label label) (hs : Semicolons ls) :
    transaction (label ++ ls) = .ok ((), ls) := by
  unfold transaction
  cases hlabel with
  | missing =>
    rw [List.nil_append, bind_of_ok (keyword?_of_ne (head_semicolons hs))]
    rfl
  | word l h =>
    rw [List.singleton_append, bind_of_ok (keyword?_of_eq h _)]
    simp only [if_true]
    rw [bind_of_ok (name?_of_semicolons hs)]
    rfl
  | named l n h hn =>
    obtain ⟨name, hname⟩ := Option.isSome_iff_exists.mp hn
    have htaken : name? (n :: ls) = .ok (some name, ls) := by simp [name?, named?, hname]
    rw [List.cons_append, List.singleton_append, bind_of_ok (keyword?_of_eq h _)]
    simp only [if_true]
    rw [bind_of_ok htaken]
    rfl

theorem transactionMode_of_words {words label : List Lexeme} {mode : TransactionMode}
    (hwords : ModeWords words mode) (hlabel : Label label) (hs : Semicolons ls) :
    transactionMode (words ++ (label ++ ls)) = .ok (mode, label ++ ls) := by
  unfold transactionMode
  cases hwords with
  | missing =>
    rw [List.nil_append, bind_of_ok (keyword?_of_ne (head_label hlabel hs (by decide)))]
    simp only [Bool.false_eq_true, if_false]
    rw [bind_of_ok (keyword?_of_ne (head_label hlabel hs (by decide)))]
    simp only [Bool.false_eq_true, if_false]
    rw [bind_of_ok (keyword?_of_ne (head_label hlabel hs (by decide)))]
    rfl
  | deferred l h =>
    rw [List.singleton_append, bind_of_ok (keyword?_of_ne (head_keyword h (by decide) _))]
    simp only [Bool.false_eq_true, if_false]
    rw [bind_of_ok (keyword?_of_ne (head_keyword h (by decide) _))]
    simp only [Bool.false_eq_true, if_false]
    rw [bind_of_ok (keyword?_of_eq h _)]
    rfl
  | immediate l h =>
    rw [List.singleton_append, bind_of_ok (keyword?_of_eq h _)]
    rfl
  | exclusive l h =>
    rw [List.singleton_append, bind_of_ok (keyword?_of_ne (head_keyword h (by decide) _))]
    simp only [Bool.false_eq_true, if_false]
    rw [bind_of_ok (keyword?_of_eq h _)]
    rfl

theorem beginTransaction_of_words {words label : List Lexeme} {mode : TransactionMode}
    (hwords : ModeWords words mode) (hlabel : Label label) (hs : Semicolons ls) :
    beginTransaction (words ++ (label ++ ls)) = .ok (.begin mode, ls) := by
  unfold beginTransaction
  rw [bind_of_ok (transactionMode_of_words hwords hlabel hs),
    bind_of_ok (transaction_of_label hlabel hs)]
  rfl

end Grammar

variable {l : Lexeme} {ls rest : List Lexeme} {mode : TransactionMode} {schema : Schema}

theorem skipEmpty_semicolons (hs : Semicolons ls) : skipEmpty ls = [] := by
  simpa [skipEmpty, List.dropWhile_eq_nil_iff, Semicolons] using hs

theorem skipEmpty_of_ne (hl : l.token ≠ .symbol .semicolon) : skipEmpty (l :: ls) = l :: ls := by
  simp [skipEmpty, hl]

theorem skipEmpty_append (hs : Semicolons ls) (hl : l.token ≠ .symbol .semicolon) :
    skipEmpty (ls ++ l :: rest) = l :: rest := by
  have hnil := skipEmpty_semicolons hs
  unfold skipEmpty at hnil ⊢
  rw [List.dropWhile_append, hnil]
  simp [hl]

/-- A source whose first statement begins with a word for transactions begins with it, or with the
end of a statement. -/
theorem first_of_skipEmpty (h : skipEmpty ls = l :: rest) (hl : Lexeme.isTransactional l.token) :
    ∃ x xs, ls = x :: xs ∧ (x.token = .symbol .semicolon ∨ Lexeme.isTransactional x.token) := by
  cases ls with
  | nil => cases h
  | cons x xs =>
    by_cases hx : x.token = .symbol .semicolon
    · exact ⟨x, xs, rfl, .inl hx⟩
    · rw [skipEmpty_of_ne hx] at h
      cases h
      exact ⟨l, rest, rfl, .inr hl⟩

theorem next?_of_semicolons (hs : Semicolons ls) (schema : Schema) :
    Prepared.next? schema ls = .ok none := by
  simp [Prepared.next?, Parsed.next?, skipEmpty_semicolons hs]

def isParameter : Token → Bool
  | .parameter _ => true
  | _ => false

theorem parameters_of_none (hls : ∀ l ∈ ls, isParameter l.token = false) (ps : Parameters) :
    ls.foldlM (fun ps l => ps.add l.token) ps = .ok ps := by
  induction ls with
  | nil => rfl
  | cons l ls ih =>
    have hadd : ps.add l.token = .ok ps := by
      have hl := hls l (by simp)
      unfold Parameters.add
      split <;> simp_all [isParameter]
    rw [List.foldlM_cons, hadd]
    exact ih fun x hx => hls x (by simp [hx])

theorem isParameter_of_words {words : List Lexeme} (hwords : ModeWords words mode) :
    ∀ l ∈ words, isParameter l.token = false := by
  cases hwords <;> simp_all [isParameter]

theorem isParameter_of_label (hlabel : Label ls) : ∀ l ∈ ls, isParameter l.token = false := by
  cases hlabel with
  | missing => simp
  | word l h => simp [h, isParameter]
  | named l n h hn =>
    have hl : isParameter l.token = false := by rw [h]; rfl
    have hname : isParameter n.token = false := by
      cases hp : isParameter n.token with
      | false => rfl
      | true =>
        unfold isParameter at hp
        split at hp
        · rename_i text ht
          simp [Grammar.nameOf?, Grammar.bareNameOf?, ht] at hn
        · cases hp
    simp [hl, hname]

theorem next?_of_statement {front after : List Lexeme} {s : Statement}
    (hstart : skipEmpty ls = l :: (front ++ after))
    (hs : Grammar.statement (l :: (front ++ after)) = .ok (s, after)) (hafter : Semicolons after) :
    Parsed.next? ls = .ok (some (⟨s, l :: front⟩, after.tail)) := by
  unfold Parsed.next?
  rw [hstart]
  dsimp only
  rw [hs]
  cases after with
  | nil => simp
  | cons x after =>
    have htake : (l :: (front ++ x :: after)).take
        ((l :: (front ++ x :: after)).length - (x :: after).length) = l :: front := by
      rw [← List.cons_append, List.length_append, Nat.add_sub_cancel]
      exact List.take_left
    dsimp only
    rw [if_pos (hafter x (by simp)), htake]
    rfl

theorem Begins.first (hb : Begins ls mode) :
    ∃ x xs, ls = x :: xs ∧ (x.token = .symbol .semicolon ∨ Lexeme.isTransactional x.token) := by
  cases hb with
  | intro before words label after l mode hbefore hl hwords hlabel hafter =>
    exact first_of_skipEmpty (skipEmpty_append hbefore (by simp [hl])) (by rw [hl]; rfl)

/-- BEGIN in one of its forms is one statement, and nothing but semicolons can follow. -/
theorem Begins.parsed (hb : Begins ls mode) :
    ∃ lexemes after, Parsed.next? ls = .ok (some (⟨.begin mode, lexemes⟩, after)) ∧
      Semicolons after ∧ ∀ l ∈ lexemes, isParameter l.token = false := by
  cases hb with
  | intro before words label after l mode hbefore hl hwords hlabel hafter =>
    have hstart : skipEmpty (before ++ l :: (words ++ (label ++ after))) =
        l :: (words ++ (label ++ after)) := skipEmpty_append hbefore (by simp [hl])
    have hstatement : Grammar.statement (l :: (words ++ (label ++ after))) =
        .ok (.begin mode, after) := by
      rw [Grammar.statement_of_transactional hl (by rw [hl]; rfl)]
      exact Grammar.beginTransaction_of_words hwords hlabel hafter
    rw [← List.append_assoc words] at hstart hstatement ⊢
    refine ⟨_, _, next?_of_statement hstart hstatement hafter,
      fun x hx => hafter x (List.mem_of_mem_tail hx), fun x hx => ?_⟩
    simp only [List.mem_cons, List.mem_append] at hx
    rcases hx with rfl | hx | hx
    · rw [hl]
      rfl
    · exact isParameter_of_words hwords x hx
    · exact isParameter_of_label hlabel x hx

theorem Begins.next? (hb : Begins ls mode) : ∃ after, ∀ schema,
    Prepared.next? schema ls = .ok (some (⟨.begin mode, 0⟩, after)) ∧
      Prepared.next? schema after = .ok none := by
  obtain ⟨lexemes, after, hparsed, hafter, hnone⟩ := hb.parsed
  refine ⟨after, fun schema => ⟨?_, next?_of_semicolons hafter schema⟩⟩
  unfold Prepared.next?
  rw [hparsed]
  dsimp only
  rw [parameters_of_none hnone {}]
  rfl

/-- A text that is BEGIN in one of its forms holds one statement, which opens a transaction. -/
theorem Begins.only? {text : String} (hb : Begins (Lexeme.scan text.toList) mode)
    (schema : Schema) : Prepared.only? schema text = .ok (some ⟨.begin mode, 0⟩) := by
  obtain ⟨after, hnext⟩ := hb.next?
  unfold Prepared.only?
  rw [(hnext schema).1]
  change (Prepared.next? schema after >>= _) = _
  rw [(hnext schema).2]
  rfl

/-- A source that begins with a word that ends a transaction. -/
def endsTransaction (ls : List Lexeme) : Bool :=
  (skipEmpty ls).head?.any fun l =>
    [.COMMIT, .END, .ROLLBACK].any fun k => l.token = .keyword k

theorem word_of_endsTransaction (he : endsTransaction ls) :
    ∃ l rest k, skipEmpty ls = l :: rest ∧ (k = .COMMIT ∨ k = .END ∨ k = .ROLLBACK) ∧
      l.token = .keyword k ∧ Lexeme.isTransactional l.token := by
  unfold endsTransaction at he
  cases hstart : skipEmpty ls with
  | nil => simp [hstart] at he
  | cons l rest =>
    have hword : ∃ k, (k = .COMMIT ∨ k = .END ∨ k = .ROLLBACK) ∧ l.token = .keyword k := by
      simpa [hstart] using he
    obtain ⟨k, hk, hl⟩ := hword
    refine ⟨l, rest, k, rfl, hk, hl, ?_⟩
    rw [hl]
    rcases hk with rfl | rfl | rfl <;> rfl

/-- A statement that can only fail where no transaction is open. -/
def Statement.isEnding : Statement → Bool
  | .commit | .rollback | .rollbackTo _ => true
  | _ => false

theorem Statement.refused_of_isEnding {s : Statement} (hs : s.isEnding) (schema : Schema) :
    ∃ f, s.plan schema = .ok (.refused f) := by
  cases s with
  | commit | rollback | rollbackTo => exact ⟨_, rfl⟩
  | _ => cases hs

theorem Grammar.isEnding_of_statement {k : Keyword} {s : Statement}
    (hk : k = .COMMIT ∨ k = .END ∨ k = .ROLLBACK)
    (h : statementAfter k ls = .ok (s, rest)) : s.isEnding := by
  rcases hk with rfl | rfl | rfl
  · obtain ⟨-, named, -, h⟩ := ok_of_bind h
    cases h
    rfl
  · obtain ⟨-, named, -, h⟩ := ok_of_bind h
    cases h
    rfl
  · obtain ⟨-, named, -, h⟩ := ok_of_bind h
    obtain ⟨isTo, target, -, h⟩ := ok_of_bind h
    cases isTo with
    | false =>
      cases h
      rfl
    | true =>
      obtain ⟨-, target, -, h⟩ := ok_of_bind h
      obtain ⟨name, after, -, h⟩ := ok_of_bind h
      cases h
      rfl

theorem statement_of_next? {p : Parsed} (hstart : skipEmpty ls = l :: rest)
    {after : List Lexeme} (h : Parsed.next? ls = .ok (some (p, after))) :
    ∃ after', Grammar.statement (l :: rest) = .ok (p.statement, after') := by
  unfold Parsed.next? at h
  rw [hstart] at h
  dsimp only at h
  split at h
  · cases h
  · rename_i s after' hs
    split at h
    · cases h
      exact ⟨_, hs⟩
    · split at h <;> cases h
      exact ⟨_, hs⟩

theorem skipEmpty_of_next? (h : Prepared.next? schema ls = .ok none) : skipEmpty ls = [] := by
  unfold Prepared.next? at h
  split at h
  · cases h
  · rename_i hparsed
    unfold Parsed.next? at hparsed
    split at hparsed
    · assumption
    · split at hparsed
      · cases hparsed
      · split at hparsed
        · cases hparsed
        · split at hparsed <;> cases hparsed
  · obtain ⟨parameters, -, h⟩ := (except_bind_eq_ok _ _ _).mp h
    obtain ⟨plan, -, h⟩ := (except_bind_eq_ok _ _ _).mp h
    cases h

/-- A text that begins with a word that ends a transaction holds nothing that does not fail. -/
theorem refused_of_only? {text : String} {p : Option Prepared}
    (he : endsTransaction (Lexeme.scan text.toList))
    (h : Prepared.only? schema text = .ok p) :
    ∃ q f, p = some q ∧ q.plan = .refused f := by
  obtain ⟨l, rest, k, hstart, hk, hl, htransactional⟩ := word_of_endsTransaction he
  cases p with
  | none =>
    obtain ⟨first, hfirst, h⟩ := (except_bind_eq_ok _ _ _).mp h
    cases first with
    | none =>
      rw [skipEmpty_of_next? hfirst] at hstart
      cases hstart
    | some first =>
      obtain ⟨second, -, h⟩ := (except_bind_eq_ok _ _ _).mp h
      cases second <;> cases h
  | some q =>
    obtain ⟨after, hfirst⟩ := Prepared.first_of_only? h
    obtain ⟨parsed, hparsed, hplan⟩ := Prepared.plan_of_next? hfirst
    obtain ⟨after', hstatement⟩ := statement_of_next? hstart hparsed
    rw [Grammar.statement_of_transactional hl htransactional] at hstatement
    obtain ⟨f, hf⟩ :=
      Statement.refused_of_isEnding (Grammar.isEnding_of_statement hk hstatement) schema
    exact ⟨q, f, rfl, Except.ok.inj (hplan.symm.trans hf)⟩

end QueryServer.Sql
