import QueryServer.Proofs.Sql.Transaction
/-!
What a production takes. Every production takes lexemes from the front of a source and stops before
the next semicolon, so that no statement reaches beyond the semicolon behind it.
-/

namespace QueryServer.Sql

/-- A source goes on to another one inside one statement: what lies between has no semicolon. -/
def Reaches (ls rest : List Lexeme) : Prop :=
  ∃ taken, ls = taken ++ rest ∧ ∀ l ∈ taken, l.token ≠ .symbol .semicolon

theorem Reaches.refl (ls : List Lexeme) : Reaches ls ls :=
  ⟨[], rfl, by simp⟩

theorem Reaches.trans {ls ls' rest : List Lexeme} (h : Reaches ls ls') (h' : Reaches ls' rest) :
    Reaches ls rest := by
  obtain ⟨first, rfl, hfirst⟩ := h
  obtain ⟨second, rfl, hsecond⟩ := h'
  refine ⟨first ++ second, by simp, ?_⟩
  intro l hl
  exact (List.mem_append.mp hl).elim (hfirst l) (hsecond l)

theorem Reaches.tail {l : Lexeme} (hl : l.token ≠ .symbol .semicolon) (ls : List Lexeme) :
    Reaches (l :: ls) ls :=
  ⟨[l], rfl, by simpa using hl⟩

namespace Grammar

variable {α β : Type} {g g' : Grammar α} {f : α → Grammar β} {next : Option Token} {t : Token}

/-- What is left where a production succeeds lies in the same statement. -/
def Takes (g : Grammar α) : Prop :=
  ∀ ls a rest, g ls = .ok (a, rest) → Reaches ls rest

/-- The same where this token stands next, or none. -/
def TakesAt (next : Option Token) (g : Grammar α) : Prop :=
  ∀ ls a rest, ls.head?.map (·.token) = next → g ls = .ok (a, rest) → Reaches ls rest

@[simp] theorem Takes.bind (hg : Takes g) (hf : ∀ a, Takes (f a)) : Takes (g >>= f) := by
  intro ls b rest h
  obtain ⟨a, ls', ha, hb⟩ := ok_of_bind h
  exact (hg ls a ls' ha).trans (hf a ls' b rest hb)

theorem Takes.bind_option {g : Grammar (Option α)} {f : Option α → Grammar β} (hg : Takes g)
    (hnone : Takes (f none)) (hsome : ∀ a, Takes (f (some a))) : Takes (g >>= f) := by
  refine hg.bind fun found => ?_
  cases found with
  | none => exact hnone
  | some a => exact hsome a

theorem Takes.at (hg : Takes g) : TakesAt next g := by
  intro ls a rest _ h
  exact hg ls a rest h

@[simp] theorem takes_stuck : Takes (stuck : Grammar α) := by
  intro ls a rest h
  cases h

theorem takes_stuck_bind {f : α → Grammar β} : Takes (stuck >>= f) := by
  intro ls b rest h
  obtain ⟨a, ls', ha, -⟩ := ok_of_bind h
  cases ha

@[simp] theorem takes_pure (a : α) : Takes (pure a : Grammar α) := by
  intro ls b rest h
  cases h
  exact Reaches.refl ls

@[simp] theorem takes_map {m : α → β} (hg : Takes g) : Takes (m <$> g) := by
  rw [map_eq_pure_bind]
  exact hg.bind fun a => takes_pure (m a)

@[simp] theorem takes_ite {p : Prop} [Decidable p] :
    Takes (if p then g else g') ↔ if p then Takes g else Takes g' := by
  split <;> rfl

theorem Takes.ite {p : Prop} [Decidable p] (hg : Takes g) (hg' : Takes g') :
    Takes (if p then g else g') := by
  simp [hg, hg']

theorem TakesAt.ite {p : Prop} [Decidable p] (hg : TakesAt next g) (hg' : TakesAt next g') :
    TakesAt next (if p then g else g') := by
  split
  · exact hg
  · exact hg'

@[simp] theorem takes_remaining : Takes remaining := by
  intro ls a rest h
  cases h
  exact Reaches.refl ls

/-- A look at the next token. -/
theorem takes_peek {f : Option Token → Grammar β} (hf : ∀ next, TakesAt next (f next)) :
    Takes (peek >>= f) := by
  intro ls b rest h
  exact hf _ ls b rest rfl h

/-- The next lexeme is taken only where it is known to be no semicolon. -/
theorem takesAt_take {f : Lexeme → Grammar β} (ht : t ≠ .symbol .semicolon)
    (hf : ∀ l, Takes (f l)) : TakesAt (some t) (take >>= f) := by
  intro ls b rest hnext h
  cases ls with
  | nil => cases hnext
  | cons l ls =>
    obtain rfl : l.token = t := Option.some.inj hnext
    exact (Reaches.tail ht ls).trans (hf l ls b rest h)

theorem takes_token? (ht : t ≠ .symbol .semicolon) : Takes (token? t) := by
  intro ls a rest h
  unfold token? at h
  split at h
  · split at h
    · cases h
      exact Reaches.tail (by simp_all) _
    · cases h
      exact Reaches.refl _
  · cases h
    exact Reaches.refl _

@[simp] theorem takes_keyword? (k : Keyword) : Takes (keyword? k) :=
  takes_token? (by simp)

@[simp] theorem takes_symbol? {s : Symbol} (hs : s ≠ .semicolon) : Takes (symbol? s) :=
  takes_token? (by simpa using hs)

@[simp] theorem takes_keyword (k : Keyword) : Takes (keyword k) :=
  (takes_keyword? k).bind (by simp)

@[simp] theorem takes_symbol {s : Symbol} (hs : s ≠ .semicolon) : Takes (symbol s) :=
  (takes_symbol? hs).bind (by simp)

@[simp] theorem takes_atSymbol (s : Symbol) : Takes (atSymbol s) :=
  takes_peek fun _ => (takes_pure _).at

@[simp] theorem takes_atKeyword (k : Keyword) : Takes (atKeyword k) :=
  takes_peek fun _ => (takes_pure _).at

theorem takes_named? {named : Lexeme → Option String}
    (hnamed : ∀ l, l.token = .symbol .semicolon → named l = none) : Takes (named? named) := by
  intro ls a rest h
  unfold named? at h
  split at h
  · split at h
    · cases h
      exact Reaches.tail (fun hl => by simp_all) _
    · cases h
      exact Reaches.refl _
  · cases h
    exact Reaches.refl _

theorem nameOf?_semicolon {l : Lexeme} (hl : l.token = .symbol .semicolon) : nameOf? l = none := by
  simp [nameOf?, bareNameOf?, hl]

@[simp] theorem takes_name? : Takes name? :=
  takes_named? fun _ => nameOf?_semicolon

@[simp] theorem takes_bareName? : Takes bareName? :=
  takes_named? fun l hl => by simp [bareNameOf?, hl]

@[simp] theorem takes_name : Takes name :=
  takes_name?.bind_option takes_stuck takes_pure

@[simp] theorem takes_clause? {k : Keyword} (hg : Takes g) : Takes (clause? k g) :=
  (takes_keyword? k).bind (by simp [hg])

@[simp] theorem takes_optionalAlias : Takes optionalAlias :=
  (takes_keyword? .AS).bind (by simp)

@[simp] theorem takes_tableName : Takes tableName :=
  takes_name.bind fun _ => (takes_symbol? (by simp)).bind (by simp)

theorem takes_moreItems (hg : Takes g) (n : Nat) (done : List α) : Takes (moreItems g n done) := by
  induction n generalizing done with
  | zero => exact takes_pure _
  | succ n ih =>
    exact (takes_symbol? (by simp)).bind fun more =>
      .ite (hg.bind fun item => ih (item :: done)) (takes_pure _)

@[simp] theorem takes_commaSeparated (hg : Takes g) : Takes (commaSeparated g) :=
  hg.bind fun _ => takes_remaining.bind fun _ => takes_moreItems hg _ _

@[simp] theorem takes_nameList : Takes nameList :=
  (takes_symbol (by simp)).bind fun _ => (takes_commaSeparated takes_name).bind fun _ =>
    (takes_symbol (by simp)).bind (by simp)

@[simp] theorem takes_optionalNameList : Takes optionalNameList :=
  (takes_atSymbol .open).bind (by simp)

@[simp] theorem takes_signedNumber : Takes signedNumber := by
  refine (takes_symbol? (by simp)).bind fun plus =>
    .ite ?_ ((takes_symbol? (by simp)).bind fun minus => ?_)
  all_goals
    refine takes_peek fun next => ?_
    split
    · exact takesAt_take (by simp) (by simp)
    · exact takesAt_take (by simp) (by simp)
    · exact takesAt_take (by simp) (by simp)
    · exact takes_stuck.at

@[simp] theorem takes_typeWords (n : Nat) : Takes (typeWords n) := by
  induction n with
  | zero => exact takes_pure ()
  | succ n ih => exact takes_bareName?.bind (by simp [ih])

@[simp] theorem takes_declaredType : Takes declaredType := by
  refine takes_remaining.bind fun start => takes_bareName?.bind fun first => .ite (takes_pure _) ?_
  have hfinish : ∀ f : List Lexeme → String, Takes (remaining >>= fun finish => pure (f finish)) :=
    fun f => takes_remaining.bind (by simp)
  have hsize : ∀ f : List Lexeme → String, Takes (do
      symbol .close
      let finish ← remaining
      return f finish) :=
    fun f => (takes_symbol (by simp)).bind fun _ => hfinish f
  exact (takes_typeWords _).bind fun _ => (takes_symbol? (by simp)).bind fun sized =>
    .ite (takes_signedNumber.bind fun _ => (takes_symbol? (by simp)).bind fun more =>
      .ite (takes_signedNumber.bind fun _ => hsize _) (hsize _)) (hfinish _)

@[simp] theorem takes_nextQuoting : Takes nextQuoting := by
  refine takes_peek fun next => ?_
  split <;> exact (takes_pure _).at

@[simp] theorem takes_qualifiedBy (first : String) : Takes (qualifiedBy first) :=
  takes_name.bind fun _ => (takes_symbol? (by simp)).bind (by simp)

/-- The productions of expressions, with so much fuel. -/
structure ExprTakes (n : Nat) : Prop where
  exprAt : ∀ level, Takes (exprAt n level)
  operators : ∀ level left, Takes (operators n level left)
  relation? : ∀ inverted left, Takes (relation? n inverted left)
  operand : Takes (operand n)
  branches : ∀ base, Takes (branches n base)
  reference : Takes (reference n)
  exprList : Takes (exprList n)
  moreExprs : Takes (moreExprs n)

variable {n : Nat}

theorem ExprTakes.zero : ExprTakes 0 :=
  ⟨fun _ => takes_stuck, fun _ _ => takes_stuck, fun _ _ => takes_stuck, takes_stuck,
    fun _ => takes_stuck, takes_stuck, takes_stuck, takes_stuck⟩

theorem ExprTakes.operators_succ (h : ExprTakes n) (level : Nat) (left : Expr) :
    Takes (Grammar.operators (n + 1) level left) := by
  have hright : ∀ rightLevel (op : Expr → Expr), Takes (do
      let right ← Grammar.exprAt n rightLevel
      Grammar.operators n level (op right)) :=
    fun rightLevel op => (h.exprAt rightLevel).bind fun right => h.operators level (op right)
  unfold Grammar.operators
  refine takes_peek fun next => ?_
  split
  · exact Takes.at <| .ite (takes_pure left) <| (takes_keyword .IS).bind fun _ =>
      (takes_keyword? .NOT).bind fun inverted => (takes_keyword? .DISTINCT).bind fun distinct =>
        .ite ((takes_keyword .FROM).bind fun _ => hright _ _) (hright _ _)
  · exact Takes.at <| .ite (takes_pure left) <| (takes_keyword .ISNULL).bind fun _ =>
      h.operators _ _
  · exact Takes.at <| .ite (takes_pure left) <| (takes_keyword .NOTNULL).bind fun _ =>
      h.operators _ _
  · exact Takes.at <| .ite (takes_pure left) <| (takes_keyword .NOT).bind fun _ =>
      (takes_keyword? .NULL).bind fun null => .ite (h.operators _ _)
        ((h.relation? true left).bind_option takes_stuck (h.operators level))
  · rename_i token _ _ _ _
    cases hop : binaryOf? token with
    | none =>
      exact Takes.at <| .ite (takes_pure left)
        ((h.relation? false left).bind_option (takes_pure left) (h.operators level))
    | some op =>
      refine .ite (takes_pure left).at (takesAt_take ?_ fun _ => hright _ _)
      rintro rfl
      cases hop
  · exact (takes_pure left).at

theorem ExprTakes.relation?_succ (h : ExprTakes n) (inverted : Bool) (left : Expr) :
    Takes (Grammar.relation? (n + 1) inverted left) := by
  unfold Grammar.relation?
  refine takes_peek fun next => ?_
  split
  · exact Takes.at <| (takes_keyword .BETWEEN).bind fun _ => (h.exprAt _).bind fun low =>
      (takes_keyword .AND).bind fun _ => (h.exprAt _).bind (by simp)
  · exact Takes.at <| (takes_keyword .IN).bind fun _ => (takes_symbol (by simp)).bind fun _ =>
      h.exprList.bind fun items => (takes_symbol (by simp)).bind (by simp)
  · refine .ite (takes_pure none).at (takesAt_take (by simp) fun _ => (h.exprAt _).bind fun _ => ?_)
    exact (takes_keyword? .ESCAPE).bind (by simp [h.exprAt])
  · exact (takes_pure none).at

theorem ExprTakes.operand_succ (h : ExprTakes n) : Takes (Grammar.operand (n + 1)) := by
  unfold Grammar.operand
  refine takes_peek fun next => ?_
  split
  · exact Takes.at <| (takes_keyword .NOT).bind fun _ => (h.exprAt _).bind (by simp)
  · exact Takes.at <| (takes_symbol (by simp)).bind fun _ => (h.exprAt _).bind (by simp)
  · exact Takes.at <| (takes_symbol (by simp)).bind fun _ => (h.exprAt _).bind (by simp)
  · exact Takes.at <| (takes_symbol (by simp)).bind fun _ => (h.exprAt _).bind (by simp)
  · exact Takes.at <| (takes_symbol (by simp)).bind fun _ => (h.exprAt _).bind fun first =>
      h.moreExprs.bind fun others => (takes_symbol (by simp)).bind (by simp)
  · exact Takes.at <| (takes_keyword .CAST).bind fun _ => (takes_symbol (by simp)).bind fun _ =>
      (h.exprAt _).bind fun e => (takes_keyword .AS).bind fun _ => takes_declaredType.bind fun _ =>
      (takes_symbol (by simp)).bind (by simp)
  · have hbranches : ∀ base, Takes (do
        let e ← Grammar.branches n base
        keyword .END
        return e) :=
      fun base => (h.branches base).bind fun e => (takes_keyword .END).bind (by simp)
    exact Takes.at <| (takes_keyword .CASE).bind fun _ => (takes_atKeyword .WHEN).bind fun bare =>
      .ite (hbranches none) ((takes_map (h.exprAt _)).bind hbranches)
  · exact takesAt_take (by simp) (by simp)
  · exact .ite takes_stuck_bind.at (takesAt_take (by simp) (by simp))
  · exact takesAt_take (by simp) fun _ =>
      (takes_symbol? (by simp)).bind (by simp)
  · rename_i token _ _ _ _ _ _ _ _ _ _
    cases hliteral : literalOf? token with
    | none => exact h.reference.at
    | some e =>
      refine takesAt_take ?_ (by simp)
      rintro rfl
      cases hliteral
  · exact takes_stuck.at

theorem ExprTakes.branches_succ (h : ExprTakes n) (base : Option Expr) :
    Takes (Grammar.branches (n + 1) base) := by
  unfold Grammar.branches
  refine (takes_keyword .WHEN).bind fun _ => (h.exprAt _).bind fun condition =>
    (takes_keyword .THEN).bind fun _ => (h.exprAt _).bind fun value =>
    (takes_atKeyword .WHEN).bind fun again => (takes_keyword? .ELSE).bind fun last => ?_
  exact .ite ((h.branches base).bind fun _ => takes_pure _)
    (.ite ((h.exprAt _).bind fun _ => takes_pure _) ((takes_pure _).bind fun _ => takes_pure _))

theorem ExprTakes.reference_succ (h : ExprTakes n) : Takes (Grammar.reference (n + 1)) := by
  unfold Grammar.reference
  have hargs : ∀ f : List Expr → Expr, Takes (do
      let args ← Grammar.exprList n
      symbol .close
      return f args) :=
    fun f => h.exprList.bind fun args => (takes_symbol (by simp)).bind (by simp)
  refine takes_nextQuoting.bind fun quoting => takes_name.bind fun text =>
    (takes_symbol? (by simp)).bind fun qualified => .ite (takes_qualifiedBy text) ?_
  refine (takes_symbol? (by simp)).bind fun called => .ite ?_ (takes_pure _)
  refine (takes_symbol? (by simp)).bind fun star =>
    .ite ((takes_symbol (by simp)).bind (by simp)) ?_
  exact (takes_keyword? .DISTINCT).bind fun distinct =>
    .ite ((takes_keyword? .ALL).bind fun _ => hargs _) (hargs _)

theorem ExprTakes.succ (h : ExprTakes n) : ExprTakes (n + 1) where
  exprAt level := h.operand.bind fun left => h.operators level left
  operators := h.operators_succ
  relation? := h.relation?_succ
  operand := h.operand_succ
  branches := h.branches_succ
  reference := h.reference_succ
  exprList := (takes_atSymbol .close).bind fun _ =>
    .ite (takes_pure []) ((h.exprAt _).bind fun _ => h.moreExprs.bind (by simp))
  moreExprs := (takes_symbol? (by simp)).bind fun _ =>
    .ite ((h.exprAt _).bind fun _ => h.moreExprs.bind (by simp)) (takes_pure [])

theorem exprTakes (n : Nat) : ExprTakes n := by
  induction n with
  | zero => exact .zero
  | succ n ih => exact ih.succ

@[simp] theorem takes_expr : Takes expr :=
  takes_remaining.bind fun _ => (exprTakes _).exprAt _

@[simp] theorem takes_tableStar? : Takes tableStar? := by
  intro ls a rest h
  unfold tableStar? at h
  split at h
  · rename_i l dot star after
    split at h
    · rename_i hmarks
      split at h
      · rename_i table htable
        cases h
        refine ⟨[l, dot, star], rfl, ?_⟩
        have hl : l.token ≠ .symbol .semicolon := fun hl => by simp [nameOf?_semicolon hl] at htable
        simp [hl, hmarks]
      · cases h
        exact Reaches.refl _
    · cases h
      exact Reaches.refl _
  · cases h
    exact Reaches.refl _

@[simp] theorem takes_resultColumn : Takes resultColumn := by
  refine (takes_symbol? (by simp)).bind fun star => .ite (takes_pure _) ?_
  exact takes_tableStar?.bind_option (takes_expr.bind fun e => takes_optionalAlias.bind (by simp))
    fun table => takes_pure _

@[simp] theorem takes_orderTerm : Takes orderTerm :=
  takes_expr.bind fun e => (takes_keyword? .DESC).bind fun _ =>
    .ite (takes_pure _) ((takes_keyword? .ASC).bind (by simp))

@[simp] theorem takes_orderClause : Takes orderClause :=
  (takes_keyword? .ORDER).bind fun _ =>
    .ite ((takes_keyword .BY).bind fun _ => takes_commaSeparated takes_orderTerm) (takes_pure [])

@[simp] theorem takes_limitClause : Takes limitClause := by
  refine (takes_keyword? .LIMIT).bind fun _ => .ite ?_ (takes_pure _)
  refine takes_expr.bind fun first => (takes_keyword? .OFFSET).bind fun _ => .ite (by simp) ?_
  exact (takes_symbol? (by simp)).bind fun _ => .ite (takes_expr.bind (by simp)) (takes_pure _)

@[simp] theorem takes_exprTuple : Takes exprTuple :=
  (takes_symbol (by simp)).bind fun _ => (takes_commaSeparated takes_expr).bind fun _ =>
    (takes_symbol (by simp)).bind (by simp)

@[simp] theorem takes_compoundOp? : Takes compoundOp? :=
  (takes_keyword? .UNION).bind fun _ => .ite ((takes_keyword? .ALL).bind (by simp)) <|
    (takes_keyword? .INTERSECT).bind fun _ => .ite (takes_pure _) <|
      (takes_keyword? .EXCEPT).bind (by simp)

/-- The productions of selects, with so much fuel. -/
structure SelectTakes (n : Nat) : Prop where
  selectAt : Takes (selectAt n)
  definitions : Takes (definitions n)
  parts : ∀ earlier, Takes (parts n earlier)
  part : Takes (part n)
  source : Takes (source n)

theorem SelectTakes.zero : SelectTakes 0 :=
  ⟨takes_stuck, takes_stuck, fun _ => takes_stuck, takes_stuck, takes_stuck⟩

theorem SelectTakes.definitions_succ (h : SelectTakes n) : Takes (Grammar.definitions (n + 1)) := by
  unfold Grammar.definitions
  refine takes_name.bind fun table => takes_optionalNameList.bind fun columns =>
    (takes_keyword .AS).bind fun _ => (takes_symbol (by simp)).bind fun _ =>
    h.selectAt.bind fun definition => (takes_symbol (by simp)).bind fun _ => ?_
  exact (takes_symbol? (by simp)).bind fun _ =>
    .ite (h.definitions.bind (by simp)) ((h.parts _).bind (by simp))

theorem SelectTakes.parts_succ (h : SelectTakes n) (earlier : List (Part × CompoundOp)) :
    Takes (Grammar.parts (n + 1) earlier) := by
  refine h.part.bind fun p => takes_compoundOp?.bind fun op => ?_
  cases op with
  | none => exact takes_pure _
  | some op => exact h.parts _

theorem takes_clauses {f : Option Expr → List OrderTerm → Option Expr × Option Expr → Grammar Part}
    (hf : ∀ filter order limits, Takes (f filter order limits)) : Takes (do
      let filter ← clause? .WHERE expr
      let order ← orderClause
      let limits ← limitClause
      f filter order limits) :=
  (takes_clause? takes_expr).bind fun filter => takes_orderClause.bind fun order =>
    takes_limitClause.bind fun limits => hf filter order limits

theorem SelectTakes.part_succ (h : SelectTakes n) : Takes (Grammar.part (n + 1)) := by
  unfold Grammar.part
  refine (takes_keyword? .VALUES).bind fun _ =>
    .ite ((takes_commaSeparated takes_exprTuple).bind (by simp)) ?_
  refine (takes_keyword .SELECT).bind fun _ => (takes_keyword? .DISTINCT).bind fun distinct =>
    .ite ((takes_keyword? .ALL).bind fun _ => ?_) ?_
  all_goals
    refine (takes_commaSeparated takes_resultColumn).bind fun columns =>
      (takes_keyword? .FROM).bind fun _ => .ite (h.source.bind fun source => ?_) ?_
    · exact takes_clauses (by simp)
    · exact (takes_pure _).bind fun source => takes_clauses (by simp)

theorem SelectTakes.source_succ (h : SelectTakes n) : Takes (Grammar.source (n + 1)) := by
  unfold Grammar.source
  refine (takes_symbol? (by simp)).bind fun _ => .ite ?_ (takes_tableName.bind (by simp))
  exact h.selectAt.bind fun s => (takes_symbol (by simp)).bind fun _ =>
    takes_optionalAlias.bind (by simp)

theorem SelectTakes.succ (h : SelectTakes n) : SelectTakes (n + 1) where
  selectAt := (takes_keyword? .WITH).bind fun _ =>
    .ite ((takes_keyword? .RECURSIVE).bind fun _ => h.definitions) (h.parts [])
  definitions := h.definitions_succ
  parts := h.parts_succ
  part := h.part_succ
  source := h.source_succ

theorem selectTakes (n : Nat) : SelectTakes n := by
  induction n with
  | zero => exact .zero
  | succ n ih => exact ih.succ

@[simp] theorem takes_select : Takes select :=
  takes_remaining.bind fun _ => (selectTakes _).selectAt

end Grammar
end QueryServer.Sql
