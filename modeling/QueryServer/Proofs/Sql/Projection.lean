import Mathlib.Data.List.Forall2
import QueryServer.Proofs.Sequence
import QueryServer.Sql.Query
/-!
What the rows of a query are made of. Each row holds the values of one of its result lists, from
left to right, in a row of its source that was kept.
-/

namespace QueryServer

theorem of_mem_mapM {ε α β : Type} {f : α → Except ε β} {as : List α} {bs : List β}
    (h : as.mapM f = .ok bs) : ∀ b ∈ bs, ∃ a ∈ as, f a = .ok b := by
  induction as generalizing bs with
  | nil =>
    cases h
    simp
  | cons a as ih =>
    rw [List.mapM_cons, except_bind_eq_ok] at h
    obtain ⟨b, hb, h⟩ := h
    obtain ⟨rest, hrest, h⟩ := (except_bind_eq_ok _ _ _).mp h
    cases h
    intro x hx
    rcases List.mem_cons.mp hx with rfl | hx
    · exact ⟨a, List.mem_cons_self, hb⟩
    · obtain ⟨y, hy, hxy⟩ := ih hrest x hx
      exact ⟨y, List.mem_cons_of_mem a hy, hxy⟩

theorem of_mem_filterM {ε α : Type} {f : α → Except ε Bool} {as kept : List α}
    (h : as.filterM f = .ok kept) : ∀ a ∈ kept, a ∈ as ∧ f a = .ok true := by
  have haux : ∀ acc res, as.filterAuxM f acc = .ok res →
      ∀ a ∈ res, a ∈ acc ∨ a ∈ as ∧ f a = .ok true := by
    clear h
    induction as with
    | nil =>
      intro acc res h a ha
      cases h
      exact .inl ha
    | cons x as ih =>
      intro acc res h a ha
      rw [List.filterAuxM] at h
      obtain ⟨b, hb, h⟩ := (except_bind_eq_ok _ _ _).mp h
      rcases ih _ _ h a ha with hacc | ⟨hmem, hf⟩
      · cases b with
        | false => exact .inl hacc
        | true =>
          rcases List.mem_cons.mp hacc with rfl | hacc
          · exact .inr ⟨List.mem_cons_self, hb⟩
          · exact .inl hacc
      · exact .inr ⟨List.mem_cons_of_mem x hmem, hf⟩
  rw [List.filterM] at h
  obtain ⟨res, hres, h⟩ := (except_bind_eq_ok _ _ _).mp h
  cases h
  intro a ha
  exact (haux [] res hres a (List.mem_reverse.mp ha)).resolve_left (by simp)

/-- What a fold ends with was there before, or is one of the elements that it ran over. -/
theorem of_foldl {σ α : Type} {P : σ → α → Prop} {step : σ → α → σ}
    (hstep : ∀ s x y, P (step s x) y → P s y ∨ y = x) {xs : List α} {s : σ} {y : α}
    (h : P (xs.foldl step s) y) : P s y ∨ y ∈ xs := by
  induction xs generalizing s with
  | nil => exact .inl h
  | cons x xs ih =>
    rcases ih h with hs | hmem
    · rcases hstep s x y hs with hs | rfl
      · exact .inl hs
      · exact .inr List.mem_cons_self
    · exact .inr (List.mem_cons_of_mem x hmem)

namespace Sql

variable {db : Database} {schema : Schema} {row : Tuple} {rows : List Tuple}

theorem Term.forall₂_of_evalAll {group : List Tuple} {source : Tuple} {ts : List Term}
    {ds : List Datum} (h : evalAll group source ts = .ok ds) :
    List.Forall₂ (fun t d => t.eval group source = .ok d) ts ds := by
  induction ts generalizing ds with
  | nil =>
    cases h
    exact .nil
  | cons t ts ih =>
    rw [evalAll] at h
    obtain ⟨d, hd, h⟩ := (except_bind_eq_ok _ _ _).mp h
    obtain ⟨rest, hrest, h⟩ := (except_bind_eq_ok _ _ _).mp h
    cases h
    exact .cons hd (ih hrest)

/-- A row that a result list comes to over the rows that were kept: in one of them, or in none
where there is none, and with all of them to sum up or without. -/
def Projected (result : List Term) (kept : List Tuple) (row : Tuple) : Prop :=
  ∃ source group, (source ∈ kept ∨ kept = [] ∧ source = []) ∧ (group = [] ∨ group = kept) ∧
    List.Forall₂ (fun t d => t.eval group source = .ok d) result row

/-- A row that a relation can have, by the result list of one of its parts. -/
def Relation.Projects (db : Database) : Relation → Tuple → Prop
  | .core _ origin filter result, row => ∃ rows kept, origin.rows db = .ok rows ∧
      (∀ r ∈ kept, r ∈ rows ∧ ∀ f ∈ filter, f.holds r = .ok true) ∧ Projected result kept row
  | .values lists, row => ∃ ts ∈ lists, Projected ts [] row
  | .compound _ left right, row => left.Projects db row ∨ right.Projects db row

theorem mem_of_distinctBy {α : Type} {same : α → α → Bool} {xs : List α} {x : α}
    (h : x ∈ distinctBy same xs) : x ∈ xs := by
  refine (of_foldl (P := fun kept x => x ∈ kept) ?_ (List.mem_reverse.mp h)).resolve_left (by simp)
  intro kept y x hx
  split at hx
  · exact .inl hx
  · exact (List.mem_cons.mp hx).symm

theorem mem_of_sortBy {α : Type} {order : α → α → Ordering} {xs : List α} {x : α} :
    x ∈ sortBy order xs ↔ x ∈ xs :=
  List.mem_mergeSort

theorem mem_of_distinctSorted (h : row ∈ distinctSorted rows) : row ∈ rows := by
  have hsorted : row ∈ (sortBy compareTuples rows).reverse := by
    refine (of_foldl (P := fun kept row => row ∈ kept) ?_ h).resolve_left (by simp)
    intro kept x y hy
    cases kept with
    | nil => exact .inr (List.mem_singleton.mp hy)
    | cons k kept =>
      rcases ite_eq_or_eq (compareTuples k x == .eq) (k :: kept) (x :: k :: kept) with he | he
      · exact .inl (he ▸ hy)
      · exact (List.mem_cons.mp (he ▸ hy)).symm
  exact mem_of_sortBy.mp (List.mem_reverse.mp hsorted)

theorem CompoundOp.mem_of_combine {op : CompoundOp} {left right : List Tuple}
    (h : row ∈ op.combine left right) : row ∈ left ∨ row ∈ right := by
  cases op with
  | unionAll => exact List.mem_append.mp h
  | union => exact List.mem_append.mp (mem_of_distinctSorted h)
  | intersect => exact .inl (mem_of_distinctSorted (List.mem_filter.mp h).1)
  | except => exact .inl (mem_of_distinctSorted (List.mem_filter.mp h).1)

theorem mem_of_representative {result : List Term} {kept : List Tuple} {source : Tuple}
    (h : representative result kept = .ok source) : source ∈ kept ∨ kept = [] ∧ source = [] := by
  have hfirst : kept.headD [] ∈ kept ∨ kept = [] ∧ kept.headD [] = [] := by
    cases kept <;> simp
  unfold representative at h
  dsimp only at h
  split at h
  · cases h
    exact hfirst
  · obtain ⟨valued, hvalued, h⟩ := (except_bind_eq_ok _ _ _).mp h
    generalize hbest : List.foldl _ none (valued.filter (!·.1.isNull)) = best at h
    cases best with
    | none =>
      cases h
      exact hfirst
    | some best =>
      cases h
      have hmem : best ∈ valued.filter (!·.1.isNull) := by
        refine (of_foldl (P := fun best x => best = some x) ?_ hbest).resolve_left (by simp)
        intro best x y hy
        cases best with
        | none => exact .inr (Option.some.inj hy).symm
        | some b =>
          have hpick : ∀ {q : Prop} [Decidable q], (if q then some x else some b) = some y →
              some b = some y ∨ y = x := by
            intro q _ hq
            split at hq
            · exact .inr (Option.some.inj hq).symm
            · exact .inl hq
          exact hpick hy
      obtain ⟨r, hr, hrow⟩ := of_mem_mapM hvalued best (List.mem_filter.mp hmem).1
      obtain ⟨d, -, hrow⟩ := (except_bind_eq_ok _ _ _).mp hrow
      cases hrow
      exact .inl hr

theorem projected_of_produce {distinct : Bool} {filter : Option Term} {result : List Term}
    {ps : List Produced} (h : produce distinct filter result rows = .ok ps) :
    ∃ kept, (∀ r ∈ kept, r ∈ rows ∧ ∀ f ∈ filter, f.holds r = .ok true) ∧
      ∀ p ∈ ps, Projected result kept p.result := by
  obtain ⟨kept, hkept, h⟩ : ∃ kept, (∀ r ∈ kept, r ∈ rows ∧ ∀ f ∈ filter, f.holds r = .ok true) ∧
      produce distinct none result kept = .ok ps := by
    cases filter with
    | none => exact ⟨rows, by simp, h⟩
    | some f =>
      obtain ⟨kept, hkept, h⟩ := (except_bind_eq_ok _ _ _).mp h
      exact ⟨kept, by simpa using of_mem_filterM hkept, h⟩
  refine ⟨kept, hkept, ?_⟩
  have hdistinct : ∀ {made : List Produced}, (∀ p ∈ made, Projected result kept p.result) →
      (if distinct then distinctBy Produced.sameResult made else made) = ps →
      ∀ p ∈ ps, Projected result kept p.result := by
    rintro made hmade rfl p hp
    split at hp
    · exact hmade p (mem_of_distinctBy hp)
    · exact hmade p hp
  unfold produce at h
  obtain ⟨kept, hpure, h⟩ := (except_bind_eq_ok _ _ _).mp h
  cases hpure
  dsimp only at h
  by_cases hplain : (Term.aggregatesOfAll result).isEmpty
  · rw [if_pos hplain] at h
    obtain ⟨made, hmade, h⟩ := (except_bind_eq_ok _ _ _).mp h
    refine hdistinct (fun p hp => ?_) (Except.ok.inj h)
    obtain ⟨r, hr, hp⟩ := of_mem_mapM hmade p hp
    obtain ⟨ds, hds, hp⟩ := (except_bind_eq_ok _ _ _).mp hp
    cases hp
    exact ⟨r, [], .inl hr, .inl rfl, Term.forall₂_of_evalAll hds⟩
  · rw [if_neg hplain] at h
    obtain ⟨source, hsource, h⟩ := (except_bind_eq_ok _ _ _).mp h
    obtain ⟨ds, hds, h⟩ := (except_bind_eq_ok _ _ _).mp h
    obtain ⟨made, hmade, h⟩ := (except_bind_eq_ok _ _ _).mp h
    cases hmade
    refine hdistinct (fun p hp => ?_) (Except.ok.inj h)
    obtain rfl := List.mem_singleton.mp hp
    exact ⟨source, kept, mem_of_representative hsource, .inr rfl, Term.forall₂_of_evalAll hds⟩

theorem mem_of_arranged {order : List SortKey} {ps : List Produced}
    (h : arranged order ps = .ok rows) : ∀ row ∈ rows, ∃ p ∈ ps, p.result = row := by
  unfold arranged at h
  split at h
  · cases h
    exact fun row hrow => List.mem_map.mp hrow
  · obtain ⟨keyed, hkeyed, h⟩ := (except_bind_eq_ok _ _ _).mp h
    cases h
    intro row hrow
    obtain ⟨x, hx, rfl⟩ := List.mem_map.mp hrow
    obtain ⟨p, hp, hmade⟩ := of_mem_mapM hkeyed x (mem_of_sortBy.mp hx)
    obtain ⟨keys, -, hmade⟩ := (except_bind_eq_ok _ _ _).mp hmade
    cases hmade
    exact ⟨p, hp, rfl⟩

theorem mem_of_window {limit offset : Option Term} {shown : List Tuple}
    (h : window limit offset rows = .ok shown) : ∀ row ∈ shown, row ∈ rows := by
  unfold window at h
  obtain ⟨kept, -, h⟩ := (except_bind_eq_ok _ _ _).mp h
  obtain ⟨skipped, -, h⟩ := (except_bind_eq_ok _ _ _).mp h
  cases h
  intro row hrow
  have hrest : row ∈ rows.drop (skipped.getD 0).toNat := by
    split at hrow
    · split at hrow
      · exact hrow
      · exact List.mem_of_mem_take hrow
    · exact hrow
  exact List.mem_of_mem_drop hrest

/-- Every row of a relation is what one of its result lists comes to. -/
theorem Relation.projects_of_rows (r : Relation) {ps : List Produced} (h : r.rows db = .ok ps) :
    ∀ p ∈ ps, r.Projects db p.result := by
  match r with
  | .core distinct origin filter result =>
    rw [Relation.rows] at h
    obtain ⟨rows, hrows, h⟩ := (except_bind_eq_ok _ _ _).mp h
    obtain ⟨kept, hkept, hall⟩ := projected_of_produce h
    exact fun p hp => ⟨rows, kept, hrows, hkept, hall p hp⟩
  | .values lists =>
    rw [Relation.rows] at h
    obtain ⟨rows, hrows, h⟩ := (except_bind_eq_ok _ _ _).mp h
    cases h
    intro p hp
    obtain ⟨row, hrow, rfl⟩ := List.mem_map.mp hp
    obtain ⟨ts, hts, hds⟩ := of_mem_mapM hrows row hrow
    exact ⟨ts, hts, [], [], .inr ⟨rfl, rfl⟩, .inl rfl, Term.forall₂_of_evalAll hds⟩
  | .compound op left right =>
    rw [Relation.rows] at h
    obtain ⟨l, hl, h⟩ := (except_bind_eq_ok _ _ _).mp h
    obtain ⟨r, hr, h⟩ := (except_bind_eq_ok _ _ _).mp h
    cases h
    intro p hp
    obtain ⟨row, hrow, rfl⟩ := List.mem_map.mp hp
    rcases CompoundOp.mem_of_combine hrow with hrow | hrow
    · obtain ⟨q, hq, rfl⟩ := List.mem_map.mp hrow
      exact .inl (left.projects_of_rows hl q hq)
    · obtain ⟨q, hq, rfl⟩ := List.mem_map.mp hrow
      exact .inr (right.projects_of_rows hr q hq)

def Query.relation : Query → Relation
  | .mk relation _ _ _ => relation

theorem Query.projects_of_rows {q : Query} (h : q.rows db = .ok rows) :
    ∀ row ∈ rows, q.relation.Projects db row := by
  obtain ⟨relation, order, limit, offset⟩ := q
  rw [Query.rows] at h
  obtain ⟨ps, hps, h⟩ := (except_bind_eq_ok _ _ _).mp h
  obtain ⟨sorted, hsorted, h⟩ := (except_bind_eq_ok _ _ _).mp h
  intro row hrow
  obtain ⟨p, hp, rfl⟩ := mem_of_arranged hsorted row (mem_of_window h row hrow)
  exact relation.projects_of_rows hps p hp

end Sql
end QueryServer
