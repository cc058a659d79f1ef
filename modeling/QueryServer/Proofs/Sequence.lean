/-!
Steps that can fail, one after another: a run that ends well is made of steps that all did.
-/

namespace QueryServer

theorem except_bind_eq_ok {ε α β : Type} (x : Except ε α) (f : α → Except ε β) (b : β) :
    (x >>= f) = .ok b ↔ ∃ a, x = .ok a ∧ f a = .ok b := by
  cases x <;> simp [bind, Except.bind]

theorem except_map_eq_ok {ε α β : Type} (x : Except ε α) (f : α → β) (b : β) :
    x.map f = .ok b ↔ ∃ a, x = .ok a ∧ f a = b := by
  cases x <;> simp [Except.map]

theorem except_mapError_eq_ok {ε ε' α : Type} (x : Except ε α) (f : ε → ε') (a : α) :
    x.mapError f = .ok a ↔ x = .ok a := by
  cases x with
  | error e => exact iff_of_false nofun nofun
  | ok b =>
    constructor <;> intro h <;> cases h <;> rfl

theorem length_of_mapM {ε α β : Type} {f : α → Except ε β} {as : List α} {bs : List β}
    (h : as.mapM f = .ok bs) : bs.length = as.length := by
  induction as generalizing bs with
  | nil => cases h; rfl
  | cons a as ih =>
    rw [List.mapM_cons, except_bind_eq_ok] at h
    obtain ⟨b, -, h⟩ := h
    obtain ⟨rest, hrest, h⟩ := (except_bind_eq_ok _ _ _).mp h
    cases h
    exact congrArg (· + 1) (ih hrest)

theorem filterM_of_ok {ε α : Type} {f : α → Except ε Bool} {p : α → Bool} {as : List α}
    (h : ∀ a ∈ as, f a = .ok (p a)) : as.filterM f = .ok (as.filter p) := by
  have haux : ∀ acc, as.filterAuxM f acc = .ok ((as.filter p).reverse ++ acc) := by
    induction as with
    | nil => exact fun acc => rfl
    | cons a as ih =>
      intro acc
      obtain ⟨ha, has⟩ := List.forall_mem_cons.mp h
      rw [List.filterAuxM, ha]
      refine (ih has _).trans ?_
      cases hp : p a <;> simp [hp]
  rw [List.filterM, haux]
  simp [bind, Except.bind, pure, Except.pure]

theorem forM_of_ok {ε α : Type} {f : α → Except ε Unit} {as : List α}
    (h : ∀ a ∈ as, f a = .ok ()) : as.forM f = .ok () := by
  induction as with
  | nil => rfl
  | cons a as ih =>
    obtain ⟨ha, has⟩ := List.forall_mem_cons.mp h
    exact (congrArg (· >>= fun _ => as.forM f) ha).trans (ih has)

theorem foldlM_keeps {ε α β : Type} {P : β → Prop} {step : β → α → Except ε β}
    (hstep : ∀ b a b', P b → step b a = .ok b' → P b') {as : List α} {b b' : β} (hb : P b)
    (h : as.foldlM step b = .ok b') : P b' := by
  induction as generalizing b with
  | nil => cases h; exact hb
  | cons a as ih =>
    rw [List.foldlM_cons, except_bind_eq_ok] at h
    obtain ⟨c, hc, hrest⟩ := h
    exact ih (hstep b a c hb hc) hrest

end QueryServer
