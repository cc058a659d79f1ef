import QueryServer.Proofs.Number.Numeral
import QueryServer.Proofs.Text.Trim
import QueryServer.Server.Program
/-!
The choice of the port. Every argument that is the text of a number of sixteen bits gives that
number, every other one gives the default, and just those are warned of.
-/

namespace QueryServer

theorem Text.not_blank_of_isDigit {c : Char} (h : c.isDigit) : Text.isBlank c = false := by
  have hlow : 48 ≤ c.toNat := by
    simp only [Char.isDigit, Bool.and_eq_true, decide_eq_true_eq] at h
    exact UInt32.le_iff_toNat_le.mp h.1
  have hhigh : c.toNat ≤ 57 := by
    simp only [Char.isDigit, Bool.and_eq_true, decide_eq_true_eq] at h
    exact UInt32.le_iff_toNat_le.mp h.2
  exact Text.not_blank_of_visible (by omega) (by omega)

theorem Numeral.Denotes.not_blank {cs : List Char} {n : Nat} (h : Numeral.Denotes cs n) {c : Char}
    (hc : c ∈ cs) : Text.isBlank c = false := by
  obtain ⟨sign, digits, rfl, hsign, -, hdigits, -⟩ := h
  rcases List.mem_append.mp hc with hc | hc
  · rcases hsign with rfl | rfl
    · cases hc
    · rw [List.mem_singleton.mp hc]
      rfl
  · exact Text.not_blank_of_isDigit (hdigits c hc)

namespace Port

/-- A numeral of any size, with blanks around it or none. -/
def Denotes (argument : String) (n : Nat) : Prop :=
  ∃ before numeral after, argument.toList = before ++ numeral ++ after ∧ Text.Blanks before ∧
    Text.Blanks after ∧ Numeral.Denotes numeral n

variable {argument : String} {n : Nat} {p : Port}

theorem denotes_iff : Denotes argument n ↔ Numeral.Denotes (Text.trim argument.toList) n := by
  constructor
  · rintro ⟨before, numeral, after, htext, hbefore, hafter, hnumeral⟩
    have htrim : Text.trim argument.toList = numeral := by
      rw [htext]
      apply Text.trim_surrounded hbefore hafter
      · intro c hc
        exact hnumeral.not_blank (List.mem_of_head? hc)
      · intro c hc
        exact hnumeral.not_blank (List.mem_of_getLast? hc)
    rwa [htrim]
  · intro h
    obtain ⟨before, after, hbefore, hafter, htext⟩ := Text.exists_trim argument.toList
    exact ⟨before, _, after, htext, hbefore, hafter, h⟩

/-- A port is read exactly from the texts of its number. -/
theorem parse?_eq_some_iff : parse? argument = some p ↔ Denotes argument p.toNat := by
  rw [denotes_iff]
  unfold parse?
  constructor
  · intro h
    obtain ⟨n, hread, rfl⟩ := Option.map_eq_some_iff.mp h
    cases hok : Numeral.read 65535 (Text.trim argument.toList) with
    | error f =>
      rw [hok] at hread
      cases hread
    | ok m =>
      rw [hok] at hread
      cases hread
      obtain ⟨hdenotes, hn⟩ := Numeral.read_eq_ok_iff.mp hok
      rwa [UInt16.toNat_ofNat_of_lt' (Nat.lt_succ_of_le hn)]
  · intro h
    have hread : Numeral.read 65535 (Text.trim argument.toList) = .ok p.toNat :=
      Numeral.read_eq_ok_iff.mpr ⟨h, Nat.le_of_lt_succ p.toNat_lt⟩
    rw [hread]
    exact congrArg some (UInt16.ofNat_toNat)

theorem choose_of_denotes (h : Denotes argument n) (hn : n ≤ 65535) :
    (choose (some argument)).toNat = n := by
  have hsize : (UInt16.ofNat n).toNat = n := UInt16.toNat_ofNat_of_lt' (Nat.lt_succ_of_le hn)
  have hparse : parse? argument = some (UInt16.ofNat n) := by
    rw [parse?_eq_some_iff, hsize]
    exact h
  rw [choose, Option.bind_some, hparse, Option.getD_some, hsize]

/-- An argument is no port exactly if it is no numeral or one of a greater number. -/
theorem isInvalid_iff : isInvalid argument ↔ ∀ n, Denotes argument n → 65535 < n := by
  rw [isInvalid, Option.isNone_iff_eq_none]
  constructor
  · intro hnone n hdenotes
    apply Nat.lt_of_not_le
    intro hn
    have hsize : (UInt16.ofNat n).toNat = n := UInt16.toNat_ofNat_of_lt' (Nat.lt_succ_of_le hn)
    rw [← hsize, ← parse?_eq_some_iff, hnone] at hdenotes
    cases hdenotes
  · intro hall
    cases hparse : parse? argument with
    | none => rfl
    | some p =>
      have hlarge := hall _ (parse?_eq_some_iff.mp hparse)
      exact absurd (Nat.le_of_lt_succ p.toNat_lt) (Nat.not_le.mpr hlarge)

theorem choose_of_isInvalid (h : isInvalid argument) : choose (some argument) = fallback := by
  rw [isInvalid, Option.isNone_iff_eq_none] at h
  rw [choose, Option.bind_some, h, Option.getD_none]

end Port

namespace Program

/-- What a program has reported when its start is over. -/
def notices : Program → List Notice
  | exits _ notices _ _ => notices
  | serves _ notices _ => notices

variable {argv : List String} {env : Arguments.Environment} {a : Arguments} {d : Disk}
  {occupied : Port → Bool} {raw : String} {p : Port}

theorem notices_start (ha : Arguments.parse argv env = .ok a) :
    (start argv env d occupied).notices =
      portNotices a ++ (Start.of a.configuration d occupied).notices := by
  simp only [start, ha]
  cases (Start.of a.configuration d occupied).result <;> rfl

theorem notices_start_of_fault {f : ArgumentFault} (ha : Arguments.parse argv env = .error f) :
    (start argv env d occupied).notices = [] := by
  simp only [start, ha]
  cases f <;> rfl

theorem invalidPort_not_mem_start {c : Configuration} :
    Notice.invalidPort raw p ∉ (Start.of c d occupied).notices := by
  unfold Start.of
  split
  · exact List.not_mem_nil
  · exact List.not_mem_nil
  · dsimp only
    split <;> simp

theorem mem_portNotices_iff :
    Notice.invalidPort raw p ∈ portNotices a ↔
      a.port = some raw ∧ Port.isInvalid raw ∧ p = Port.fallback := by
  unfold portNotices
  cases hport : a.port with
  | none => simp
  | some argument =>
    dsimp only
    by_cases hinvalid : Port.isInvalid argument = true
    · rw [if_pos hinvalid, Port.choose_of_isInvalid hinvalid, List.mem_singleton]
      constructor
      · intro h
        cases h
        exact ⟨rfl, hinvalid, rfl⟩
      · rintro ⟨h, -, rfl⟩
        cases h
        rfl
    · rw [if_neg hinvalid]
      refine iff_of_false List.not_mem_nil ?_
      rintro ⟨h, hraw, -⟩
      cases h
      exact hinvalid hraw

theorem invalidPort_mem_notices_iff :
    Notice.invalidPort raw p ∈ (start argv env d occupied).notices ↔
      ∃ a, Arguments.parse argv env = .ok a ∧ a.port = some raw ∧ Port.isInvalid raw ∧
        p = Port.fallback := by
  cases ha : Arguments.parse argv env with
  | error f => simp [notices_start_of_fault ha]
  | ok a =>
    rw [notices_start ha, List.mem_append, mem_portNotices_iff]
    simp [invalidPort_not_mem_start]

/-- The port is the exact number that its argument is the text of, if that has sixteen bits, and
the default otherwise. The digits are taken up without ever passing the bound, and a program warns
of just those arguments for which it fell back. -/
theorem port_exact_or_warned :
    (∀ argument n, Port.Denotes argument n → n ≤ 65535 →
      (Port.choose (some argument)).toNat = n) ∧
    (∀ argument, (∀ n, Port.Denotes argument n → 65535 < n) →
      Port.choose (some argument) = 7778) ∧
    Port.choose none = 7778 ∧
    (∀ m ≤ 65535, ∀ ds n, List.foldlM (Numeral.push 65535) m ds = .ok n ↔
      (∀ d ∈ ds, d.isDigit) ∧ Nat.ofDigitChars 10 ds m = n ∧ n ≤ 65535) ∧
    ∀ argv env d occupied raw p,
      Notice.invalidPort raw p ∈ (start argv env d occupied).notices ↔
        ∃ a, Arguments.parse argv env = .ok a ∧ a.port = some raw ∧
          (∀ n, Port.Denotes raw n → 65535 < n) ∧ p = 7778 := by
  refine ⟨?_, ?_, rfl, ?_, ?_⟩
  · intro argument n hdenotes hn
    exact Port.choose_of_denotes hdenotes hn
  · intro argument hlarge
    exact Port.choose_of_isInvalid (Port.isInvalid_iff.mpr hlarge)
  · intro m hm ds n
    exact Numeral.foldlM_push_eq_ok_iff hm
  · intro argv env d occupied raw p
    simp only [invalidPort_mem_notices_iff, Port.isInvalid_iff]
    rfl

/-- The greatest port with blanks, a sign and zeros before it, and the number after it. -/
theorem port_exact_or_warned_bound :
    Port.Denotes "\u3000+0065535 " 65535 ∧ (Port.choose (some "\u3000+0065535 ")).toNat = 65535 ∧
      (∀ n, Port.Denotes "65536" n → 65535 < n) ∧ Port.choose (some "65536") = 7778 ∧
      Notice.invalidPort "65536" 7778 ∈ (start ["65536"] [] {} fun _ => false).notices := by
  obtain ⟨hexact, hfallback, -, -, hwarned⟩ := port_exact_or_warned
  have hbound : Port.Denotes "\u3000+0065535 " 65535 :=
    ⟨['\u3000'], "+0065535".toList, [' '], rfl, by decide, by decide,
      ['+'], "0065535".toList, rfl, .inr rfl, by decide, List.all_eq_true.mp rfl, by decide⟩
  have hlarge : ∀ n, Port.Denotes "65536" n → 65535 < n := by
    intro n hn
    have hdigits : Numeral.Denotes (Text.trim "65536".toList) 65536 :=
      ⟨[], "65536".toList, rfl, .inl rfl, by decide, List.all_eq_true.mp rfl, by decide⟩
    rw [(Port.denotes_iff.mp hn).unique hdigits]
    decide
  refine ⟨hbound, hexact _ _ hbound (Nat.le_refl _), hlarge, hfallback _ hlarge, ?_⟩
  exact (hwarned _ _ _ _ _ _).mpr ⟨{ port := some "65536" }, rfl, rfl, hlarge, rfl⟩

end Program
end QueryServer
