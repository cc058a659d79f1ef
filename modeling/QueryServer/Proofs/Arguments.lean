import QueryServer.Arguments
import QueryServer.Proofs.Number.Numeral
/-!
The time to wait that a command line or its environment gives: any number of 64 bits, and nothing
above them.
-/

namespace QueryServer

/-- The numbers that were given have 64 bits. -/
def Given.Fits (g : Given) : Prop :=
  ∀ n, g.busyTimeout = some n → n < UInt64.size

namespace Given

variable {g g' : Given} {s : Setting} {value : String} {n : Nat}

theorem number_of_denotes (hn : n < UInt64.size) (h : Numeral.Denotes value.toList n) :
    number s value = .ok n :=
  (except_mapError_eq_ok _ _ _).mpr (Numeral.read_eq_ok_iff.mpr ⟨h, Nat.le_sub_one_of_lt hn⟩)

theorem number_lt (h : number s value = .ok n) : n < UInt64.size := by
  have hread := (except_mapError_eq_ok _ _ _).mp h
  exact Nat.lt_of_le_pred (by decide) (Numeral.read_le hread)

theorem Fits.put (hg : g.Fits) (h : g.put s value = .ok g') : g'.Fits := by
  cases s with
  | host =>
    cases h
    exact hg
  | database =>
    simp only [Given.put] at h
    split at h
    · cases h
    · cases h
      exact hg
  | busyTimeout =>
    obtain ⟨n, hn, rfl⟩ := (except_map_eq_ok _ _ _).mp h
    intro m hm
    cases hm
    exact number_lt hn
  | frameLimit =>
    obtain ⟨n, -, rfl⟩ := (except_map_eq_ok _ _ _).mp h
    exact hg

theorem Fits.putOnce (hg : g.Fits) (h : g.putOnce s value = .ok g') : g'.Fits := by
  unfold Given.putOnce at h
  split at h
  · cases h
  · exact hg.put h

end Given

namespace Arguments
namespace Progress

variable {p p' : Progress} {argument : String}

theorem settle_fits (hp : p.given.Fits) (h : p.settle = .ok p') : p'.given.Fits := by
  unfold settle at h
  split at h
  · cases h
    exact hp
  · cases h
  · obtain ⟨g, hg, rfl⟩ := (except_map_eq_ok _ _ _).mp h
    exact hp.putOnce hg

theorem positional_fits (hp : p.given.Fits) (h : p.positional argument = .ok p') :
    p'.given.Fits := by
  obtain ⟨q, hq, hrest⟩ := (except_bind_eq_ok _ _ _).mp h
  have hfits := settle_fits hp hq
  cases hport : q.port <;> simp only [hport] at hrest <;> cases hrest <;> exact hfits

theorem word_fits (hp : p.given.Fits) (h : p.word argument = .ok p') : p'.given.Fits := by
  unfold word at h
  split at h
  · cases h
    exact hp
  · exact positional_fits hp h

theorem hyphenated_fits {shown : String} (hp : p.given.Fits)
    (h : p.hyphenated argument shown = .ok p') : p'.given.Fits := by
  unfold hyphenated at h
  split at h
  · exact word_fits hp h
  · cases h

theorem long_fits {name : List Char} {value : Option (List Char)} (hp : p.given.Fits)
    (h : p.long argument name value = .ok p') : p'.given.Fits := by
  unfold long at h
  split at h
  · split at h
    · cases h
    · obtain ⟨_, _, hhelp⟩ := (except_bind_eq_ok _ _ _).mp h
      cases hhelp
  · split at h
    · obtain ⟨q, hq, hrest⟩ := (except_bind_eq_ok _ _ _).mp h
      have hfits := settle_fits hp hq
      cases value with
      | none =>
        cases hrest
        exact hfits
      | some v =>
        obtain ⟨g, hg, hdone⟩ := (except_bind_eq_ok _ _ _).mp hrest
        cases hdone
        exact hfits.putOnce hg
    · exact hyphenated_fits hp h

theorem cluster_fits {letters : List Char} (hp : p.given.Fits)
    (h : p.cluster argument letters = .ok p') : p'.given.Fits := by
  unfold cluster at h
  split at h
  · obtain ⟨_, _, hhelp⟩ := (except_bind_eq_ok _ _ _).mp h
    cases hhelp
  · exact hyphenated_fits hp h

theorem step_fits (hp : p.given.Fits) (h : p.step argument = .ok p') : p'.given.Fits := by
  unfold step at h
  split at h
  · exact positional_fits hp h
  · split at h
    · cases h
      exact hp
    · exact long_fits hp h
    · exact cluster_fits hp h
    · exact word_fits hp h

end Progress

variable {argv : List String} {env : Environment} {a : Arguments} {n : Nat}

theorem fromEnvironment_fits {g g' : Given} {s : Setting} (hg : g.Fits)
    (h : fromEnvironment env g s = .ok g') : g'.Fits := by
  unfold fromEnvironment at h
  split at h
  · cases h
    exact hg
  · split at h
    · exact hg.put h
    · cases h
      exact hg

theorem busyTimeout_lt (h : parse argv env = .ok a) : a.busyTimeout < UInt64.size := by
  obtain ⟨p, hp, h⟩ := (except_bind_eq_ok _ _ _).mp h
  obtain ⟨q, hq, h⟩ := (except_bind_eq_ok _ _ _).mp h
  obtain ⟨g, hg, h⟩ := (except_bind_eq_ok _ _ _).mp h
  have hstart : ({} : Progress).given.Fits := by
    intro n hn
    cases hn
  have hfits : p.given.Fits := foldlM_keeps (P := fun p : Progress => p.given.Fits)
    (fun _ _ _ => Progress.step_fits) hstart hp
  have hgiven : g.Fits :=
    foldlM_keeps (P := Given.Fits) (fun _ _ _ => fromEnvironment_fits)
      (Progress.settle_fits hfits hq) hg
  cases h
  change g.busyTimeout.getD 5000 < UInt64.size
  cases hn : g.busyTimeout with
  | none => decide
  | some n => exact hgiven n hn

theorem number_toString (s : Setting) (hn : n < UInt64.size) :
    Given.number s (toString n) = .ok n := by
  have htext : (toString n).toList = digitsOf n := Nat.toList_repr
  apply Given.number_of_denotes hn
  rw [htext]
  exact Numeral.denotes_digitsOf n

theorem shape_toString (n : Nat) : shape (toString n) = .plain := by
  have htext : (toString n).toList = digitsOf n := Nat.toList_repr
  have hdigit : ∀ c ∈ digitsOf n, c.isDigit := fun _ hc => isDigit_of_mem_digitsOf hc
  have hhyphen : '-' ∉ digitsOf n := fun hc => absurd (hdigit _ hc) (by decide)
  unfold shape
  rw [htext]
  split
  all_goals first
    | rfl
    | (rename_i hshape; exact absurd (by simp [hshape]) hhyphen)

/-- Every number of 64 bits can be given as an option. -/
theorem parse_option (hn : n < UInt64.size) :
    parse ["--" ++ Setting.busyTimeout.name, toString n] [] = .ok { busyTimeout := n } := by
  have hname : Progress.step {} ("--" ++ Setting.busyTimeout.name) =
      .ok { pending := some (.busyTimeout, none) } := rfl
  have hvalue : Progress.step { pending := some (.busyTimeout, none) } (toString n) =
      .ok { pending := some (.busyTimeout, some (toString n)) } := by
    simp only [Progress.step, shape_toString]
    rfl
  have hsettled : Progress.settle { pending := some (.busyTimeout, some (toString n)) } =
      .ok { given := { busyTimeout := some n } } := by
    simp only [Progress.settle, Given.putOnce, Given.put, number_toString _ hn]
    rfl
  simp only [parse, List.foldlM_cons, List.foldlM_nil, hname, hvalue, hsettled, bind, Except.bind,
    pure, Except.pure]
  rfl

/-- Every number of 64 bits can be given by the environment. -/
theorem parse_environment (hn : n < UInt64.size) :
    parse [] [(Setting.busyTimeout.environmentName, toString n)] = .ok { busyTimeout := n } := by
  let env : Environment := [(Setting.busyTimeout.environmentName, toString n)]
  have hhost : fromEnvironment env {} .host = .ok {} := rfl
  have hdatabase : fromEnvironment env {} .database = .ok {} := rfl
  have htimeout : fromEnvironment env {} .busyTimeout = .ok { busyTimeout := some n } := by
    change Given.put {} .busyTimeout (toString n) = _
    rw [Given.put, number_toString _ hn]
    rfl
  have hlimit : fromEnvironment env { busyTimeout := some n } .frameLimit =
      .ok { busyTimeout := some n } := rfl
  have hfilled : Setting.all.foldlM (fromEnvironment env) {} = .ok { busyTimeout := some n } := by
    simp only [Setting.all, List.foldlM_cons, List.foldlM_nil, hhost, hdatabase, htimeout, hlimit,
      bind, Except.bind, pure, Except.pure]
  simp only [parse, List.foldlM_nil, pure, Except.pure, bind, Except.bind, Progress.settle]
  rw [hfilled]
  rfl

end Arguments
end QueryServer
