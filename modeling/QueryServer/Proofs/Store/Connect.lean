import QueryServer.Proofs.Sequence
import QueryServer.Proofs.Store.Disk
/-!
Opening a store. The options of an address only narrow what is asked for, unless one of them asks
for memory first; so the names for which a connection makes a file are few. What it opens depends
on what is at the store's path.
-/

namespace QueryServer
namespace Location

variable {l l' : Location} {name value : String} {wanted : Access} {os : List (String × String)}

/-- An option that does not ask for memory gives no more than there was. -/
theorem rank_applyOption (h : l.applyOption name value = .ok l')
    (hm : (name, value) ≠ ("mode", "memory")) : rank l'.access ≤ rank l.access := by
  unfold applyOption at h
  dsimp only at h
  split at h
  · rename_i hmode
    split at h
    -- the three accesses to a file
    iterate 3
      split at h
      · cases h
        assumption
      · cases h
    · exact absurd (congrArg (·, "memory") hmode) hm
    · cases h
  · split at h
    · split at h
      · cases h
        exact Nat.le_refl _
      · cases h
    · cases h
      exact Nat.le_refl _

theorem rank_options (h : os.foldlM (fun l (name, value) => l.applyOption name value) l = .ok l')
    (hm : ("mode", "memory") ∉ os) : rank l'.access ≤ rank l.access := by
  induction os generalizing l with
  | nil =>
    cases h
    exact Nat.le_refl _
  | cons o os ih =>
    rw [List.foldlM_cons] at h
    obtain ⟨l₁, hfirst, hrest⟩ := (except_bind_eq_ok _ _ _).mp h
    rw [List.mem_cons, not_or] at hm
    exact Nat.le_trans (ih hrest hm.2) (rank_applyOption hfirst (Ne.symm hm.1))

theorem access_checkSystem (h : l.checkSystem os = .ok l') : l'.access = l.access := by
  unfold checkSystem at h
  split at h
  · cases h; rfl
  · split at h
    · cases h; rfl
    · split at h
      · cases h; rfl
      · cases h

@[simp] theorem access_placed (l : Location) : l.placed.access = l.access := by
  unfold placed
  split <;> rfl

/-- The options in a store's name. -/
def optionsOf (name : String) : List (String × String) :=
  match name.toList with
  | 'f' :: 'i' :: 'l' :: 'e' :: ':' :: rest =>
    match parts rest with
    | .ok (_, os) => os
    | .error _ => []
  | _ => []

/-- Nothing in a name gives more than was wanted, unless it asks for memory at some place. -/
theorem rank_ofName (h : ofName name wanted = .ok l) (hm : ("mode", "memory") ∉ optionsOf name) :
    rank l.access ≤ rank wanted := by
  unfold ofName at h
  dsimp only at h
  split at h
  · cases h
  · unfold ofText at h
    unfold optionsOf at hm
    split at h
    · rename_i rest hname
      obtain ⟨⟨file, os⟩, hparts, h⟩ := (except_bind_eq_ok _ _ _).mp h
      obtain ⟨l₁, hoptions, hsystem⟩ := (except_bind_eq_ok _ _ _).mp h
      simp only [hname, hparts] at hm
      rw [access_checkSystem hsystem, access_placed]
      exact rank_options hoptions hm
    · cases h
      exact Nat.le_refl _

end Location

namespace Store

variable {s : Store} {d d' d₁ d₂ : Disk} {h : Handle} {p : Path} {a wanted : Access} {i : Bool}
  {f : OpenFault}

/-- The connection to a file. -/
def fileHandle (p : Path) (a : Access) (i : Bool) : Handle :=
  ⟨.path p, a == .read || i, i⟩

/-- A file that was opened was there, or was made empty. -/
theorem opened_cases (hl : Location.ofName s.name wanted = .ok ⟨.path p, a, i⟩)
    (ho : s.opened wanted d = .ok (d₁, h)) :
    h = fileHandle p a i ∧
      ((∃ f, d.file? p = some f) ∧ d₁ = d ∨
        (a = .create ∧ d.isDirectory p.dropLast) ∧ d.entry? p = none ∧ d₁ = d.put p File.empty) := by
  have ho : openAt s.name ⟨.path p, a, i⟩ d = .ok (d₁, h) := by
    simpa [opened, hl, bind, Except.bind] using ho
  simp only [openAt] at ho
  split at ho
  · rename_i f hf
    cases ho
    exact ⟨rfl, .inl ⟨⟨f, by simp [Disk.file?, hf]⟩, rfl⟩⟩
  · cases ho
  · rename_i hnew
    split at ho
    · rename_i hmake
      cases ho
      exact ⟨rfl, .inr ⟨hmake, hnew, rfl⟩⟩
    · cases ho

theorem opened_of_file? {f : File} (hl : Location.ofName s.name wanted = .ok ⟨.path p, a, i⟩)
    (hf : d.file? p = some f) : s.opened wanted d = .ok (d, fileHandle p a i) := by
  simp [opened, hl, bind, Except.bind, openAt, Disk.entry?_of_file? hf, Handle.ofLocation,
    fileHandle]

theorem opened_of_new (hl : Location.ofName s.name wanted = .ok ⟨.path p, .create, i⟩)
    (hnew : d.entry? p = none) (hdir : d.isDirectory p.dropLast) :
    s.opened wanted d = .ok (d.put p File.empty, fileHandle p .create i) := by
  simp [opened, hl, bind, Except.bind, openAt, hnew, hdir, Handle.ofLocation, fileHandle]

theorem opened_of_memory (hl : Location.ofName s.name wanted = .ok ⟨.memory, a, i⟩) (d : Disk) :
    s.opened wanted d = .ok (d, ⟨.memory, a == .read, false⟩) := by
  simp [opened, hl, bind, Except.bind, openAt, Handle.ofLocation]

/-- All that opening a store can come to. -/
inductive Opened (s : Store) (wanted : Access) (d : Disk) : Disk → Handle → Prop where
  | memory (a : Access) (i : Bool) (hl : Location.ofName s.name wanted = .ok ⟨.memory, a, i⟩) :
      Opened s wanted d d ⟨.memory, a == .read, false⟩
  | found (p : Path) (a : Access) (i : Bool) (f : File)
      (hl : Location.ofName s.name wanted = .ok ⟨.path p, a, i⟩) (hf : d.file? p = some f) :
      Opened s wanted d d (fileHandle p a i)
  | made (p : Path) (i : Bool) (hl : Location.ofName s.name wanted = .ok ⟨.path p, .create, i⟩)
      (hnew : d.entry? p = none) (hdir : d.isDirectory p.dropLast) :
      Opened s wanted d (d.put p File.empty) (fileHandle p .create i)

theorem opened_iff : s.opened wanted d = .ok (d', h) ↔ Opened s wanted d d' h := by
  constructor
  · intro ho
    obtain ⟨⟨place, a, i⟩, hl, -⟩ := (except_bind_eq_ok _ _ _).mp ho
    cases place with
    | memory =>
      rw [opened_of_memory hl] at ho
      cases ho
      exact .memory a i hl
    | path p =>
      obtain ⟨rfl, ⟨⟨f, hf⟩, rfl⟩ | ⟨⟨rfl, hdir⟩, hnew, rfl⟩⟩ := opened_cases hl ho
      · exact .found p a i f hl hf
      · exact .made p i hl hnew hdir
  · intro ho
    cases ho with
    | memory a i hl => exact opened_of_memory hl d
    | found p a i f hl hf => exact opened_of_file? hl hf
    | made p i hl hnew hdir => exact opened_of_new hl hnew hdir

theorem Opened.backed (ho : Opened s wanted d d' h) : h.Backed d' := by
  cases ho with
  | memory a i hl => exact .inl rfl
  | found p a i f hl hf => exact .inr ⟨p, f, rfl, hf⟩
  | made p i hl hnew hdir => exact .inr ⟨p, _, rfl, Disk.file?_put_new hnew _⟩

/-- What was opened is opened again, whatever the file holds by then. -/
theorem Opened.put (ho : Opened s wanted d d' h) (hp : h.place = .path p) (g : File) :
    s.opened wanted (d'.put p g) = .ok (d'.put p g, h) := by
  cases ho with
  | memory a i hl => cases hp
  | found p a i f hl hf =>
    cases hp
    exact opened_of_file? hl (Disk.file?_put hf g)
  | made p i hl hnew hdir =>
    cases hp
    exact opened_of_file? hl (Disk.file?_put (Disk.file?_put_new hnew _) g)

theorem connect_of_opened (ho : s.opened .write d = .ok (d', h)) :
    s.connect d = (d', s.setTimeout (.done h)) := by
  simp [connect, ho]

theorem connect_of_unopened (ho : s.opened .write d = .error f) :
    s.connect d = (d, .failed (.opening f)) := by
  simp [connect, ho]

theorem connect_of_file? {f : File} (hl : Location.ofName s.name .write = .ok ⟨.path p, a, i⟩)
    (hf : d.file? p = some f) (hlong : s.busyTimeout ≤ longestTimeout) :
    s.connect d = (d, .done (fileHandle p a i)) := by
  rw [connect_of_opened (opened_of_file? hl hf), setTimeout, if_neg (Nat.not_lt.mpr hlong)]

theorem opened_of_connect (hc : s.connect d = (d', .done h)) :
    Opened s .write d d' h ∧ s.busyTimeout ≤ longestTimeout := by
  unfold connect setTimeout at hc
  split at hc
  · cases hc
  · rename_i d₁ h₁ ho
    split at hc
    · cases hc
    · rename_i hlong
      cases hc
      exact ⟨opened_iff.mp ho, Nat.not_lt.mp hlong⟩

theorem connect_of_opens (ho : Opened s .write d d' h) (hlong : s.busyTimeout ≤ longestTimeout) :
    s.connect d = (d', .done h) := by
  rw [connect_of_opened (opened_iff.mpr ho), setTimeout, if_neg (Nat.not_lt.mpr hlong)]

theorem backed_of_connect (hc : s.connect d = (d', .done h)) : h.Backed d' :=
  (opened_of_connect hc).1.backed

theorem connect_put (hc : s.connect d = (d', .done h)) (hp : h.place = .path p) (g : File) :
    s.connect (d'.put p g) = (d'.put p g, .done h) := by
  obtain ⟨ho, hlong⟩ := opened_of_connect hc
  exact connect_of_opens (opened_iff.mp (ho.put hp g)) hlong

/-- A connection makes the file at this path: its name asks for that although no command does, and
there is nothing yet but the directory. -/
def Makes (s : Store) (d : Disk) (p : Path) : Prop :=
  (∃ i, Location.ofName s.name .write = .ok ⟨.path p, .create, i⟩) ∧ d.entry? p = none ∧
    d.isDirectory p.dropLast

/-- A connection leaves the disk as it is, but for a file that it makes. -/
theorem disk_connect (s : Store) (d : Disk) :
    (s.connect d).1 = d ∧ (∀ p, ¬ s.Makes d p) ∨
      ∃ p, s.Makes d p ∧ (s.connect d).1 = d.put p File.empty := by
  have hmakes : ∀ {p}, s.Makes d p → ∃ h, s.opened .write d = .ok (d.put p File.empty, h) := by
    rintro p ⟨⟨i, hl⟩, hnew, hdir⟩
    exact ⟨_, opened_of_new hl hnew hdir⟩
  cases ho : s.opened .write d with
  | error f =>
    refine .inl ⟨by rw [connect_of_unopened ho], fun p hp => ?_⟩
    obtain ⟨h, hmade⟩ := hmakes hp
    rw [ho] at hmade
    cases hmade
  | ok r =>
    obtain ⟨d', h⟩ := r
    rw [connect_of_opened ho]
    cases opened_iff.mp ho with
    | memory a i hl =>
      refine .inl ⟨rfl, fun p hp => ?_⟩
      obtain ⟨⟨j, hl'⟩, -⟩ := hp
      rw [hl] at hl'
      cases hl'
    | found p a i f hl hf =>
      refine .inl ⟨rfl, fun q hq => ?_⟩
      obtain ⟨⟨j, hl'⟩, hnew, -⟩ := hq
      rw [hl] at hl'
      cases hl'
      rw [Disk.entry?_of_file? hf] at hnew
      cases hnew
    | made p i hl hnew hdir => exact .inr ⟨p, ⟨⟨i, hl⟩, hnew, hdir⟩, rfl⟩

/-- A name that asks for a file asks for memory before. -/
theorem memory_of_makes (hm : s.Makes d p) : ("mode", "memory") ∈ Location.optionsOf s.name := by
  refine Decidable.byContradiction fun hnone => ?_
  obtain ⟨⟨i, hl⟩, -⟩ := hm
  have hrank := Location.rank_ofName hl hnone
  simp [Location.rank] at hrank

end Store
end QueryServer
