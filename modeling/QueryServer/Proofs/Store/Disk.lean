import QueryServer.Store
/-!
The disk under a connection: what a write leaves at its path, and which writes leave everything as
it was.
-/

namespace QueryServer
namespace Disk

variable {d : Disk} {p : Path} {f : File}

theorem lookup_replace (p : Path) (e : Entry) (entries : List (Path × Entry)) :
    (replace p e entries).lookup p = some e := by
  induction entries with
  | nil => simp [replace]
  | cons head rest ih =>
    obtain ⟨r, x⟩ := head
    by_cases hp : p = r
    · subst hp
      simp [replace]
    · have hne : (p == r) = false := beq_eq_false_iff_ne.mpr hp
      simp [replace, List.lookup_cons, hp, hne, ih]

theorem lookup_replace_ne {q : Path} (hq : q ≠ p) (e : Entry) (entries : List (Path × Entry)) :
    (replace p e entries).lookup q = entries.lookup q := by
  have hqp : (q == p) = false := beq_eq_false_iff_ne.mpr hq
  induction entries with
  | nil => simp [replace, List.lookup_cons, hqp]
  | cons head rest ih =>
    obtain ⟨r, x⟩ := head
    by_cases hp : p = r
    · subst hp
      simp [replace, List.lookup_cons, hqp]
    · simp [replace, List.lookup_cons, hp, ih]

theorem replace_of_lookup {entries : List (Path × Entry)} {e : Entry}
    (h : entries.lookup p = some e) : replace p e entries = entries := by
  induction entries with
  | nil => cases h
  | cons head rest ih =>
    obtain ⟨r, x⟩ := head
    by_cases hp : p = r
    · subst hp
      obtain rfl : x = e := by simpa [List.lookup_cons] using h
      simp [replace]
    · have hne : (p == r) = false := beq_eq_false_iff_ne.mpr hp
      have hrest : rest.lookup p = some e := by simpa [List.lookup_cons, hne] using h
      simp [replace, hp, ih hrest]

theorem replace_replace (p : Path) (e x : Entry) (entries : List (Path × Entry)) :
    replace p x (replace p e entries) = replace p x entries := by
  induction entries with
  | nil => simp [replace]
  | cons head rest ih =>
    obtain ⟨r, y⟩ := head
    by_cases hp : p = r <;> simp [replace, hp, ih]

theorem entry?_of_file? (h : d.file? p = some f) : d.entry? p = some (.file f) := by
  unfold file? at h
  split at h <;> simp_all

/-- A file is never where the working directory or the root is. -/
theorem lookup_of_file? (h : d.file? p = some f) :
    (p.isEmpty || p == ["/"]) = false ∧ d.entries.lookup p = some (.file f) := by
  have he := entry?_of_file? h
  unfold entry? at he
  split at he
  · cases he
  · exact ⟨Bool.eq_false_iff.mpr ‹_›, he⟩

theorem entry?_put (h : d.file? p = some f) (g : File) :
    Disk.entry? (d.put p g) p = some (.file g) := by
  unfold entry?
  rw [(lookup_of_file? h).1]
  exact lookup_replace p (.file g) d.entries

theorem file?_put (h : d.file? p = some f) (g : File) : (d.put p g).file? p = some g := by
  simp [file?, entry?_put h]

theorem file?_put_new (h : d.entry? p = none) (f : File) : (d.put p f).file? p = some f := by
  unfold entry? at h
  split at h
  · cases h
  · rename_i hroot
    simp only [file?, entry?, if_neg hroot, put, lookup_replace]

theorem entry?_put_ne {q : Path} (hq : q ≠ p) (d : Disk) (f : File) :
    Disk.entry? (d.put p f) q = d.entry? q := by
  simp only [put, entry?, lookup_replace_ne hq]

/-- Putting a file where there is one makes none. -/
theorem isSome_put (h : d.file? p = some f) (g : File) (q : Path) :
    ((d.put p g).file? q).isSome = (d.file? q).isSome := by
  by_cases hq : q = p
  · subst hq
    rw [file?_put h, h]
    rfl
  · rw [file?, file?, entry?_put_ne hq]

theorem put_of_file? (h : d.file? p = some f) : d.put p f = d := by
  rw [put, replace_of_lookup (lookup_of_file? h).2]

theorem put_put (d : Disk) (p : Path) (f g : File) : (d.put p f).put p g = d.put p g := by
  rw [put, put, replace_replace]
  rfl

theorem lookup_filter_ne (p q : Path) (entries : List (Path × Entry)) :
    (entries.filter (·.1 != p)).lookup q = if q = p then none else entries.lookup q := by
  induction entries with
  | nil => simp
  | cons head rest ih =>
    obtain ⟨r, x⟩ := head
    by_cases hr : r = p
    · subst hr
      rw [List.filter_cons_of_neg (by simp), ih, List.lookup_cons]
      by_cases hq : q = r
      · rw [if_pos hq, if_pos hq]
      · rw [if_neg hq, if_neg hq, beq_eq_false_iff_ne.mpr hq]
    · rw [List.filter_cons_of_pos (by simp [hr]), List.lookup_cons, List.lookup_cons, ih]
      by_cases hqr : q = r
      · subst hqr
        simp [hr]
      · rw [beq_eq_false_iff_ne.mpr hqr]

/-- Where there was no file, none appears by removing one. -/
theorem file?_remove {q : Path} (hq : d.file? q = none) (p : Path) :
    (d.remove p).file? q = none := by
  unfold remove
  split
  · simp only [file?, entry?, lookup_filter_ne] at hq ⊢
    by_cases hroot : (q.isEmpty || q == ["/"]) = true
    · simp [hroot]
    · by_cases hqp : q = p
      · simp [hqp]
      · simpa [hroot, hqp] using hq
  · exact hq

end Disk

/-- A file with other tables in it; what is no store stays as it is. -/
def File.keeping (f : File) (schema : Sql.Schema) : File :=
  match f.content, schema with
  | .tables _ logged, .ok db => { f with content := .tables db logged }
  | _, _ => f

namespace File

variable {f : File} {schema : Sql.Schema}

@[simp] theorem locked_keeping : (f.keeping schema).locked = f.locked := by
  unfold keeping
  split <;> rfl

@[simp] theorem keeping_schema : f.keeping f.content.schema = f := by
  obtain ⟨content, locked⟩ := f
  cases content <;> rfl

theorem schema_keeping {db db' : Sql.Database} (hf : f.content.schema = .ok db) :
    (f.keeping (.ok db')).content.schema = .ok db' := by
  obtain ⟨content, locked⟩ := f
  cases content with
  | foreign => cases hf
  | tables db logged => rfl

end File

namespace Store.Handle

variable {h : Handle} {d : Disk} {p : Path} {f : File}

theorem file?_of_place (hp : h.place = .path p) (d : Disk) : h.file? d = d.file? p := by
  simp [file?, hp]

/-- A connection writes to its own file only, and keeps whose right it is to write to it. -/
theorem commit_of_file? (hp : h.place = .path p) (hf : d.file? p = some f) (schema : Sql.Schema) :
    h.commit d schema = d.put p (f.keeping schema) := by
  obtain ⟨content, locked⟩ := f
  cases schema with
  | error e => simp [commit, File.keeping, Disk.put_of_file? hf]
  | ok db =>
    cases content with
    | foreign => simp [commit, hp, hf, File.keeping, Disk.put_of_file? hf]
    | tables db' logged => simp [commit, hp, hf, File.keeping]

theorem schema_of_file? (hp : h.place = .path p) (hf : d.file? p = some f) :
    h.schema d = f.content.schema := by
  simp [schema, file?_of_place hp, hf]

theorem rights_of_file? (hp : h.place = .path p) (hf : d.file? p = some f) :
    h.rights d = ⟨h.readOnly, f.locked⟩ := by
  simp [rights, file?_of_place hp, hf]

/-- A connection is in memory, or its file is there. -/
def Backed (h : Handle) (d : Disk) : Prop :=
  h.place = .memory ∨ ∃ p f, h.place = .path p ∧ d.file? p = some f

theorem commit_of_missing (hp : h.place = .path p) (hf : d.file? p = none) (schema : Sql.Schema) :
    h.commit d schema = d := by
  cases schema <;> simp [commit, hp, hf]

@[simp] theorem commit_schema (h : Handle) (d : Disk) : h.commit d (h.schema d) = d := by
  cases hp : h.place with
  | memory => simp [commit, hp]
  | path p =>
    cases hf : d.file? p with
    | none => exact commit_of_missing hp hf _
    | some f =>
      rw [schema_of_file? hp hf, commit_of_file? hp hf, File.keeping_schema, Disk.put_of_file? hf]

theorem rights_commit (h : Handle) (d : Disk) (schema : Sql.Schema) :
    h.rights (h.commit d schema) = h.rights d := by
  cases hp : h.place with
  | memory => simp [commit, hp]
  | path p =>
    cases hf : d.file? p with
    | none => rw [commit_of_missing hp hf]
    | some f =>
      rw [commit_of_file? hp hf, rights_of_file? hp (Disk.file?_put hf _), rights_of_file? hp hf,
        File.locked_keeping]

theorem Backed.schema_commit (hb : h.Backed d) {db db' : Sql.Database}
    (hschema : h.schema d = .ok db) :
    h.place = .memory ∨ h.schema (h.commit d (.ok db')) = .ok db' := by
  rcases hb with hp | ⟨p, f, hp, hf⟩
  · exact .inl hp
  · rw [schema_of_file? hp hf] at hschema
    rw [commit_of_file? hp hf, schema_of_file? hp (Disk.file?_put hf _)]
    exact .inr (File.schema_keeping hschema)

end Store.Handle
end QueryServer
