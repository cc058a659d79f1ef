import QueryServer.Proofs.Server.Startup
import QueryServer.Proofs.Store.Relations
/-!
The preparation of a store. It adds the relations that are missing to those that are there, it can
be repeated, and a server accepts nobody before it has succeeded.
-/

namespace QueryServer
open Sql

namespace Store

variable {s : Store} {d d₁ d' : Disk} {h : Handle} {p : Path} {a : Access} {i : Bool} {f : File}

theorem eq_of_writable {r : Rights} {db db' : Database} (h : r.writable (.ok db) = .ok db') :
    db' = db := by
  unfold Rights.writable at h
  split at h
  · cases h
  · split at h <;> cases h
    rfl

/-- A file has a log afterwards, unless it is immutable. -/
theorem tables_of_keepLog {r : Rights} {c c' : Content} (hk : keepLog r i c = .ok c') :
    ∃ db before after, c = .tables db before ∧ c' = .tables db after ∧
      (i = false → after = true) := by
  unfold keepLog at hk
  split at hk
  · cases hk
  · cases hk
    exact ⟨_, true, true, rfl, rfl, fun _ => rfl⟩
  · split at hk
    · rename_i hi
      cases hk
      exact ⟨_, false, false, rfl, rfl, fun h => by simp [h] at hi⟩
    · obtain ⟨db', hw, hk⟩ := (except_bind_eq_ok _ _ _).mp hk
      cases hk
      rw [eq_of_writable hw]
      exact ⟨_, false, true, rfl, rfl, fun _ => rfl⟩

theorem tables_of_makeRelations {r : Rights} {db : Database} {logged : Bool} {c : Content}
    (hm : makeRelations r (.tables db logged) = .ok c) :
    c = .tables (Relations.ensureAll db) logged := by
  unfold makeRelations at hm
  dsimp only at hm
  split at hm
  · rename_i hcomplete
    cases hm
    rw [Relations.ensureAll_of_complete hcomplete]
  · obtain ⟨db', hw, hm⟩ := (except_bind_eq_ok _ _ _).mp hm
    cases hm
    rw [eq_of_writable hw]

/-- A preparation that succeeds leaves in the file its tables and the relations that it lacked, and
a log unless nobody changes the file. -/
theorem file_of_prepare (hp : h.place = .path p) (hf : d.file? p = some f)
    (hdone : h.prepare d = (d', .done ())) :
    ∃ db before after, f.content = .tables db before ∧ (h.immutable = false → after = true) ∧
      d' = d.put p { f with content := .tables (Relations.ensureAll db) after } := by
  simp only [Handle.prepare, hp, Handle.file?_of_place hp, hf] at hdone
  split at hdone
  · cases hdone
  · rename_i logged hkept
    obtain ⟨db, before, after, hcontent, rfl, hlog⟩ := tables_of_keepLog hkept
    split at hdone
    · cases hdone
    · rename_i made hmade
      cases hdone
      rw [tables_of_makeRelations hmade]
      exact ⟨db, before, after, hcontent, hlog, rfl⟩

theorem keepLog_of_kept {r : Rights} {db : Database} {logged : Bool}
    (hlog : i = false → logged = true) :
    keepLog r i (.tables db logged) = .ok (.tables db logged) := by
  cases logged with
  | true => rfl
  | false =>
    have hi : i = true := by simpa using hlog
    simp [keepLog, hi]

/-- Nothing is done where everything is there. -/
theorem prepare_of_complete {db : Database} {logged : Bool} (hp : h.place = .path p)
    (hf : d.file? p = some f) (hcontent : f.content = .tables db logged)
    (hlog : h.immutable = false → logged = true) (hc : Relations.complete db) :
    h.prepare d = (d, .done ()) := by
  have hsame : { f with content := .tables db logged } = f := by rw [← hcontent]
  simp only [Handle.prepare, hp, Handle.file?_of_place hp, hf, hcontent, keepLog_of_kept hlog,
    makeRelations, hc, if_true, hsame, Disk.put_of_file? hf]

/-- The tables of a store before it was prepared; a store that is missing has none. -/
def Before (d : Disk) (p : Path) (db : Database) (locked : Bool) : Prop :=
  (∃ logged, d.file? p = some ⟨.tables db logged, locked⟩) ∨
    d.entry? p = none ∧ db = {} ∧ locked = false

/-- The store was prepared: its file has the tables that it had and the missing relations, and all
other files are as they were. It has a log unless the store's name forbids to change it. -/
structure Conserved (p : Path) (immutable : Bool) (d d' : Disk) : Prop where
  file : ∃ before after logged locked, Before d p before locked ∧
    d'.file? p = some ⟨.tables after logged, locked⟩ ∧ (immutable = false → logged = true) ∧
      Relations.Completion before after
  others : ∀ q, q ≠ p → Disk.entry? d' q = d.entry? q

theorem conserved_of_bootstrap (hl : Location.ofName s.name .create = .ok ⟨.path p, a, i⟩)
    (hdone : s.bootstrap d = (d', .done ())) : Conserved p i d d' := by
  obtain ⟨-, d₁, h, ho, hprepare⟩ := opened_of_bootstrap hdone
  obtain ⟨rfl, ⟨⟨f, hf⟩, rfl⟩ | ⟨-, hnew, rfl⟩⟩ := opened_cases hl ho
  · obtain ⟨db, before, after, hcontent, hlog, rfl⟩ := file_of_prepare rfl hf hprepare
    refine ⟨⟨db, Relations.ensureAll db, after, f.locked, .inl ⟨before, ?_⟩,
      Disk.file?_put hf _, hlog, Relations.completion_ensureAll db⟩,
      fun q hq => Disk.entry?_put_ne hq _ _⟩
    rw [hf, ← hcontent]
  · have hf := Disk.file?_put_new hnew File.empty
    obtain ⟨db, before, after, hcontent, hlog, rfl⟩ := file_of_prepare rfl hf hprepare
    have hempty : db = {} := by
      cases hcontent
      rfl
    refine ⟨⟨db, Relations.ensureAll db, after, File.empty.locked, .inr ⟨hnew, hempty, rfl⟩,
      Disk.file?_put hf _, hlog, Relations.completion_ensureAll db⟩, fun q hq => ?_⟩
    rw [Disk.entry?_put_ne hq, Disk.entry?_put_ne hq]

end Store

end QueryServer
