import QueryServer.Proofs.Executor.Session
import QueryServer.Proofs.Sql.Entry
import QueryServer.Proofs.Store.Opening
import QueryServer.Server.Start
/-!
Stores that hold users. A store that has just been made holds none; a command that enters one whose
name is not there yet is answered with success and leaves one more.
-/

namespace QueryServer
open Sql

namespace Store

/-- The store is kept in a file at a path, which is made if it is missing and may be written. -/
structure KeptAt (s : Store) (p : Path) : Prop where
  making : Location.ofName s.name .create = .ok ⟨.path p, .create, false⟩
  opening : Location.ofName s.name .write = .ok ⟨.path p, .write, false⟩

/-- Connections to the store see these tables in its file and may write to it. -/
def Holds (s : Store) (d : Disk) (db : Database) : Prop :=
  ∃ p logged, s.connect d = (d, .done ⟨.path p, false, false⟩) ∧
    d.file? p = some ⟨.tables db logged, false⟩

variable {s : Store} {d d' : Disk} {db : Database} {t : Table} {c : Command} {row : Tuple}

/-- A name that is no address, and not the one for a store in memory, is a path. -/
theorem kept_of_plain (hfile : ¬ "file:".toList <+: s.name.toList) (hempty : s.name.toList ≠ [])
    (hmemory : s.name.toList ≠ ":memory:".toList) (hzero : '\x00' ∉ s.name.toList) :
    s.KeptAt s.plainPath := by
  have hplain : (s.name.toList.isEmpty || s.name.toList == ":memory:".toList) = false :=
    Bool.or_eq_false_iff.mpr ⟨List.isEmpty_eq_false_iff.mpr hempty, beq_eq_false_iff_ne.mpr hmemory⟩
  have htext : ∀ wanted,
      Location.ofText wanted s.name.toList = .ok ⟨.path s.plainPath, wanted, false⟩ := by
    intro wanted
    unfold Location.ofText
    split
    · rename_i rest hname
      exact absurd ⟨rest, hname.symm⟩ hfile
    · rw [Location.placeOf, hplain]
      rfl
  have hname : ∀ wanted,
      Location.ofName s.name wanted = .ok ⟨.path s.plainPath, wanted, false⟩ := by
    intro wanted
    have hwhole : s.name.toList.takeWhile (· != '\x00') = s.name.toList := by
      rw [List.takeWhile_eq_self_iff]
      exact fun c hc => by simpa using ne_of_mem_of_not_mem hc hzero
    rw [Location.ofName, hwhole, String.length_toList]
    exact (if_neg (Nat.lt_irrefl _)).trans (htext wanted)
  exact ⟨hname .create, hname .write⟩

theorem kept_of_path {p : Path} (hp : s.plainPath = p) (hfile : ¬ "file:".toList <+: s.name.toList)
    (hempty : s.name.toList ≠ []) (hmemory : s.name.toList ≠ ":memory:".toList)
    (hzero : '\x00' ∉ s.name.toList) : s.KeptAt p :=
  hp ▸ kept_of_plain hfile hempty hmemory hzero

/-- The relations refer to nothing. -/
theorem supports_ensureAll (replaces : Bool) : (Relations.ensureAll {}).Supports
    { Relations.users with pages := [2, 3], serial := 1 } replaces :=
  nofun

theorem hasUsers_ensureAll : (Relations.ensureAll {}).HasUsers
    { Relations.users with pages := [2, 3], serial := 1 } where
  toForUsers := .of_shape rfl
  found := rfl
  name := rfl
  shape := rfl
  ordered := List.Pairwise.nil
  supported := supports_ensureAll false

theorem prepare_empty {p : Path} (hfile : d.file? p = some File.empty) :
    Handle.prepare ⟨.path p, false, false⟩ d =
      (d.put p ⟨.tables (Relations.ensureAll {}) true, false⟩, .done ()) := by
  have hrights : Handle.rights ⟨.path p, false, false⟩ d = ⟨false, false⟩ :=
    Handle.rights_of_file? rfl hfile
  have hopened : Handle.file? ⟨.path p, false, false⟩ d = some File.empty := hfile
  simp only [Handle.prepare, hopened, hrights, File.empty, keepLog, makeRelations,
    Rights.writable, Bool.false_eq_true, if_false]
  rfl

theorem bootstrap_of_new {p : Path} (hs : s.KeptAt p) (hnew : d.entry? p = none)
    (hdir : d.isDirectory p.dropLast) (hlong : s.busyTimeout ≤ longestTimeout) :
    s.bootstrap d = (d.put p ⟨.tables (Relations.ensureAll {}) true, false⟩, .done ()) := by
  have hprepared := prepare_empty (Disk.file?_put_new hnew File.empty)
  rw [Disk.put_put] at hprepared
  rw [bootstrap_of_opened (opened_of_new hs.making hnew hdir), if_neg (Nat.not_lt.mpr hlong)]
  exact hprepared

/-- A store that is made where there was nothing has a table for users, and nobody in it. -/
theorem holds_of_bootstrap {p : Path} (hs : s.KeptAt p) (hnew : d.entry? p = none)
    (hdone : s.bootstrap d = (d', .done ())) :
    ∃ db t, s.Holds d' db ∧ db.HasUsers t ∧ db.Supports t true ∧ t.rows = [] := by
  obtain ⟨hlong, d₁, h, ho, -⟩ := opened_of_bootstrap hdone
  obtain ⟨-, ⟨⟨f, hf⟩, -⟩ | ⟨⟨-, hdir⟩, -, -⟩⟩ := opened_cases hs.making ho
  · rw [Disk.entry?_of_file? hf] at hnew
    cases hnew
  · rw [bootstrap_of_new hs hnew hdir hlong] at hdone
    cases hdone
    have hfile := Disk.file?_put_new hnew ⟨.tables (Relations.ensureAll {}) true, false⟩
    exact ⟨_, _, ⟨p, true, connect_of_file? hs.opening hfile hlong, hfile⟩, hasUsers_ensureAll,
      supports_ensureAll true, rfl⟩

theorem runText_of_insertion {i : Insertion}
    (honly : Prepared.only? (.ok db) c.text = .ok (some ⟨.insert i, 0⟩)) (hwrite : c.kind = .write) :
    Executor.runText ⟨false, false⟩ (.ok db) c =
      Executor.conclude .write (.ofChange (i.run db)) := by
  simp only [Executor.runText, honly, Prepared.run, if_true, Plan.run, Effect.write,
    Rights.writable, Bool.false_eq_true, if_false, hwrite]

theorem execution_of_file? {p : Path} {logged : Bool} {db' : Database} {r : Response}
    (hconnect : s.connect d = (d, .done ⟨.path p, false, false⟩))
    (hfile : d.file? p = some ⟨.tables db logged, false⟩) (hblank : c.isBlank = false)
    (htext : Executor.runText ⟨false, false⟩ (.ok db) c = (.ok db', r)) :
    s.execution d c = (d.put p ⟨.tables db' logged, false⟩, r) := by
  have hschema : Handle.schema ⟨.path p, false, false⟩ d = .ok db :=
    Handle.schema_of_file? rfl hfile
  have hrights : Handle.rights ⟨.path p, false, false⟩ d = ⟨false, false⟩ :=
    Handle.rights_of_file? rfl hfile
  have hcommit : Handle.commit ⟨.path p, false, false⟩ d (.ok db') =
      d.put p ⟨.tables db' logged, false⟩ := Handle.commit_of_file? rfl hfile _
  simp only [execution, Executor.execute, hblank, Bool.false_eq_true, if_false, hconnect,
    hrights, hschema, htext, hcommit, Executor.answer]

theorem execution_of_enters (hd : s.Holds d db) (hu : db.KeepsUsers t) (hc : c.Enters db row)
    (hnew : ∀ x ∈ t.rows, username x.values ≠ username row)
    (hroom : ∃ n, t.row? n = none) :
    ∃ d' db' t' n, s.execution d c = (d', .success) ∧ s.Holds d' db' ∧ db'.KeepsUsers t' ∧
      t'.shape = t.shape ∧ (db.Supports t true → db'.Supports t' true) ∧
      t'.rows.Perm (⟨n, row⟩ :: t.rows) := by
  obtain ⟨p, logged, hconnect, hfile⟩ := hd
  obtain ⟨hblank, hwrite⟩ := Command.write_of_enters hc
  obtain ⟨i, honly, henters⟩ := hc
  obtain ⟨t', n, rows, hrun, hu', hshape, hs', hperm⟩ :=
    Insertion.run_of_enters hu henters hnew hroom
  have htext : Executor.runText ⟨false, false⟩ (.ok db) c = (.ok (db.put t'), .success) := by
    rw [runText_of_insertion honly hwrite, hrun]
    rfl
  exact ⟨_, db.put t', t', n, execution_of_file? hconnect hfile hblank htext,
    ⟨p, logged, connect_put hconnect rfl _, Disk.file?_put hfile _⟩, hu', hshape, hs',
    hperm⟩

/-- When all numbers of rows are taken, nobody can be entered. -/
theorem execution_of_taken (hd : s.Holds d db) (hu : db.KeepsUsers t) (hc : c.Enters db row)
    (htaken : ∀ n, t.row? n ≠ none) :
    (s.execution d c).2 = .failure "database or disk is full" := by
  obtain ⟨p, logged, hconnect, hfile⟩ := hd
  obtain ⟨hblank, hwrite⟩ := Command.write_of_enters hc
  obtain ⟨i, honly, henters⟩ := hc
  have hrun := Insertion.run_of_taken hu henters htaken
  have htext : Executor.runText ⟨false, false⟩ (.ok db) c =
      (.ok db, .failure "database or disk is full") := by
    rw [runText_of_insertion honly hwrite, hrun]
    rfl
  rw [execution_of_file? hconnect hfile hblank htext]

end Store
end QueryServer
