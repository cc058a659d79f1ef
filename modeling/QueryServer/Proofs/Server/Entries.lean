import QueryServer.Proofs.Executor.Holding
import QueryServer.Proofs.Server.Sharing
/-!
Users that many clients enter at once. Main statement: the commands of all clients are executed one
after another, each frame once, in its client's order and for its reply; so where all of them enter
users under different names, all are answered with success and every user is there.
-/

namespace QueryServer.Service
open Sql

/-- Users with the values that `row` tells are entered in these turns. Their names differ from one
another and from those in the table. -/
structure Entering (store : Store) (t : Table) (ts : List (Turn Disk)) (row : Turn Disk → Tuple) :
    Prop where
  enters : ∀ x ∈ ts, ∀ db t, store.Holds x.state db → db.HasUsers t → db.Supports t true →
    x.command.Enters db (row x)
  distinct : (ts.map fun x => username (row x)).Nodup
  absent : ∀ x ∈ ts, ∀ r ∈ t.rows, username r.values ≠ username (row x)
  /-- There are numbers for all rows. -/
  room : t.rows.length + ts.length ≤ Numeric.maxInt

/-- All turns have been answered with success, and their users are in the table beside those that
were there. -/
structure Entered (store : Store) (t : Table) (ts : List (Turn Disk)) (row : Turn Disk → Tuple)
    (d : Disk) : Prop where
  answered : ∀ x ∈ ts, x.response store.execution = .success
  rows : ∃ db t' added, store.Holds d db ∧ db.HasUsers t' ∧ t'.rows.Perm (t.rows ++ added) ∧
    added.map (·.values) = ts.map row

variable {store : Store} {s : Service Disk} {db : Database} {t t' : Table} {x : Turn Disk}
  {ts : List (Turn Disk)} {row : Turn Disk → Tuple} {n : Int64} {d : Disk}

/-- With one user entered, the others are still to be entered. -/
theorem Entering.rest (ht : Entering store t (x :: ts) row)
    (hrows : t'.rows.Perm (⟨n, row x⟩ :: t.rows)) : Entering store t' ts row where
  enters y hy := ht.enters y (List.mem_cons_of_mem x hy)
  distinct := (List.nodup_cons.mp ht.distinct).2
  absent y hy r hr := by
    rcases List.mem_cons.mp (hrows.mem_iff.mp hr) with rfl | hr
    · intro he
      exact (List.nodup_cons.mp ht.distinct).1 (List.mem_map.mpr ⟨y, hy, he.symm⟩)
    · exact ht.absent y (List.mem_cons_of_mem x hy) r hr
  room := by
    have hroom := ht.room
    rw [hrows.length_eq]
    simp only [List.length_cons] at hroom ⊢
    omega

theorem Entered.cons (hx : x.response store.execution = .success)
    (hrows : t'.rows.Perm (⟨n, row x⟩ :: t.rows)) (he : Entered store t' ts row d) :
    Entered store t (x :: ts) row d where
  answered y hy := by
    rcases List.mem_cons.mp hy with rfl | hy
    · exact hx
    · exact he.answered y hy
  rows := by
    obtain ⟨db, t'', added, hd, hu, hperm, hvalues⟩ := he.rows
    refine ⟨db, t'', ⟨n, row x⟩ :: added, hd, hu, ?_, congrArg (row x :: ·) hvalues⟩
    exact hperm.trans ((hrows.append_right added).trans List.perm_middle.symm)

/-- Every turn adds its user to those that are there. -/
theorem entered_run (hd : store.Holds s.state db) (hu : db.HasUsers t) (hr : db.Supports t true)
    (es : List Event) (ht : Entering store t (s.turns store.execution es) row) :
    Entered store t (s.turns store.execution es) row (s.run store.execution es).state := by
  induction es generalizing s db t with
  | nil => exact ⟨by simp [turns], db, t, [], hd, hu, by simp, rfl⟩
  | cons e es ih =>
    have hstate := s.state_step store.execution e
    cases hturn : s.turn? e with
    | none =>
      rw [hturn] at hstate
      have hsame : s.turns store.execution (e :: es) =
          (s.step store.execution e).turns store.execution es := by simp [turns, hturn]
      rw [hsame] at ht ⊢
      exact ih (hstate ▸ hd) hu hr ht
    | some x =>
      rw [hturn] at hstate
      have hcons : s.turns store.execution (e :: es) =
          x :: (s.step store.execution e).turns store.execution es := by simp [turns, hturn]
      rw [hcons] at ht ⊢
      -- this turn comes first, and its user is one of those that the later turns find
      have hx : x.state = s.state := (id_of_turn? hturn).2
      have hhere := ht.enters x List.mem_cons_self db t (hx ▸ hd) hu hr
      have hroom : ∃ n, t.row? n = none := by
        have hroom := ht.room
        have hmax : Numeric.maxInt = 2 ^ 63 - 1 := rfl
        simp only [List.length_cons] at hroom
        obtain ⟨i, -, hi⟩ := exists_unused (t := t) (Nat.lt_succ_self _) (by omega)
        exact ⟨_, hi⟩
      obtain ⟨d', db', t', n, hrun, hd', hu', hshape, hr', hrows⟩ := Store.execution_of_enters
        (hx ▸ hd) hu.toKeepsUsers hhere (ht.absent x List.mem_cons_self) hroom
      have hafter : (s.step store.execution e).state = d' :=
        hstate.trans (congrArg Prod.fst hrun)
      exact .cons (congrArg Prod.snd hrun) hrows (ih (hafter ▸ hd')
        ⟨hu', hshape.trans hu.shape⟩ (hr' hr) (ht.rest hrows))

/-- The values that a turn's command lists for a user. -/
def Turn.entry (x : Turn Disk) : Tuple :=
  x.command.listed?.getD []

theorem entries_of_listed {rows : List Tuple}
    (hlisted : (ts.map (·.command)).map (·.listed?) = rows.map some) :
    (∀ x ∈ ts, x.command.listed? = some x.entry) ∧ ts.map (·.entry) = rows := by
  rw [List.map_map] at hlisted
  constructor
  · intro x hx
    have hmem : x.command.listed? ∈ rows.map some := hlisted ▸ List.mem_map_of_mem hx
    obtain ⟨row, -, hrow⟩ := List.mem_map.mp hmem
    rw [Turn.entry, ← hrow]
    rfl
  · have hvalues := congrArg (List.map fun o : Option Tuple => o.getD []) hlisted
    rw [List.map_map, List.map_map] at hvalues
    exact hvalues.trans (List.map_id rows)

/-- Commands that list the values of users enter them whatever else is in the store. -/
theorem entering_of_listed {rows : List Tuple}
    (hlisted : (ts.map (·.command)).map (·.listed?) = rows.map some)
    (hdistinct : (rows.map username).Nodup)
    (habsent : ∀ row ∈ rows, ∀ r ∈ t.rows, username r.values ≠ username row)
    (hroom : t.rows.length + rows.length ≤ Numeric.maxInt) :
    Entering store t ts (·.entry) := by
  obtain ⟨hentries, rfl⟩ := entries_of_listed hlisted
  refine ⟨fun x hx db t _ hu hr => ?_, ?_, fun x hx => ?_, ?_⟩
  · exact Command.enters_of_listed (hentries x hx) hu.toKeepsUsers fun _ => hr
  · rwa [List.map_map] at hdistinct
  · exact habsent x.entry (List.mem_map_of_mem hx)
  · rwa [List.length_map] at hroom

/-- Whatever clients do and in whichever order they are served: no frame is lost or executed twice,
and each client gets its own replies. Where they all enter users, none of them is lost. That needs a
store whose name lets commands write to its file, and numbers for all rows: a store that was just
made is such a one if it is kept at a path, and has no foreign keys. -/
theorem no_update_lost (store : Store) (limit : Nat) (d : Disk) (es : List Event) :
    let s : Service Disk := { state := d, frameLimit := limit }
    Orderly store.execution s es ∧
    (∀ db t row, store.Holds d db → db.HasUsers t → db.Supports t true →
      Entering store t (s.turns store.execution es) row →
      Entered store t (s.turns store.execution es) row (s.run store.execution es).state) ∧
    ∀ p d₀, store.KeptAt p → d₀.entry? p = none → store.bootstrap d₀ = (d, .done ()) →
      ∃ db t, store.Holds d db ∧ db.HasUsers t ∧ db.Supports t true ∧ t.rows = [] :=
  ⟨orderly_run store.execution rfl es, fun _ _ _ hd hu hr ht => entered_run hd hu hr es ht,
    fun _ _ hs hnew hdone => Store.holds_of_bootstrap hs hnew hdone⟩

/-- Two clients and three users: the first client has sent its second command before its first one
has been answered, and the second client is served in between. -/
theorem no_update_lost_between :
    let store : Store := ⟨"a.db", 0⟩
    let d : Disk := (store.bootstrap {}).1
    let enter (name : String) : Command := ⟨"INSERT INTO users VALUES ('" ++ name ++ "', '', 0)"⟩
    let cs := ["bob", "ann", "cyd"].map enter
    let rows : List Tuple := ["bob", "ann", "cyd"].map fun name =>
      [.ofString name, .ofString "", .ofString "0"]
    let es : List Event := [.connect 0 [], .connect 1 [],
      .arrive 0 (.chunk ((enter "ann").text.toUTF8.toList ++ [0] ++
        (enter "cyd").text.toUTF8.toList ++ [0])),
      .arrive 1 (.chunk ((enter "bob").text.toUTF8.toList ++ [0])),
      .proceed 0, .proceed 1, .proceed 1, .proceed 0, .proceed 0, .proceed 0, .proceed 0]
    let s : Service Disk := { state := d }
    (s.turns store.execution es).map (·.command) = cs ∧
      (∀ x ∈ s.turns store.execution es, x.response store.execution = .success) ∧
      ∃ db t, store.Holds (s.run store.execution es).state db ∧ db.HasUsers t ∧
        (t.rows.map (·.values)).Perm rows := by
  intro store d enter cs rows es s
  have hpath : store.plainPath = ["a.db"] := by decide +kernel
  have hkept : store.KeptAt ["a.db"] := by
    rw [← hpath]
    exact Store.kept_of_plain (by decide) (by decide) (by decide) (by decide)
  have hbootstrap := Store.bootstrap_of_new (d := {}) hkept rfl rfl (by decide)
  have hmade : store.bootstrap {} = (d, .done ()) := Prod.ext rfl (by rw [hbootstrap])
  obtain ⟨-, hentered, hfresh⟩ := no_update_lost store Frame.defaultLimit d es
  obtain ⟨db, t, hd, hu, hr, hnone⟩ := hfresh ["a.db"] {} hkept rfl hmade
  have hcs : (s.turns store.execution es).map (·.command) = cs := by decide +kernel
  have hlisted : ((s.turns store.execution es).map (·.command)).map (·.listed?) = rows.map some := by
    rw [hcs]
    decide +kernel
  obtain ⟨hanswered, db', t', added, hd', hu', hperm, hadded⟩ := hentered db t _ hd hu hr
    (entering_of_listed hlisted (by decide) (by simp [hnone]) (by rw [hnone]; decide))
  rw [hnone, List.nil_append] at hperm
  refine ⟨hcs, hanswered, db', t', hd', hu', (hperm.map _).trans (List.Perm.of_eq ?_)⟩
  exact hadded.trans (entries_of_listed hlisted).2

end QueryServer.Service
