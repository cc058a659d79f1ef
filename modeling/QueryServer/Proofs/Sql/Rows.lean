import Mathlib.Algebra.Group.Nat.Defs
import Mathlib.Data.List.Pairwise
import Mathlib.Data.List.Perm.Subperm
import QueryServer.Sql.Change
/-!
Rows that are added to a table. A row is put among the others without touching them, there is a free
number for it as long as not all are taken, and a row that agrees with no other one in a key is
accepted. A table with more rows leaves no more orphans.
-/

namespace QueryServer.Sql

namespace Datum

theorem eq_of_compareBytes {a b : Bytes} (h : compareBytes a b = .eq) : a = b := by
  induction a generalizing b with
  | nil =>
    cases b with
    | nil => rfl
    | cons y ys => cases h
  | cons x xs ih =>
    cases b with
    | nil => cases h
    | cons y ys =>
      rw [compareBytes, Ordering.then_eq_eq, Std.compare_eq_iff_eq] at h
      rw [h.1, ih h.2]

/-- What a column of texts can hold. -/
def isTextual : Datum → Bool
  | null | text _ | blob _ => true
  | integer _ | real _ => false

theorem isTextual_store (d : Datum) : (d.store .text).isTextual := by
  cases d <;> rfl

/-- Values of a column of texts agree only if they are equal. -/
theorem eq_of_order {x y : Datum} (hx : x.isTextual) (h : order x y = .eq) : x = y := by
  cases x with
  | integer n | real n => cases hx
  | null => cases y <;> first | rfl | cases h
  | text a =>
    cases y with
    | text b => exact congrArg text (eq_of_compareBytes h)
    | _ => cases h
  | blob a =>
    cases y with
    | blob b => exact congrArg blob (eq_of_compareBytes h)
    | _ => cases h

end Datum

namespace Table

theorem place_perm (r : Record) (rows : List Record) : (place r rows).Perm (r :: rows) := by
  induction rows with
  | nil => rfl
  | cons x rows ih =>
    unfold place
    split
    · rfl
    · exact (ih.cons x).trans (List.Perm.swap r x rows)

/-- Rows are in the order of their numbers, which differ. -/
def Ordered (rows : List Record) : Prop :=
  rows.Pairwise fun a b => a.number < b.number

theorem ordered_place {r : Record} {rows : List Record} (h : Ordered rows)
    (hr : ∀ x ∈ rows, x.number ≠ r.number) : Ordered (place r rows) := by
  induction rows with
  | nil => exact List.pairwise_singleton _ r
  | cons x rows ih =>
    obtain ⟨hx, hrows⟩ := List.pairwise_cons.mp h
    unfold place
    split
    · rename_i hlt
      refine List.pairwise_cons.mpr ⟨fun z hz => ?_, h⟩
      rcases List.mem_cons.mp hz with rfl | hz
      · exact hlt
      · exact Int64.lt_trans hlt (hx z hz)
    · rename_i hlt
      refine List.pairwise_cons.mpr ⟨fun z hz => ?_, ih hrows fun z hz => ?_⟩
      · rcases List.mem_cons.mp ((place_perm r rows).mem_iff.mp hz) with rfl | hz
        · exact Int64.lt_of_le_of_ne (Int64.not_lt.mp hlt) (hr x List.mem_cons_self)
        · exact hx z hz
      · exact hr z (List.mem_cons_of_mem x hz)

/-- The last row has the largest number. -/
theorem le_last {rows : List Record} (h : Ordered rows) {last : Record}
    (hlast : rows.getLast? = some last) : ∀ x ∈ rows, x.number ≤ last.number := by
  obtain ⟨front, rfl⟩ := List.getLast?_eq_some_iff.mp hlast
  intro x hx
  rcases List.mem_append.mp hx with hx | hx
  · exact Int64.le_of_lt ((List.pairwise_append.mp h).2.2 x hx last List.mem_cons_self)
  · rw [List.mem_singleton.mp hx]
    exact Int64.le_refl _

/-- Rows can have all numbers that there are. -/
theorem exists_crowded (values : Tuple) : ∃ rows : List Record, Ordered rows ∧
    (∀ n, ∃ r ∈ rows, r.number = n) ∧ ∀ r ∈ rows, r.values = values := by
  obtain ⟨k, hk⟩ : ∃ k : Nat, k = 2 ^ 64 := ⟨_, rfl⟩
  have hnumber : ∀ i ∈ List.range k,
      (Int64.ofInt ((i : Int) - 2 ^ 63)).toInt = (i : Int) - 2 ^ 63 := by
    intro i hi
    have hi := List.mem_range.mp hi
    exact Int64.toInt_ofInt_of_le (by omega) (by omega)
  refine ⟨(List.range k).map fun i : Nat => ⟨.ofInt ((i : Int) - 2 ^ 63), values⟩, ?_, ?_, ?_⟩
  · refine List.pairwise_map.mpr (List.pairwise_lt_range.imp_of_mem fun {i j} hi hj hlt => ?_)
    rw [Int64.lt_iff_toInt_lt, hnumber i hi, hnumber j hj]
    omega
  · intro n
    have hlow := Int64.le_toInt n
    have hhigh := Int64.toInt_lt n
    have hmem : (n.toInt + 2 ^ 63).toNat ∈ List.range k := List.mem_range.mpr (by omega)
    have hplace : ((n.toInt + 2 ^ 63).toNat : Int) - 2 ^ 63 = n.toInt := by omega
    refine ⟨_, List.mem_map_of_mem hmem, ?_⟩
    rw [hplace, Int64.ofInt_toInt]
  · intro r hr
    obtain ⟨i, -, rfl⟩ := List.mem_map.mp hr
    rfl

end Table

/-- Numbers one after another differ as long as they do not come round. -/
theorem nodup_numbers {k : Nat} (hk : k ≤ 2 ^ 64) :
    ((List.range k).map fun i => Int64.ofNat (i + 1)).Nodup := by
  refine List.pairwise_map.mpr (List.pairwise_lt_range.imp_of_mem fun {i j} hi hj hlt he => ?_)
  have hi := List.mem_range.mp hi
  have hj := List.mem_range.mp hj
  have hbits := congrArg (fun n : Int64 => n.toBitVec.toNat) he
  simp only [Int64.toBitVec_ofNat', BitVec.toNat_ofNat] at hbits
  omega

/-- More numbers than there are rows are not all taken. -/
theorem exists_unused {t : Table} {k : Nat} (hlt : t.rows.length < k) (hk : k ≤ 2 ^ 64) :
    ∃ i < k, t.row? (Int64.ofNat (i + 1)) = none := by
  by_contra hall
  push Not at hall
  have hsub : (List.range k).map (fun i => Int64.ofNat (i + 1)) ⊆ t.rows.map (·.number) := by
    intro n hn
    obtain ⟨i, hi, rfl⟩ := List.mem_map.mp hn
    obtain ⟨x, hx⟩ := Option.ne_none_iff_exists'.mp (hall i (List.mem_range.mp hi))
    have hnumber : x.number = Int64.ofNat (i + 1) := by simpa using List.find?_some hx
    exact List.mem_map.mpr ⟨x, List.mem_of_find?_eq_some hx, hnumber⟩
  have hlength := ((nodup_numbers hk).subperm hsub).length_le
  rw [List.length_map, List.length_map, List.length_range] at hlength
  omega

theorem exists_ofNat (n : Int64) : ∃ i < 2 ^ 64, Int64.ofNat (i + 1) = n := by
  refine ⟨(n.toBitVec.toNat + (2 ^ 64 - 1)) % 2 ^ 64, Nat.mod_lt _ (by decide), ?_⟩
  refine Int64.toBitVec.inj (BitVec.eq_of_toNat_eq ?_)
  have hlt := n.toBitVec.isLt
  simp only [Int64.toBitVec_ofNat', BitVec.toNat_ofNat]
  omega

namespace Draught

/-- As long as a number is not taken, one is found. -/
theorem exists_freeNumber {t : Table} (hfree : ∃ n, t.row? n = none) :
    ∃ n, freeNumber? t = some n ∧ ∀ x ∈ t.rows, x.number ≠ n := by
  cases hfound : freeNumber? t with
  | some n =>
    refine ⟨n, rfl, fun x hx hn => ?_⟩
    have hnone := List.find?_some hfound
    rw [Table.row?, Option.isNone_iff_eq_none, List.find?_eq_none] at hnone
    exact hnone x hx (by simpa using hn)
  | none =>
    exfalso
    have htaken : ∀ i < t.rows.length + 1, t.row? (Int64.ofNat (i + 1)) ≠ none := by
      rw [freeNumber?, List.find?_eq_none] at hfound
      intro i hi hnone
      exact hfound _ (List.mem_map_of_mem (List.mem_range.mpr hi))
        (Option.isNone_iff_eq_none.mpr hnone)
    by_cases hmany : t.rows.length < 2 ^ 64
    · obtain ⟨i, hi, hnone⟩ := exists_unused (Nat.lt_succ_self t.rows.length) hmany
      exact htaken i hi hnone
    · -- the numbers that are tried are all that there are
      obtain ⟨n, hn⟩ := hfree
      obtain ⟨i, hi, rfl⟩ := exists_ofNat n
      exact htaken i (by omega) hn

/-- While not all numbers are taken, a new row gets one that no other row has. -/
theorem exists_newNumber {d : Draught} (h : Table.Ordered d.table.rows)
    (hauto : d.table.shape.autoincrement = false)
    (hroom : ∃ n, d.table.row? n = none) :
    ∃ n, d.newNumber = .ok n ∧ ∀ x ∈ d.table.rows, x.number ≠ n := by
  unfold newNumber
  simp only [hauto, Bool.false_eq_true, if_false]
  split
  · rename_i hnext
    refine ⟨_, rfl, fun x hx hn => ?_⟩
    cases hlast : d.table.rows.getLast? with
    | none =>
      rw [List.getLast?_eq_none_iff.mp hlast] at hx
      cases hx
    | some last =>
      have hle := Int64.le_iff_toInt_le.mp (Table.le_last h hlast x hx)
      have hlow := Int64.le_toInt last.number
      simp only [Table.lastNumber, hlast, Option.map_some, Option.getD_some] at hn hnext
      have hint := congrArg Int64.toInt hn
      rw [Int64.toInt_ofInt_of_le (by omega) (Int.lt_of_le_of_lt hnext (by decide))] at hint
      omega
  · obtain ⟨n, hn, hfree⟩ := exists_freeNumber hroom
    exact ⟨n, by rw [hn], hfree⟩

/-- When all numbers are taken, there is none for a new row. -/
theorem newNumber_of_taken {d : Draught} (h : Table.Ordered d.table.rows)
    (hauto : d.table.shape.autoincrement = false) (htaken : ∀ n, d.table.row? n ≠ none) :
    d.newNumber = .error .full := by
  have hrow : ∀ n, ∃ x ∈ d.table.rows, x.number = n := by
    intro n
    obtain ⟨x, hx⟩ := Option.ne_none_iff_exists'.mp (htaken n)
    exact ⟨x, List.mem_of_find?_eq_some hx, by simpa using List.find?_some hx⟩
  have hfree : freeNumber? d.table = none := by
    rw [freeNumber?, List.find?_eq_none]
    intro n _
    simpa using htaken n
  -- the largest number is that of the last row
  obtain ⟨largest, hmem, hlargest⟩ := hrow (Int64.ofInt Numeric.maxInt)
  have hlast := List.getLast?_eq_some_getLast (List.ne_nil_of_mem hmem)
  have hle := Int64.le_iff_toInt_le.mp (Table.le_last h hlast largest hmem)
  rw [hlargest] at hle
  have hmax : (Int64.ofInt Numeric.maxInt).toInt = Numeric.maxInt := by decide
  unfold newNumber
  simp only [hauto, Bool.false_eq_true, if_false, Table.lastNumber, hlast, Option.map_some,
    Option.getD_some, hfree]
  rw [if_neg (by omega)]

end Draught

theorem sameName_iff {a b : String} : sameName a b ↔ folded a = folded b :=
  beq_iff_eq

theorem sameName_congr {a b : String} (h : sameName a b) (c : String) :
    sameName a c = sameName b c ∧ sameName c a = sameName c b := by
  simp [sameName, sameName_iff.mp h]

theorem length_flatMap_le {α β : Type} {f g : α → List β} {as : List α}
    (h : ∀ a ∈ as, (f a).length ≤ (g a).length) :
    (as.flatMap f).length ≤ (as.flatMap g).length := by
  induction as with
  | nil => exact Nat.le_refl _
  | cons a as ih =>
    rw [List.flatMap_cons, List.flatMap_cons, List.length_append, List.length_append]
    exact Nat.add_le_add (h a List.mem_cons_self) (ih fun b hb => h b (List.mem_cons_of_mem a hb))

namespace Database

variable {db : Database} {t t' : Table}

theorem table?_congr {a b : String} (h : sameName a b) (db : Database) :
    db.table? a = db.table? b := by
  simp only [table?, (sameName_congr h _).2]

/-- A table takes the place of the one with its name. -/
theorem table?_put (hname : t'.name = t.name) (h : db.table? t.name = some t) (name : String) :
    (db.put t').table? name = if sameName t.name name then some t' else db.table? name := by
  have hmap : (db.put t').table? name = (db.table? name).map fun u =>
      if sameName u.name t'.name then t' else u := by
    have hsame : ((fun u : Table => sameName u.name name) ∘ fun u =>
        if sameName u.name t'.name then t' else u) = fun u => sameName u.name name := by
      funext u
      dsimp only [Function.comp_apply]
      split
      · rename_i hu
        exact (sameName_congr hu name).1.symm
      · rfl
    rw [table?, table?, put, List.find?_map, hsame]
  rw [hmap]
  split
  · rename_i hsame
    have hself : sameName t.name t'.name := by rw [hname]; exact sameName_iff.mpr rfl
    rw [← table?_congr hsame, h, Option.map_some, if_pos hself]
  · rename_i hother
    cases hu : db.table? name with
    | none => rfl
    | some u =>
      have hu := List.find?_some hu
      rw [Option.map_some, if_neg]
      rw [hname, (sameName_congr hu _).1]
      exact fun h => hother (by rwa [sameName_iff, eq_comm, ← sameName_iff])

theorem isOrphan_put (hname : t'.name = t.name) (h : db.table? t.name = some t)
    (hshape : t'.shape = t.shape) (hrows : t.rows ⊆ t'.rows) {f : ForeignKey} {r : Record}
    (hr : f.isOrphan (db.put t') r) : f.isOrphan db r := by
  unfold ForeignKey.isOrphan at hr ⊢
  split at hr
  · cases hr
  rename_i values _
  rw [table?_put hname h] at hr
  by_cases hparent : sameName t.name f.parent
  · rw [if_pos hparent] at hr
    rw [← table?_congr hparent, h]
    dsimp only at hr ⊢
    rw [hshape] at hr
    cases hplaces : t.shape.referenced? f with
    | none => rfl
    | some places =>
      rw [hplaces] at hr
      simp only [Bool.not_eq_true', List.any_eq_false] at hr ⊢
      exact fun x hx => hr x (hrows hx)
  · rwa [if_neg hparent] at hr

/-- More rows in a table that refers to no other one leave no row without the one it refers to. -/
theorem keepingReferences_put (hname : t'.name = t.name) (h : db.table? t.name = some t)
    (hshape : t'.shape = t.shape) (hkeys : t.shape.foreignKeys = []) (hrows : t.rows ⊆ t'.rows) :
    db.keepingReferences (db.put t') = .ok (db.put t') := by
  have hle : (db.put t').orphans.length ≤ db.orphans.length := by
    rw [orphans, orphans, put, List.flatMap_map]
    refine length_flatMap_le fun u _ => ?_
    -- the table itself refers to nothing; in the others, every orphan was one before
    split
    · rw [hshape, hkeys]
      exact Nat.zero_le _
    · refine length_flatMap_le fun f _ => ?_
      rw [← List.countP_eq_length_filter, ← List.countP_eq_length_filter]
      exact List.countP_mono_left fun r _ hr => isOrphan_put hname h hshape hrows hr
  rw [keepingReferences, if_neg (Nat.not_lt.mpr hle)]

/-- The foreign keys that refer to a table refer to keys of it, as far as an insertion of one row
looks at them: all if the row may take the place of another one, else those that are deferred. -/
def Supports (db : Database) (t : Table) (replaces : Bool) : Prop :=
  ∀ x ∈ db.referrers t.name, (x.2.deferred || replaces) = true → x.2.check db x.1.name = .ok ()

theorem mem_referrers {x : Table × ForeignKey} {name : String} :
    x ∈ db.referrers name ↔
      x.1 ∈ db.tables ∧ x.2 ∈ x.1.shape.foreignKeys ∧ sameName x.2.parent name := by
  obtain ⟨u, f⟩ := x
  simp only [referrers, List.mem_reverse, List.mem_flatMap, List.mem_map, List.mem_filter,
    Prod.mk.injEq]
  constructor
  · rintro ⟨u', hu, f', ⟨hf, hname⟩, rfl, rfl⟩
    exact ⟨hu, hf, hname⟩
  · rintro ⟨hu, hf, hname⟩
    exact ⟨u, hu, f, ⟨hf, hname⟩, rfl, rfl⟩

theorem check_put (hname : t'.name = t.name) (h : db.table? t.name = some t)
    (hshape : t'.shape = t.shape) (f : ForeignKey) (child : String) :
    f.check (db.put t') child = f.check db child := by
  unfold ForeignKey.check
  rw [table?_put hname h]
  by_cases hparent : sameName t.name f.parent
  · rw [if_pos hparent, ← table?_congr hparent, h]
    dsimp only
    rw [hshape]
  · rw [if_neg hparent]

/-- What is written to a table changes nothing about the foreign keys that refer to it. -/
theorem supports_put (hname : t'.name = t.name) (h : db.table? t.name = some t)
    (hshape : t'.shape = t.shape) {replaces : Bool} (hs : db.Supports t replaces) :
    (db.put t').Supports t' replaces := by
  rintro ⟨u, f⟩ hx hf
  obtain ⟨hu, hkey, hparent⟩ := mem_referrers.mp hx
  rw [check_put hname h hshape]
  rw [hname] at hparent
  obtain ⟨v, hv, rfl⟩ := List.mem_map.mp hu
  -- the table may refer to itself
  split at hkey
  · rename_i hself
    rw [if_pos hself, hname]
    rw [hshape] at hkey
    exact hs (t, f) (mem_referrers.mpr ⟨List.mem_of_find?_eq_some h, hkey, hparent⟩) hf
  · rename_i hother
    rw [if_neg hother]
    exact hs (v, f) (mem_referrers.mpr ⟨hv, hkey, hparent⟩) hf

end Database

end QueryServer.Sql
