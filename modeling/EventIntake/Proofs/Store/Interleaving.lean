import EventIntake.Proofs.Event.Category
import EventIntake.Proofs.Store.Ledger
import EventIntake.Proofs.Store.Statement
import EventIntake.Proofs.Store.Transaction

/-! Records of different tables do not get into each other's way. What records leave in a database depends on
their order within each table only. -/
namespace EventIntake
open Event Sql

namespace Database

/-! ### Statements of one table -/

/-- What a statement makes of its table. -/
def runTable (c : Category) (s : Insert) (t : TableRows) : Except Fault TableRows :=
  match foreign? c s.columns with
  | some column => .error (.noColumn s.table column)
  | none => if !targetFits s.keys then .error .conflictTarget else s.rows.foldlM (put c s) t

theorem table?_eq (c : Category) (db : Database) :
    db.table? (Schema.tableName c) = (Sorted.find? c db.tables).map (Prod.mk c) := by
  simp only [table?, sameName_tableName]
  induction db.tables with
  | nil => rfl
  | cons t rest ih =>
    obtain ⟨d, rows⟩ := t
    by_cases hd : d = c
    · simp [hd, Sorted.find?]
    · simp [hd, Ne.symm hd, Sorted.find?, ih]

/-- A statement looks at its own table and changes no other. -/
theorem run_eq_ok_iff {c : Category} {s : Insert} (hs : s.table = Schema.tableName c) {db next : Database} :
    db.run s = .ok next ↔
      textFault? s = none ∧ ∃ t t', Sorted.find? c db.tables = some t ∧ runTable c s t = .ok t' ∧
        next = ⟨Sorted.insert c t' db.tables⟩ := by
  simp only [run, hs, table?_eq]
  cases textFault? s with
  | some fault => simp
  | none =>
    cases Sorted.find? c db.tables with
    | none => simp
    | some t =>
      simp only [Option.map_some, runTable, hs]
      cases foreign? c s.columns with
      | some column => simp
      | none =>
        cases targetFits s.keys with
        | false => simp
        | true => cases hf : s.rows.foldlM (put c s) t <;> simp [hf, bind, Except.bind, eq_comm]

/-- Statements of different tables may run in any order. -/
theorem run_comm {c d : Category} (hcd : c ≠ d) {s s' : Insert} (hs : s.table = Schema.tableName c)
    (hs' : s'.table = Schema.tableName d) {db next last : Database} (h : db.run s = .ok next)
    (h' : next.run s' = .ok last) : ∃ other, db.run s' = .ok other ∧ other.run s = .ok last := by
  obtain ⟨htext, t, u, ht, hu, rfl⟩ := (run_eq_ok_iff hs).mp h
  obtain ⟨htext', t', u', ht', hu', rfl⟩ := (run_eq_ok_iff hs').mp h'
  rw [Sorted.find?_insert, if_neg (Ne.symm hcd)] at ht'
  refine ⟨_, (run_eq_ok_iff hs').mpr ⟨htext', t', u', ht', hu', rfl⟩,
    (run_eq_ok_iff hs).mpr ⟨htext, t, u, ?_, hu, ?_⟩⟩
  · rw [Sorted.find?_insert, if_neg hcd, ht]
  · rw [Sorted.insert_comm hcd]

theorem table_of_ofRecord {mode : ConflictMode} {c : Category} {r : Record} (h : r.InTable c) {s : Insert}
    (hs : Insert.ofRecord mode r = .ok (some s)) : s.table = Schema.tableName c := by
  obtain ⟨row, rfl, htable⟩ := h
  obtain ⟨_, _, _, hfit⟩ := Insert.of_ofRecord_eq hs
  exact (hfit row (List.mem_singleton_self row)).1.symm.trans htable

/-! ### Runs of records -/

namespace Ran
variable {mode : ConflictMode} {records later : List Record} {db mid stored : Database}

theorem append (h : Ran mode records db mid) (h' : Ran mode later mid stored) :
    Ran mode (records ++ later) db stored := by
  induction h with
  | nil => exact h'
  | skip _ ih => exact .skip (ih h')
  | insert hs hr _ ih => exact .insert hs hr (ih h')

/-- Neighbours of different tables may change places. -/
theorem swap {a b : Record} {c d : Category} (ha : a.InTable c) (hb : b.InTable d) (hcd : c ≠ d)
    (h : Ran mode (a :: b :: later) db stored) : Ran mode (b :: a :: later) db stored := by
  obtain ⟨_, rfl, _⟩ := id ha
  obtain ⟨_, rfl, _⟩ := id hb
  cases h with
  | insert hs hr h =>
    cases h with
    | insert hs' hr' h =>
      obtain ⟨_, hother, hlast⟩ := run_comm hcd (table_of_ofRecord ha hs) (table_of_ofRecord hb hs') hr hr'
      exact .insert hs' hother (.insert hs hlast h)

/-- A record may run before records of other tables. -/
theorem to_front {before : List Record} {r : Record} {c : Category} (hr : r.InTable c)
    (hbefore : ∀ b ∈ before, ∃ d, b.InTable d ∧ d ≠ c) (h : Ran mode (before ++ r :: later) db stored) :
    Ran mode (r :: (before ++ later)) db stored := by
  induction before generalizing db with
  | nil => exact h
  | cons b rest ih =>
    obtain ⟨⟨d, hb, hne⟩, hrest⟩ := List.forall_mem_cons.mp hbefore
    refine swap hb hr hne ?_
    cases h with
    | skip h => exact .skip (ih hrest h)
    | insert hs hrun h => exact .insert hs hrun (ih hrest h)

/-- Records leave the same in a database in every order that keeps the order of each table. -/
theorem of_recordsIn_eq {records' : List Record} (hin : ∀ r ∈ records, ∃ c, r.InTable c)
    (hin' : ∀ r ∈ records', ∃ c, r.InTable c) (he : ∀ c, recordsIn c records = recordsIn c records')
    (h : Ran mode records db stored) : Ran mode records' db stored := by
  induction records' generalizing records db with
  | nil =>
    have hnil : records = [] := List.eq_nil_iff_forall_not_mem.mpr fun r hr => by
      obtain ⟨c, hc⟩ := hin r hr
      have hmem : r ∈ recordsIn c records := List.mem_filter.mpr ⟨hr, by simpa using hc⟩
      exact List.not_mem_nil (he c ▸ hmem)
    exact hnil ▸ h
  | cons r rest ih =>
    obtain ⟨⟨c, hr⟩, hrest⟩ := List.forall_mem_cons.mp hin'
    -- The first record of the table of `r` is `r` itself.
    have hfirst : recordsIn c records = r :: recordsIn c rest := by rw [he, recordsIn_cons c hr, if_pos rfl]
    obtain ⟨before, after, rfl, hbefore, _, hafter⟩ := List.filter_eq_cons_iff.mp hfirst
    have hin : ∀ x ∈ before ++ after, ∃ d, x.InTable d := fun x hx =>
      hin x (List.mem_append.mpr ((List.mem_append.mp hx).imp_right (List.mem_cons_of_mem r)))
    have hother : ∀ b ∈ before, ∃ d, b.InTable d ∧ d ≠ c := by
      intro b hb
      obtain ⟨d, hd⟩ := hin b (List.mem_append_left after hb)
      exact ⟨d, hd, fun hdc => hbefore b hb (by simpa [← hdc] using hd)⟩
    have hlater : ∀ d, recordsIn d (before ++ after) = recordsIn d rest := by
      intro d
      have hd := he d
      rw [recordsIn_append, recordsIn_cons d hr, recordsIn_cons d hr] at hd
      split at hd
      · rename_i hdc
        have hnone : recordsIn c before = [] := List.filter_eq_nil_iff.mpr hbefore
        rw [← hdc, recordsIn_append, hnone]
        exact hafter
      · exact (recordsIn_append ..).trans hd
    have hfront := to_front hr hother h
    cases hfront with
    | skip hfront =>
      obtain ⟨_, he, _⟩ := hr
      cases he
    | insert hs hrun hran =>
      exact .insert hs hrun (ih hin hrest hlater hran)

end Ran

end Database

/-- If every batch was stored, the statements of all their records ran in order. -/
theorem Ledger.ran_persistAll {batches : List Batch} {s : Ledger DatabaseStore}
    (h : (BatchStore.persistAll batches s).Flawless) :
    (BatchStore.persistAll batches s).store.mode = s.store.mode ∧
      Database.Ran s.store.mode (batches.flatMap Batch.records) s.store.database
        (BatchStore.persistAll batches s).store.database := by
  induction batches generalizing s with
  | nil => exact ⟨rfl, .nil _⟩
  | cons b rest ih =>
    obtain ⟨hmode, hran⟩ := ih (s := (BatchStore.persist b.records s).2) h
    have hfirst : (BatchStore.persist b.records s).2.Flawless := Flawless.of_persistAll h
    have hok : (s.store.database.persist s.store.mode b.records).1 = .ok () := hfirst.persist_ok
    exact ⟨hmode, (Database.of_persist_eq_ok (Prod.ext hok rfl)).2.append hran⟩

end EventIntake
