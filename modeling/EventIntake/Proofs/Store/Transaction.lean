import EventIntake.Proofs.Sql.Insert
import EventIntake.Store.Database

/-! A batch is stored as a whole or not at all, and the first problem is the one reported. -/
namespace EventIntake.Database
open Sql

/-- The statements of records ran one after the other. A record without rows has none. -/
inductive Ran (mode : ConflictMode) : List Record → Database → Database → Prop
  | nil (db : Database) : Ran mode [] db db
  | skip {rest : List Record} {db stored : Database} :
      Ran mode rest db stored → Ran mode ([] :: rest) db stored
  | insert {r : Record} {rest : List Record} {s : Insert} {db next stored : Database} :
      Insert.ofRecord mode r = .ok (some s) → db.run s = .ok next → Ran mode rest next stored →
        Ran mode (r :: rest) db stored

/-- The records before a place ran, and the statement of the record there is refused. -/
def FailsAt (mode : ConflictMode) (records : List Record) (db : Database) (index : Nat) (fault : Fault) :
    Prop :=
  ∃ before r after s next, records = before ++ r :: after ∧ before.length = index ∧
    Ran mode before db next ∧ Insert.ofRecord mode r = .ok (some s) ∧ next.run s = .error fault

namespace Ran
variable {mode : ConflictMode} {records : List Record} {db a b : Database}

theorem unique (ha : Ran mode records db a) (hb : Ran mode records db b) : a = b := by
  induction ha with
  | nil => cases hb; rfl
  | skip _ ih =>
    cases hb with
    | skip hb => exact ih hb
    | insert hs => cases hs
  | insert hs hr _ ih =>
    cases hb with
    | skip => cases hs
    | insert hs' hr' hb =>
      cases hs.symm.trans hs'
      cases hr.symm.trans hr'
      exact ih hb

theorem of_empty (h : ∀ r ∈ records, r = []) (db : Database) : Ran mode records db db := by
  induction records with
  | nil => exact .nil db
  | cons r rest ih =>
    obtain ⟨rfl, hrest⟩ := List.forall_mem_cons.mp h
    exact .skip (ih hrest)

end Ran

namespace FailsAt
variable {mode : ConflictMode} {r : Record} {rest : List Record} {s : Insert} {db next : Database}
  {index : Nat} {fault : Fault}

theorem here (hs : Insert.ofRecord mode r = .ok (some s)) (hr : db.run s = .error fault) :
    FailsAt mode (r :: rest) db 0 fault :=
  ⟨[], r, rest, s, db, rfl, rfl, .nil db, hs, hr⟩

theorem skip (h : FailsAt mode rest db index fault) : FailsAt mode ([] :: rest) db (index + 1) fault := by
  obtain ⟨before, r, after, s, next, rfl, rfl, hran, hs, hr⟩ := h
  exact ⟨[] :: before, r, after, s, next, rfl, rfl, .skip hran, hs, hr⟩

theorem insert (hs : Insert.ofRecord mode r = .ok (some s)) (hr : db.run s = .ok next)
    (h : FailsAt mode rest next index fault) : FailsAt mode (r :: rest) db (index + 1) fault := by
  obtain ⟨before, r', after, s', last, rfl, rfl, hran, hs', hr'⟩ := h
  exact ⟨r :: before, r', after, s', last, rfl, rfl, .insert hs hr hran, hs', hr'⟩

theorem exists_row (h : FailsAt mode rest db index fault) : ∃ r ∈ rest, r ≠ [] := by
  obtain ⟨before, r, after, s, next, rfl, _, _, hs, _⟩ := h
  refine ⟨r, by simp, ?_⟩
  rintro rfl
  cases hs

end FailsAt

/-! ### Building the statements -/

theorem statementsFrom_mixed (mode : ConflictMode) {records : List Record} {e : MixedCollection}
    (h : records.findSome? Insert.mixed? = some e) (index : Nat) :
    statementsFrom mode index records = .error e := by
  induction records generalizing index with
  | nil => cases h
  | cons r rest ih =>
    rw [List.findSome?_cons] at h
    simp only [statementsFrom, Insert.ofRecord_eq, bind, Except.bind]
    cases hr : Insert.mixed? r with
    | some e' =>
      rw [hr] at h
      cases h
      rfl
    | none =>
      rw [hr] at h
      simp only [ih h]

/-- Without mixed collections every statement is built. They run to the end, or up to the first that
fails. -/
theorem runAll_statementsFrom (mode : ConflictMode) {records : List Record}
    (h : records.findSome? Insert.mixed? = none) (index : Nat) (db : Database) :
    ∃ statements, statementsFrom mode index records = .ok statements ∧
      ((∃ stored, Ran mode records db stored ∧ runAll statements db = .ok stored) ∨
        ∃ place fault, FailsAt mode records db place fault ∧
          runAll statements db = .error (.statement (index + place) fault)) := by
  induction records generalizing index db with
  | nil => exact ⟨[], rfl, .inl ⟨db, .nil db, rfl⟩⟩
  | cons r rest ih =>
    obtain ⟨hr, hrest⟩ := List.forall_mem_cons.mp (List.findSome?_eq_none_iff.mp h)
    have ih := ih (List.findSome?_eq_none_iff.mpr hrest)
    cases r with
    | nil =>
      obtain ⟨later, hb, hrun⟩ := ih (index + 1) db
      refine ⟨later, by simp [statementsFrom, Insert.ofRecord, hb, bind, Except.bind], ?_⟩
      rcases hrun with ⟨stored, hran, he⟩ | ⟨place, fault, hf, he⟩
      · exact .inl ⟨stored, .skip hran, he⟩
      · exact .inr ⟨place + 1, fault, hf.skip, by rw [he, Nat.add_right_comm, Nat.add_assoc]⟩
    | cons row rows =>
      obtain ⟨s, hs⟩ : ∃ s, Insert.ofRecord mode (row :: rows) = .ok (some s) := by
        simp [Insert.ofRecord_eq, hr]
      cases hrun : db.run s with
      | error fault =>
        obtain ⟨later, hb, _⟩ := ih (index + 1) db
        exact ⟨(index, s) :: later, by simp [statementsFrom, hs, hb, bind, Except.bind],
          .inr ⟨0, fault, .here hs hrun, by simp [runAll, hrun]⟩⟩
      | ok next =>
        obtain ⟨later, hb, hlater⟩ := ih (index + 1) next
        refine ⟨(index, s) :: later, by simp [statementsFrom, hs, hb, bind, Except.bind], ?_⟩
        simp only [runAll, hrun]
        rcases hlater with ⟨stored, hran, he⟩ | ⟨place, fault, hf, he⟩
        · exact .inl ⟨stored, .insert hs hrun hran, he⟩
        · exact .inr ⟨place + 1, fault, hf.insert hs hrun,
            by rw [he, Nat.add_right_comm, Nat.add_assoc]⟩

/-! ### Batches -/

theorem persist_without_mixed (mode : ConflictMode) {records : List Record}
    (h : records.findSome? Insert.mixed? = none) (db : Database) :
    (∃ stored, Ran mode records db stored ∧ db.persist mode records = (.ok (), stored)) ∨
      ∃ index fault, FailsAt mode records db index fault ∧
        db.persist mode records = (.error (.statement index fault), db) := by
  obtain ⟨statements, hb, hrun⟩ := runAll_statementsFrom mode h 0 db
  rcases hrun with ⟨stored, hran, he⟩ | ⟨place, fault, hf, he⟩
  · exact .inl ⟨stored, hran, by simp [persist, hb, he]⟩
  · exact .inr ⟨place, fault, hf, by simp [persist, hb, he]⟩

theorem of_persist_eq_ok {mode : ConflictMode} {records : List Record} {db stored : Database}
    (h : db.persist mode records = (.ok (), stored)) :
    records.findSome? Insert.mixed? = none ∧ Ran mode records db stored := by
  cases hm : records.findSome? Insert.mixed? with
  | some e =>
    simp only [persist, statementsFrom_mixed mode hm 0] at h
    cases h
  | none =>
    rcases persist_without_mixed mode hm db with ⟨stored', hran, he⟩ | ⟨_, _, _, he⟩
    · cases he.symm.trans h
      exact ⟨rfl, hran⟩
    · cases he.symm.trans h

/-- The first mixed collection refuses a batch before any statement runs. Else every statement runs, or
the first that fails is reported under the place of its record and the database stays as it was. -/
theorem persist_whole_or_unchanged (mode : ConflictMode) (records : List Record) (db : Database) :
    (match records.findSome? Insert.mixed? with
      | some e => db.persist mode records = (.error (.mixedCollection e), db)
      | none =>
        (∃ stored, Ran mode records db stored ∧ db.persist mode records = (.ok (), stored)) ∨
          ∃ index fault, FailsAt mode records db index fault ∧
            db.persist mode records = (.error (.statement index fault), db)) ∧
      ((∀ r ∈ records, r = []) → db.persist mode records = (.ok (), db)) := by
  refine ⟨?_, fun hempty => ?_⟩
  · split
    · rename_i e h
      simp only [persist, statementsFrom_mixed mode h 0]
    · rename_i h
      exact persist_without_mixed mode h db
  · have hm : records.findSome? Insert.mixed? = none :=
      List.findSome?_eq_none_iff.mpr fun r hr => by rw [hempty r hr]; rfl
    rcases persist_without_mixed mode hm db with ⟨stored, hran, he⟩ | ⟨_, _, hf, _⟩
    · rw [he, hran.unique (.of_empty hempty db)]
    · obtain ⟨r, hr, hne⟩ := hf.exists_row
      exact absurd (hempty r hr) hne

end EventIntake.Database
