import EventIntake.Proofs.Store.Statement
import EventIntake.Proofs.Store.Transaction

/-! What batches of events leave in a database: the last row of each key, or the first one. How the rows
were cut into records and batches makes no difference. -/
namespace EventIntake.Database
open Event Sql

/-- The database after batches, or why one of them was not stored. -/
def persistEach (mode : ConflictMode) : List (List Record) → Database → Except StorageError Database
  | [], db => .ok db
  | records :: rest, db =>
    match db.persist mode records with
    | (.ok (), db) => persistEach mode rest db
    | (.error e, _) => .error e

/-- Every record is one statement, and no text in it is refused. This depends on no database. -/
structure Acceptable (mode : ConflictMode) (records : List Record) : Prop where
  unmixed : records.findSome? Insert.mixed? = none
  text : ∀ r ∈ records, ∀ s, Insert.ofRecord mode r = .ok (some s) → textFault? s = none

/-! ### One batch -/

section Batch
variable {mode : ConflictMode} {records : List Record} {db stored : Database}

theorem Ran.eq_write (h : Ran mode records db stored) (hdb : db.Initialised)
    (hrows : ∀ row ∈ records.flatten, row.OfEvent) :
    stored = db.write mode records.flatten ∧
      ∀ r ∈ records, ∀ s, Insert.ofRecord mode r = .ok (some s) → textFault? s = none := by
  induction h with
  | nil db => exact ⟨hdb.created.symm, by simp⟩
  | skip _ ih =>
    obtain ⟨he, ht⟩ := ih hdb hrows
    exact ⟨he, List.forall_mem_cons.mpr ⟨fun s hs => (by cases hs), ht⟩⟩
  | @insert r rest s db next stored hs hr _ ih =>
    rw [List.flatten_cons] at hrows
    have hr' := fun row hrow => hrows row (List.mem_append_left _ hrow)
    have hrest := fun row hrow => hrows row (List.mem_append_right _ hrow)
    have hrun := run_ofRecord hdb hr' hs
    rw [hr] at hrun
    cases htext : textFault? s with
    | some fault => simp [htext] at hrun
    | none =>
      simp only [htext, Except.ok.injEq] at hrun
      subst hrun
      obtain ⟨he, ht⟩ := ih (hdb.write mode hr') hrest
      refine ⟨by rw [he, List.flatten_cons, write_append], List.forall_mem_cons.mpr ⟨?_, ht⟩⟩
      intro s' hs'
      cases hs.symm.trans hs'
      exact htext

/-- A stored batch was acceptable and is written row by row. -/
theorem of_persist_ok (hdb : db.Initialised) (hrows : ∀ row ∈ records.flatten, row.OfEvent)
    (h : db.persist mode records = (.ok (), stored)) :
    stored = db.write mode records.flatten ∧ Acceptable mode records := by
  obtain ⟨hm, hran⟩ := of_persist_eq_ok h
  obtain ⟨he, ht⟩ := hran.eq_write hdb hrows
  exact ⟨he, hm, ht⟩

theorem persist_of_acceptable (hdb : db.Initialised) (hrows : ∀ row ∈ records.flatten, row.OfEvent)
    (h : Acceptable mode records) :
    db.persist mode records = (.ok (), db.write mode records.flatten) := by
  rcases persist_without_mixed mode h.unmixed db with ⟨stored, hran, he⟩ | ⟨_, fault, hfails, _⟩
  · rw [he, (hran.eq_write hdb hrows).1]
  · -- The statement that fails would have a fault in its text.
    obtain ⟨before, r, after, s, next, rfl, _, hran, hs, hrun⟩ := hfails
    rw [List.flatten_append, List.flatten_cons] at hrows
    have hbefore := fun row hrow => hrows row (List.mem_append_left _ hrow)
    have hr := fun row hrow => hrows row (List.mem_append_right _ (List.mem_append_left _ hrow))
    rw [(hran.eq_write hdb hbefore).1, run_ofRecord (hdb.write mode hbefore) hr hs,
      h.text r (by simp) s hs] at hrun
    cases hrun

end Batch

/-! ### Batches in order -/

section Batches
variable {mode : ConflictMode} {calls : List (List Record)} {db stored : Database}

theorem of_persistEach_ok (hdb : db.Initialised) (hrows : ∀ row ∈ calls.flatten.flatten, row.OfEvent)
    (h : db.persistEach mode calls = .ok stored) :
    stored = db.write mode calls.flatten.flatten ∧ ∀ records ∈ calls, Acceptable mode records := by
  induction calls generalizing db with
  | nil =>
    cases h
    exact ⟨hdb.created.symm, by simp⟩
  | cons records rest ih =>
    rw [List.flatten_cons, List.flatten_append] at hrows ⊢
    have hfirst := fun row hrow => hrows row (List.mem_append_left _ hrow)
    have hrest := fun row hrow => hrows row (List.mem_append_right _ hrow)
    rcases hp : db.persist mode records with ⟨e | _, next⟩
    · simp [persistEach, hp] at h
    · obtain ⟨rfl, ha⟩ := of_persist_ok hdb hfirst hp
      simp only [persistEach, hp] at h
      obtain ⟨he, hall⟩ := ih (hdb.write mode hfirst) hrest h
      exact ⟨by rw [he, write_append], List.forall_mem_cons.mpr ⟨ha, hall⟩⟩

theorem persistEach_of_acceptable (hdb : db.Initialised)
    (hrows : ∀ row ∈ calls.flatten.flatten, row.OfEvent)
    (h : ∀ records ∈ calls, Acceptable mode records) :
    db.persistEach mode calls = .ok (db.write mode calls.flatten.flatten) := by
  induction calls generalizing db with
  | nil => exact congrArg Except.ok hdb.created.symm
  | cons records rest ih =>
    rw [List.flatten_cons, List.flatten_append] at hrows ⊢
    have hfirst := fun row hrow => hrows row (List.mem_append_left _ hrow)
    have hrest := fun row hrow => hrows row (List.mem_append_right _ hrow)
    obtain ⟨ha, hall⟩ := List.forall_mem_cons.mp h
    simp only [persistEach, persist_of_acceptable hdb hfirst ha]
    rw [ih (hdb.write mode hfirst) hrest hall, write_append]

/-- Whether batches of rows of events are stored is up to their texts alone. -/
theorem exists_persistEach_iff (hdb : db.Initialised)
    (hrows : ∀ row ∈ calls.flatten.flatten, row.OfEvent) :
    (∃ stored, db.persistEach mode calls = .ok stored) ↔ ∀ records ∈ calls, Acceptable mode records :=
  ⟨fun ⟨_, h⟩ => (of_persistEach_ok hdb hrows h).2,
    fun h => ⟨_, persistEach_of_acceptable hdb hrows h⟩⟩

end Batches

/-- Batches of rows of events leave under each key of each table what survives of the written rows and the
present one, and nothing else. Any other cut of the same rows that is stored leaves the same database,
and is stored once more without any change. -/
theorem persistEach_survivors (mode : ConflictMode) {db stored : Database} (hdb : db.Initialised)
    {calls : List (List Record)} {rows : List Row} (hcalls : calls.flatten.flatten = rows)
    (hrows : ∀ row ∈ rows, row.OfEvent) (h : db.persistEach mode calls = .ok stored) :
    (∀ c key, (stored.rows c).filter (fun r => r.1 = key) =
      ((survivor mode c key rows (Sorted.find? key (db.rows c))).toList.map (Prod.mk key))) ∧
    stored.Initialised ∧
    ∀ (calls' : List (List Record)) (stored' : Database), calls'.flatten.flatten = rows →
      db.persistEach mode calls' = .ok stored' →
        stored' = stored ∧ stored.persistEach mode calls' = .ok stored := by
  subst hcalls
  obtain ⟨rfl, _⟩ := of_persistEach_ok hdb hrows h
  have hstored := hdb.write mode hrows
  refine ⟨fun c key => ?_, hstored, fun calls' stored' hcalls' h' => ?_⟩
  · rw [(hstored.regular c).ascending.filter_key, rows_write, find?_writeTable]
  · rw [← hcalls'] at hrows hstored ⊢
    obtain ⟨rfl, ha⟩ := of_persistEach_ok hdb hrows h'
    refine ⟨rfl, ?_⟩
    rw [persistEach_of_acceptable hstored hrows ha, write_write mode hdb hrows]

theorem last_row_survives :
    let row (seq : Int64) (epoch : UInt64) := Row.ofEvent ⟨1, "digest", seq⟩ (.epochChange epoch)
    let calls := [[[row 3 10, row 4 20]], [[row 3 11], [row 3 12]]]
    let key : RowKey := ⟨.text "digest", .int 3⟩
    ∃ stored, (create {}).persistEach .upsert calls = .ok stored ∧
      (stored.rows .epochChange).filter (fun r => r.1 = key) = [(key, [.int 1, .int 12])] := by
  intro row calls key
  have hrow : ∀ seq epoch, (row seq epoch).OfEvent := fun _ _ => ⟨_, _, rfl⟩
  have hrows : ∀ row ∈ calls.flatten.flatten, row.OfEvent := by simp [calls, hrow]
  have hok : ((create {}).persistEach .upsert calls).isOk = true := by decide
  cases h : (create {}).persistEach .upsert calls with
  | error e =>
    rw [h] at hok
    cases hok
  | ok stored =>
    have hsurvivors := persistEach_survivors .upsert initialised_create rfl hrows h
    exact ⟨stored, rfl, (hsurvivors.1 .epochChange key).trans (by decide)⟩

end EventIntake.Database
